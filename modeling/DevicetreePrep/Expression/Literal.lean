/-
# Constants in expressions

A number is an integer constant or a floating constant; one that starts with a
zero and goes on with digits is octal.  A character constant is the number of
its character, of several characters the number that they make up to the base
256, or what its escape stands for; behind an escape nothing counts.
-/

import DevicetreePrep.Expression.Error
import DevicetreePrep.Expression.Value
import DevicetreePrep.Token

namespace DevicetreePrep

/-- The value of a hexadecimal digit. -/
def hexValue? (c : Char) : Option Nat :=
  if c.isDigit then some (c.toNat - '0'.toNat)
  else if 'a' ≤ c && c ≤ 'f' then some (c.toNat - 'a'.toNat + 10)
  else if 'A' ≤ c && c ≤ 'F' then some (c.toNat - 'A'.toNat + 10)
  else none

/-- Whether a character is a hexadecimal digit. -/
def isHexDigit (c : Char) : Bool :=
  (hexValue? c).isSome

/-- The number that hexadecimal digits make up to a base. -/
def ofDigits (base : Nat) (digits : Text) : Nat :=
  digits.foldl (fun n c => n * base + (hexValue? c).getD 0) 0

namespace Literal

/-- What may follow the digits of an integer constant. -/
def integerSuffixes : List String :=
  ["", "u", "U", "l", "L", "ll", "LL", "ul", "uL", "ull", "uLL", "Ul", "UL", "Ull", "ULL", "lu",
    "lU", "llu", "llU", "Lu", "LU", "LLu", "LLU"]

/-- The digits of an integer constant, if what follows them is one of its
suffixes. -/
def digitsOf? (isDigit : Char → Bool) (text : Text) : Option Text :=
  let digits := text.takeWhile isDigit
  if digits.isEmpty || !integerSuffixes.contains (String.ofList (text.dropWhile isDigit)) then none
  else some digits

/-- An integer constant: its base and its digits. -/
def integer? : Text → Option (Nat × Text)
  | '0' :: 'x' :: text => (digitsOf? isHexDigit text).map (16, ·)
  | '0' :: 'X' :: text => (digitsOf? isHexDigit text).map (16, ·)
  | '0' :: 'b' :: text => (digitsOf? (fun c => c = '0' || c = '1') text).map (2, ·)
  | '0' :: 'B' :: text => (digitsOf? (fun c => c = '0' || c = '1') text).map (2, ·)
  | text => (digitsOf? Char.isDigit text).map fun digits =>
    (if digits.length > 1 && digits.head? = some '0' then 8 else 10, digits)

/-- The exponent of a floating constant, the end of which is `text`: none counts
as zero, and one letter may follow. -/
def exponent? (text : Text) : Option Int :=
  let done (e : Int) (rest : Text) : Option Int :=
    if [[], ['f'], ['F'], ['l'], ['L']].contains rest then some e else none
  let digits (sign : Int) (rest : Text) : Option Int :=
    let digits := rest.takeWhile Char.isDigit
    if digits.isEmpty then none
    else done (sign * ofDigits 10 digits) (rest.dropWhile Char.isDigit)
  match text with
  | 'e' :: '-' :: rest | 'E' :: '-' :: rest => digits (-1) rest
  | 'e' :: '+' :: rest | 'E' :: '+' :: rest => digits 1 rest
  | 'e' :: rest | 'E' :: rest => digits 1 rest
  | _ => done 0 text

/-- The value of a floating constant. -/
def float? (text : Text) : Option Float :=
  let whole := text.takeWhile Char.isDigit
  let rest := text.dropWhile Char.isDigit
  let (part, rest) := match rest with
    | '.' :: rest => (rest.takeWhile Char.isDigit, rest.dropWhile Char.isDigit)
    | _ => ([], rest)
  let digits := whole ++ part
  if digits.isEmpty then none
  else (exponent? rest).map fun e =>
    let significant := digits.dropWhile (· = '0')
    Double.ofDecimal (ofDigits 10 significant) significant.length (e - part.length)

/-- The value of a number. -/
def number (t : Token) : Except EvaluationFailure Value :=
  match integer? t.text with
  | some (8, digits) =>
    if digits.all fun c => '0' ≤ c && c ≤ '7' then .ok (.int (ofDigits 8 digits))
    else .error (.error ⟨.badOctal t.text, some t.offset⟩)
  | some (10, digits) =>
    if digitLimit < digits.length then .error (.overrun (.digits digits.length))
    else .ok (.int (ofDigits 10 digits))
  | some (base, digits) => .ok (.int (ofDigits base digits))
  | none =>
    match float? t.text with
    | some x => .ok (.float x)
    | none => .error (.error ⟨.badNumber t.text, some t.offset⟩)

/-- A text as a numeral is read: beyond ASCII, blanks are spaces and decimal
digits of all scripts count, and nothing else does. -/
def plain (text : Text) : Text :=
  if text.all (·.toNat < 128) then text
  else text.map fun c =>
    if c.toNat < 127 then c
    else if isBlank c then ' '
    else match decimalValue? c with
      | some d => Char.ofNat ('0'.toNat + d)
      | none => '?'

/-- Hexadecimal digits, single underscores between them, and spaces behind. -/
def hexDigits? (text : Text) : Option Nat :=
  let isPart (c : Char) : Bool := c = '_' || isHexDigit c
  let pieces := Text.split '_' (text.takeWhile isPart)
  if pieces.all (!·.isEmpty) && (text.dropWhile isPart).all isSpace then
    some (ofDigits 16 pieces.flatten)
  else none

/-- A hexadecimal numeral: spaces, a sign, the mark `0x`, which an underscore may
follow, and the digits. -/
def hexNumeral? (text : Text) : Option Int :=
  let unsigned (text : Text) : Option Nat :=
    match text with
    | '0' :: 'x' :: '_' :: rest | '0' :: 'X' :: '_' :: rest => hexDigits? rest
    | '0' :: 'x' :: rest | '0' :: 'X' :: rest => hexDigits? rest
    | _ => hexDigits? text
  match (plain text).dropWhile isSpace with
  | '+' :: rest => (unsigned rest).map Int.ofNat
  | '-' :: rest => (unsigned rest).map fun n => -(n : Int)
  | rest => (unsigned rest).map Int.ofNat

/-- The escapes of one letter. -/
def simpleEscapes : List (Char × Nat) :=
  [('a', 7), ('b', 8), ('f', 12), ('n', 10), ('r', 13), ('t', 9), ('v', 11)]

/-- What stands between the quotes of a character constant; nothing if the
constant does not end with a quote of its own. -/
def quotedPart (text : Text) : Text :=
  let inner := (text.dropWhile (· ≠ '\'')).drop 1
  if inner.getLast? = some '\'' then inner.dropLast else []

/-- The number that characters make up to the base 256. -/
def ofCharacters (cs : Text) : Nat :=
  cs.foldl (fun n c => (n * 256) ||| c.toNat) 0

/-- The value of a character constant, if it has one. -/
def character? (text : Text) : Option Int :=
  match quotedPart text with
  | [] => none
  | '\\' :: [] => none
  | '\\' :: c :: cs =>
    let octal := ((c :: cs).take 3).takeWhile fun d => '0' ≤ d && d ≤ '7'
    if !octal.isEmpty then some (ofDigits 8 octal)
    else if c = 'x' then hexNumeral? cs
    else some ((simpleEscapes.lookup c).getD c.toNat)
  | cs => some (ofCharacters cs)

/-- The value of a character constant. -/
def character (t : Token) : Except EvaluationFailure Value :=
  match character? t.text with
  | some n => .ok (.int n)
  | none => .error (.error ⟨.badCharacter t.text, some t.offset⟩)

end Literal
end DevicetreePrep
