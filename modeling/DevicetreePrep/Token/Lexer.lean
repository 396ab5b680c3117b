/-
# Cutting a text into tokens

The token at the front of a text is, in this order of preference:

| front of the text                               | token                     |
|-------------------------------------------------|---------------------------|
| white space or a comment                        | the whole gap             |
| a quote, behind `u8`, `u`, `U`, `L` or nothing  | a literal                 |
| a digit, or a dot and a digit                   | a number                  |
| a letter or an underscore                       | an identifier             |
| anything else                                   | the longest punctuator    |

A literal keeps its escapes as they are written.  A literal or comment that is
never closed runs to the end of the text; so a text has at most one fault.
-/

import DevicetreePrep.Problem
import DevicetreePrep.Token.Gap

namespace DevicetreePrep

/-- What a text can leave open at its end. -/
inductive Unterminated
  | blockComment
  | stringLiteral
  | charConst
  deriving DecidableEq, Repr

/-- A lexical error: what is left open, and the offset where it opens. -/
structure LexicalError where
  what : Unterminated
  offset : Nat
  deriving DecidableEq, Repr

/-- The wording of a lexical error. -/
def LexicalError.message (e : LexicalError) : String :=
  match e.what with
  | .blockComment => "Unterminated block comment"
  | .stringLiteral => "Unterminated string literal"
  | .charConst => "Unterminated character constant"

/-- The error as it is reported. -/
def LexicalError.problem (e : LexicalError) : Problem :=
  { message := e.message, code := .unterminatedText, offset := some e.offset }

/-- The token at the front of a text, with the characters it covers. -/
structure Lexeme where
  kind : TokenKind
  text : Text
  width : Nat
  fault : Option LexicalError := none
  deriving DecidableEq, Repr

namespace Lexeme

/-- How many characters follow an opening quote up to its closing quote, that
quote included, and whether there is one.  A backslash hides what follows it. -/
def quotedWidth (quote : Char) : Text → Nat × Bool
  | [] => (0, false)
  | '\\' :: _ :: cs => let (n, closed) := quotedWidth quote cs; (n + 2, closed)
  | c :: cs =>
    if c = quote then (1, true)
    else let (n, closed) := quotedWidth quote cs; (n + 1, closed)

/-- The width of what a literal may have in front of its quote, together with
the quote.  Only a string can have `u8`. -/
def literalStart? : Text → Option (Nat × Char)
  | '"' :: _ => some (0, '"')
  | '\'' :: _ => some (0, '\'')
  | 'u' :: '8' :: '"' :: _ => some (2, '"')
  | p :: '"' :: _ => if p = 'u' || p = 'U' || p = 'L' then some (1, '"') else none
  | p :: '\'' :: _ => if p = 'u' || p = 'U' || p = 'L' then some (1, '\'') else none
  | _ => none

/-- Whether a number starts here. -/
def isNumberStart : Text → Bool
  | '.' :: d :: _ => isDigit d
  | c :: _ => isDigit c
  | [] => false

/-- Whether a number may go on with this character. -/
def isNumberPart (c : Char) : Bool :=
  isDigit c || c = '.' || c = '_' || isLetter c

/-- Whether these two characters are an exponent mark and its sign. -/
def isSignedExponent (c d : Char) : Bool :=
  (c = 'e' || c = 'E' || c = 'p' || c = 'P') && (d = '+' || d = '-')

/-- How many characters go on with a number. -/
def numberWidth : Text → Nat
  | [] => 0
  | [c] => if isNumberPart c then 1 else 0
  | c :: d :: cs =>
    if isSignedExponent c d then numberWidth cs + 2
    else if isNumberPart c then numberWidth (d :: cs) + 1
    else 0

/-- The punctuators of three characters. -/
def triples : List Text :=
  [['.', '.', '.'], ['>', '>', '='], ['<', '<', '=']]

/-- The punctuators of two characters. -/
def pairs : List Text :=
  [['-', '>'], ['+', '+'], ['-', '-'], ['&', '&'], ['|', '|'], ['<', '='], ['>', '='],
    ['=', '='], ['!', '='], ['+', '='], ['-', '='], ['*', '='], ['/', '='], ['%', '='],
    ['&', '='], ['|', '='], ['^', '='], ['<', '<'], ['>', '>'], ['#', '#']]

/-- The width of the longest punctuator at the front of a text.  A character
that starts no other token is a punctuator of its own. -/
def punctuatorWidth (source : Text) : Nat :=
  if triples.contains (source.take 3) then 3
  else if pairs.contains (source.take 2) then 2
  else 1

/-- The literal at the front of a text, if there is one. -/
def literal? (here : Nat) (source : Text) : Option Lexeme :=
  (literalStart? source).map fun (before, quote) =>
    let (inner, closed) := quotedWidth quote (source.drop (before + 1))
    let width := before + 1 + inner
    { kind := if quote = '"' then .stringLiteral else .charConst
      text := source.take width
      width := width
      fault :=
        if closed then none
        else some ⟨if quote = '"' then .stringLiteral else .charConst, here⟩ }

/-- The token at the front of the text `c :: cs`, which stands at the offset
`here`. -/
def read (here : Nat) (c : Char) (cs : Text) : Lexeme :=
  let gap := Gap.read here (c :: cs)
  if gap.width ≠ 0 then
    { kind := .whitespace, text := gap.text, width := gap.width
      fault := gap.unclosed.map (⟨.blockComment, ·⟩) }
  else if let some l := literal? here (c :: cs) then l
  else if isNumberStart (c :: cs) then
    let n := numberWidth cs
    { kind := .number, text := c :: cs.take n, width := n + 1 }
  else if c = '_' || isLetter c then
    let word := cs.takeWhile isWordChar
    { kind := .ident, text := c :: word, width := word.length + 1 }
  else
    let n := punctuatorWidth (c :: cs)
    { kind := .punctuator, text := (c :: cs).take n, width := n }

/-- A token covers at least one character. -/
theorem width_pos (here : Nat) (c : Char) (cs : Text) : 0 < (read here c cs).width := by
  unfold read
  simp only
  split
  · simp only; omega
  · split
    · rename_i l h
      simp only [literal?, Option.map_eq_some_iff] at h
      obtain ⟨⟨before, quote⟩, -, rfl⟩ := h
      simp only
      omega
    · split
      · simp
      · split
        · simp
        · simp only [punctuatorWidth]
          split
          · decide
          · split <;> decide

end Lexeme

/-- The tokens of a text that stands at the offset `here`. -/
def tokenizeFrom (here : Nat) (source : Text) : List Token :=
  match source with
  | [] => []
  | c :: cs =>
    let l := Lexeme.read here c cs
    ⟨l.kind, l.text, here⟩ :: tokenizeFrom (here + l.width) ((c :: cs).drop l.width)
termination_by source.length
decreasing_by
  have := Lexeme.width_pos here c cs
  simp only [List.length_drop, List.length_cons]
  omega

/-- The tokens of a text. -/
def tokenize (source : Text) : List Token :=
  tokenizeFrom 0 source

/-- The lexical error of a text that stands at the offset `here`, if it has
one. -/
def lexicalErrorFrom? (here : Nat) (source : Text) : Option LexicalError :=
  match source with
  | [] => none
  | c :: cs =>
    let l := Lexeme.read here c cs
    l.fault <|> lexicalErrorFrom? (here + l.width) ((c :: cs).drop l.width)
termination_by source.length
decreasing_by
  have := Lexeme.width_pos here c cs
  simp only [List.length_drop, List.length_cons]
  omega

/-- The lexical error of a text, if it has one. -/
def lexicalError? (source : Text) : Option LexicalError :=
  lexicalErrorFrom? 0 source

/-- The token that a text spells, if it spells exactly one, without a fault,
and that is not white space. -/
def lexSingle? (source : Text) : Option Token :=
  match lexicalError? source, tokenize source with
  | none, [t] => if t.isWhite then none else some t
  | _, _ => none

end DevicetreePrep
