/-
# Texts in bytes

A file holds its text in UTF-8.  The first byte of a character says how many
bytes follow, and from which range the second one comes; ranges that would
spell a character in more bytes than needed, a surrogate, or a number beyond
the last character are left out.  A file with anything else in it is no text,
and the fault says which bytes are to blame.
-/

import DevicetreePrep.Text.Basic

namespace DevicetreePrep
namespace Utf8

/-- What is wrong with bytes. -/
inductive Reason
  /-- No character starts with this byte. -/
  | start
  /-- A byte does not go on with the character before it. -/
  | continuation
  /-- The last character lacks bytes. -/
  | ending
  deriving DecidableEq, Repr

/-- The wording of the reason. -/
def Reason.text : Reason → String
  | start => "invalid start byte"
  | continuation => "invalid continuation byte"
  | ending => "unexpected end of data"

/-- Bytes that are no text: those from `start` up to `stop`, the first of which
is `byte`. -/
structure Fault where
  byte : UInt8
  start : Nat
  stop : Nat
  reason : Reason
  deriving DecidableEq, Repr

/-- The wording of the fault. -/
def Fault.message (f : Fault) : String :=
  "'utf-8' codec can't decode " ++
    (if f.stop = f.start + 1 then
      "byte 0x" ++ String.ofList (Text.hex 2 f.byte.toNat) ++ " in position " ++ toString f.start
    else "bytes in position " ++ toString f.start ++ "-" ++ toString (f.stop - 1)) ++
    ": " ++ f.reason.text

/-- A character of which not all bytes are read. -/
structure Partial where
  /-- Its first byte and where that stands. -/
  first : UInt8
  start : Nat
  /-- The number that its bytes spell so far. -/
  value : Nat
  /-- The range of the next byte, and of those behind it. -/
  next : Nat × Nat
  more : List (Nat × Nat)
  deriving DecidableEq, Repr

/-- The range of a byte that goes on with a character. -/
def anyContinuation : Nat × Nat := (0x80, 0xBF)

/-- What a first byte starts: the number that it spells and the ranges of the
bytes to come. -/
def lead? (b : Nat) : Option (Nat × List (Nat × Nat)) :=
  if b < 0x80 then some (b, [])
  else if b < 0xC2 then none
  else if b < 0xE0 then some (b - 0xC0, [anyContinuation])
  else if b < 0xF0 then
    let second :=
      if b = 0xE0 then (0xA0, 0xBF) else if b = 0xED then (0x80, 0x9F) else anyContinuation
    some (b - 0xE0, [second, anyContinuation])
  else if b < 0xF5 then
    let second :=
      if b = 0xF0 then (0x90, 0xBF) else if b = 0xF4 then (0x80, 0x8F) else anyContinuation
    some (b - 0xF0, [second, anyContinuation, anyContinuation])
  else none

/-- Reads on at a position, behind the characters in `out`, the last of which
comes first, and inside of the character `inside`. -/
def decodeFrom (position : Nat) (out : Text) (inside : Option Partial) :
    List UInt8 → Except Fault Text
  | [] =>
    match inside with
    | none => .ok out.reverse
    | some p => .error ⟨p.first, p.start, position, .ending⟩
  | b :: bs =>
    match inside with
    | none =>
      match lead? b.toNat with
      | none => .error ⟨b, position, position + 1, .start⟩
      | some (value, []) => decodeFrom (position + 1) (Char.ofNat value :: out) none bs
      | some (value, next :: more) =>
        decodeFrom (position + 1) out (some ⟨b, position, value, next, more⟩) bs
    | some p =>
      if p.next.1 ≤ b.toNat && b.toNat ≤ p.next.2 then
        let value := p.value * 64 + (b.toNat - 0x80)
        match p.more with
        | [] => decodeFrom (position + 1) (Char.ofNat value :: out) none bs
        | next :: more => decodeFrom (position + 1) out (some { p with value, next, more }) bs
      else .error ⟨p.first, p.start, position, .continuation⟩

/-- The text that bytes spell. -/
def decode (bytes : List UInt8) : Except Fault Text :=
  decodeFrom 0 [] none bytes

end Utf8

namespace Text

/-- The text behind `out`, which runs backwards, with a line feed for every end of
line. -/
def unifyLineEndsFrom (out : Text) : Text → Text
  | [] => out.reverse
  | '\r' :: '\n' :: cs => unifyLineEndsFrom ('\n' :: out) cs
  | c :: cs => unifyLineEndsFrom ((if c = '\r' then '\n' else c) :: out) cs

/-- The text with a line feed for every carriage return, and for every pair of
the two. -/
def unifyLineEnds (t : Text) : Text :=
  unifyLineEndsFrom [] t

end Text
end DevicetreePrep
