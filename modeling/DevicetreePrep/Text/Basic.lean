/-
# Texts

Source text is a list of characters, so that every offset, width and column
counts characters.  Here are trimming, the name at the front of a text, and
cutting at a character.
-/

import DevicetreePrep.Text.Blank
import DevicetreePrep.Text.Numeric

namespace DevicetreePrep

/-- A stretch of source text. -/
abbrev Text := List Char

namespace Text

/-- The text without the blanks at its front. -/
def trimLeft (t : Text) : Text :=
  t.dropWhile isBlank

/-- The text without the blanks at its end. -/
def trimRight (t : Text) : Text :=
  (t.reverse.dropWhile isBlank).reverse

/-- The text without the blanks at either end. -/
def trim (t : Text) : Text :=
  trimRight (trimLeft t)

/-- Whether nothing but blanks stands in the text. -/
def isAllBlank (t : Text) : Bool :=
  t.all isBlank

/-- The name at the front of a text, and what follows it. -/
def name? : Text → Option (Text × Text)
  | [] => none
  | c :: cs =>
    if isNameStart c then some (c :: cs.takeWhile isWordChar, cs.dropWhile isWordChar) else none

/-- Whether the whole text is one name. -/
def isName : Text → Bool
  | [] => false
  | c :: cs => isNameStart c && cs.all isWordChar

/-- What stands before the first `c`, and what follows that `c` if there is
one. -/
def cut (c : Char) : Text → Text × Option Text
  | [] => ([], none)
  | d :: ds => if d = c then ([], some ds) else ((cut c ds).map (d :: ·) id)

/-- The pieces of a text between the occurrences of `c`; at least one. -/
def split (c : Char) : Text → List Text
  | [] => [[]]
  | d :: ds =>
    if d = c then [] :: split c ds
    else match split c ds with
      | [] => [[d]]
      | p :: ps => (d :: p) :: ps

/-- The texts in a row, with `sep` between any two of them. -/
def joinWith (sep : Text) : List Text → Text
  | [] => []
  | [t] => t
  | t :: ts => t ++ sep ++ joinWith sep ts

/-- Whether a text does not come behind another one in the order of code points. -/
def atMost : Text → Text → Bool
  | [], _ => true
  | _ :: _, [] => false
  | c :: cs, d :: ds => c.toNat < d.toNat || (c = d && atMost cs ds)

/-- A number in hexadecimal, with so many places at least. -/
def hex (places : Nat) (n : Nat) : Text :=
  let digits := Nat.toDigits 16 n
  List.replicate (places - digits.length) '0' ++ digits

/-- A name and what follows it make up the text. -/
theorem name?_append {t name rest : Text} (h : name? t = some (name, rest)) :
    name ++ rest = t := by
  cases t with
  | nil => simp [name?] at h
  | cons c cs =>
    by_cases hc : isNameStart c <;> simp [name?, hc] at h
    obtain ⟨rfl, rfl⟩ := h
    simp

end Text
end DevicetreePrep
