/-
# Blank characters

The characters that trimming removes: the ASCII blanks and separators, the
next-line control and the spaces of Unicode.  A blank of the source language
itself is narrower, see `isSpace`.
-/

import DevicetreePrep.Text.Ranges

namespace DevicetreePrep

/-- The blank characters. -/
def blankRanges : List (Nat × Nat) := [
    (0x0009, 0x000D), (0x001C, 0x0020), (0x0085, 0x0085), (0x00A0, 0x00A0), (0x1680, 0x1680),
    (0x2000, 0x200A), (0x2028, 0x2029), (0x202F, 0x202F), (0x205F, 0x205F), (0x3000, 0x3000)]

/-- A character that trimming removes. -/
def isBlank (c : Char) : Bool :=
  inRanges c.toNat blankRanges

/-- White space between tokens: space, tab, vertical tab, form feed and the two
line ends. -/
def isSpace (c : Char) : Bool :=
  c = ' ' || (0x09 ≤ c.toNat && c.toNat ≤ 0x0D)

/-- White space between tokens is blank. -/
theorem isBlank_of_isSpace {c : Char} (h : isSpace c = true) : isBlank c = true := by
  simp only [isSpace, Bool.or_eq_true, Bool.and_eq_true, decide_eq_true_eq] at h
  rcases h with rfl | ⟨h₁, h₂⟩
  · decide
  · simp [isBlank, blankRanges, inRanges, h₁, h₂]

end DevicetreePrep
