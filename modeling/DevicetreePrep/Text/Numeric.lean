/-
# Word characters

A word is made of letters, of numeric characters and of the underscore.  A
numeric character is a decimal digit or any other character with a numeric
value: fractions, Roman numerals, circled numbers (Unicode 14).
-/

import DevicetreePrep.Text.Digit
import DevicetreePrep.Text.Letter

namespace DevicetreePrep

/-- The characters with a numeric value that are neither letters nor decimal
digits. -/
def valueRanges : List (Nat × Nat) := [
    (0x00B2, 0x00B3), (0x00B9, 0x00B9), (0x00BC, 0x00BE), (0x09F4, 0x09F9), (0x0B72, 0x0B77),
    (0x0BF0, 0x0BF2), (0x0C78, 0x0C7E), (0x0D58, 0x0D5E), (0x0D70, 0x0D78), (0x0F2A, 0x0F33),
    (0x1369, 0x137C), (0x16EE, 0x16F0), (0x17F0, 0x17F9), (0x19DA, 0x19DA), (0x2070, 0x2070),
    (0x2074, 0x2079), (0x2080, 0x2089), (0x2150, 0x2182), (0x2185, 0x2189), (0x2460, 0x249B),
    (0x24EA, 0x24FF), (0x2776, 0x2793), (0x2CFD, 0x2CFD), (0x3007, 0x3007), (0x3021, 0x3029),
    (0x3038, 0x303A), (0x3192, 0x3195), (0x3220, 0x3229), (0x3248, 0x324F), (0x3251, 0x325F),
    (0x3280, 0x3289), (0x32B1, 0x32BF), (0xA6E6, 0xA6EF), (0xA830, 0xA835), (0x10107, 0x10133),
    (0x10140, 0x10178), (0x1018A, 0x1018B), (0x102E1, 0x102FB), (0x10320, 0x10323),
    (0x10341, 0x10341), (0x1034A, 0x1034A), (0x103D1, 0x103D5), (0x10858, 0x1085F),
    (0x10879, 0x1087F), (0x108A7, 0x108AF), (0x108FB, 0x108FF), (0x10916, 0x1091B),
    (0x109BC, 0x109BD), (0x109C0, 0x109CF), (0x109D2, 0x109FF), (0x10A40, 0x10A48),
    (0x10A7D, 0x10A7E), (0x10A9D, 0x10A9F), (0x10AEB, 0x10AEF), (0x10B58, 0x10B5F),
    (0x10B78, 0x10B7F), (0x10BA9, 0x10BAF), (0x10CFA, 0x10CFF), (0x10E60, 0x10E7E),
    (0x10F1D, 0x10F26), (0x10F51, 0x10F54), (0x10FC5, 0x10FCB), (0x11052, 0x11065),
    (0x111E1, 0x111F4), (0x1173A, 0x1173B), (0x118EA, 0x118F2), (0x11C5A, 0x11C6C),
    (0x11FC0, 0x11FD4), (0x12400, 0x1246E), (0x16B5B, 0x16B61), (0x16E80, 0x16E96),
    (0x1D2E0, 0x1D2F3), (0x1D360, 0x1D378), (0x1E8C7, 0x1E8CF), (0x1EC71, 0x1ECAB),
    (0x1ECAD, 0x1ECAF), (0x1ECB1, 0x1ECB4), (0x1ED01, 0x1ED2D), (0x1ED2F, 0x1ED3D),
    (0x1F100, 0x1F10C)]

/-- A character with a numeric value that is not a letter. -/
def isNumeric (c : Char) : Bool :=
  isDecimal c || inRanges c.toNat valueRanges

/-- A letter or a numeric character. -/
def isAlphanumeric (c : Char) : Bool :=
  isLetter c || isNumeric c

/-- What may follow the first character of a name. -/
def isWordChar (c : Char) : Bool :=
  c = '_' || isAlphanumeric c

/-- What may start the name of a definition: an ASCII letter or an underscore. -/
def isNameStart (c : Char) : Bool :=
  c = '_' || c.isAlpha

/-- A name may go on with whatever may start it. -/
theorem isWordChar_of_isNameStart {c : Char} (h : isNameStart c = true) :
    isWordChar c = true := by
  simp only [isNameStart, Bool.or_eq_true, decide_eq_true_eq] at h
  rcases h with h | h
  · simp [isWordChar, h]
  · simp [isWordChar, isAlphanumeric, isLetter_of_isAlpha h]

end DevicetreePrep
