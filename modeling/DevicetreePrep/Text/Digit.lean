/-
# Digits

Every script writes its ten decimal digits as a block of consecutive code
points that starts at its zero, so the decimal digits are given by their zeros.
A digit is a decimal digit, or a digit set above the line, in a circle or in
brackets, which has a value and no place in a numeral (Unicode 14).
-/

import DevicetreePrep.Text.Ranges

namespace DevicetreePrep

/-- The zeros of the scripts beyond ASCII. -/
def zeroDigits : List Nat := [
    0x0660, 0x06F0, 0x07C0, 0x0966, 0x09E6, 0x0A66, 0x0AE6, 0x0B66, 0x0BE6, 0x0C66, 0x0CE6, 0x0D66,
    0x0DE6, 0x0E50, 0x0ED0, 0x0F20, 0x1040, 0x1090, 0x17E0, 0x1810, 0x1946, 0x19D0, 0x1A80, 0x1A90,
    0x1B50, 0x1BB0, 0x1C40, 0x1C50, 0xA620, 0xA8D0, 0xA900, 0xA9D0, 0xA9F0, 0xAA50, 0xABF0, 0xFF10,
    0x104A0, 0x10D30, 0x11066, 0x110F0, 0x11136, 0x111D0, 0x112F0, 0x11450, 0x114D0, 0x11650,
    0x116C0, 0x11730, 0x118E0, 0x11950, 0x11C50, 0x11D50, 0x11DA0, 0x16A60, 0x16AC0, 0x16B50,
    0x1D7CE, 0x1D7D8, 0x1D7E2, 0x1D7EC, 0x1D7F6, 0x1E140, 0x1E2F0, 0x1E950, 0x1FBF0]

/-- The digits that are not part of a positional system. -/
def soloDigitRanges : List (Nat × Nat) := [
    (0x00B2, 0x00B3), (0x00B9, 0x00B9), (0x1369, 0x1371), (0x19DA, 0x19DA), (0x2070, 0x2070),
    (0x2074, 0x2079), (0x2080, 0x2089), (0x2460, 0x2468), (0x2474, 0x247C), (0x2488, 0x2490),
    (0x24EA, 0x24EA), (0x24F5, 0x24FD), (0x24FF, 0x24FF), (0x2776, 0x277E), (0x2780, 0x2788),
    (0x278A, 0x2792), (0x10A40, 0x10A43), (0x10E60, 0x10E68), (0x11052, 0x1105A),
    (0x1F100, 0x1F10A)]

/-- The value of a decimal digit of any script. -/
def decimalValue? (c : Char) : Option Nat :=
  if c.isDigit then some (c.toNat - '0'.toNat)
  else (zeroDigits.find? fun z => z ≤ c.toNat && c.toNat < z + 10).map (c.toNat - ·)

/-- A decimal digit of any script. -/
def isDecimal (c : Char) : Bool :=
  c.isDigit || zeroDigits.any fun z => z ≤ c.toNat && c.toNat < z + 10

/-- A decimal digit, or a digit that stands by itself such as `²`. -/
def isDigit (c : Char) : Bool :=
  c.isDigit || inRanges c.toNat soloDigitRanges || isDecimal c

/-- The ASCII digits are digits. -/
theorem isDigit_of_ascii {c : Char} (h : c.isDigit = true) : isDigit c = true := by
  simp [isDigit, h]

/-- The decimal digits are the characters that have a decimal value. -/
theorem decimalValue?_isSome (c : Char) : (decimalValue? c).isSome = isDecimal c := by
  by_cases h : c.isDigit
  · simp [decimalValue?, isDecimal, h]
  · rw [Bool.eq_iff_iff]
    simp [decimalValue?, isDecimal, h, List.find?_isSome]

end DevicetreePrep
