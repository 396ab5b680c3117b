/-
# Printable characters

A character is printable unless it is a control or format character, a
separator other than the space, or unassigned (Unicode 14).  Letters, numeric
characters and marks are printable; the table adds punctuation and symbols.
-/

import DevicetreePrep.Text.Identifier
import DevicetreePrep.Text.Numeric

namespace DevicetreePrep

/-- Punctuation and symbols beyond ASCII.  A range may run over letters and
marks that stand between two symbols. -/
def symbolRanges : List (Nat × Nat) := [
    (0x00A1, 0x00AC), (0x00AE, 0x0375), (0x037E, 0x037E), (0x0384, 0x0385), (0x03F6, 0x0489),
    (0x055A, 0x058A), (0x058D, 0x058F), (0x05BE, 0x05C6), (0x05F3, 0x05F4), (0x0606, 0x061B),
    (0x061D, 0x06D4), (0x06DE, 0x070D), (0x07F6, 0x07F9), (0x07FE, 0x07FF), (0x0830, 0x083E),
    (0x085E, 0x085E), (0x0888, 0x0888), (0x0964, 0x0970), (0x09F2, 0x09FD), (0x0A76, 0x0A76),
    (0x0AF0, 0x0AF1), (0x0B70, 0x0B70), (0x0BF3, 0x0BFA), (0x0C77, 0x0C84), (0x0D4F, 0x0D4F),
    (0x0D79, 0x0D79), (0x0DF4, 0x0DF4), (0x0E3F, 0x0E5B), (0x0F01, 0x0F3D), (0x0F85, 0x0F85),
    (0x0FBE, 0x0FCC), (0x0FCE, 0x0FDA), (0x104A, 0x109F), (0x10FB, 0x10FB), (0x1360, 0x1368),
    (0x1390, 0x1399), (0x1400, 0x166E), (0x169B, 0x169C), (0x16EB, 0x16ED), (0x1735, 0x1736),
    (0x17D4, 0x17DB), (0x1800, 0x180A), (0x1940, 0x1940), (0x1944, 0x1945), (0x19DE, 0x19FF),
    (0x1A1E, 0x1A1F), (0x1AA0, 0x1AAD), (0x1ABE, 0x1ABE), (0x1B5A, 0x1B7E), (0x1BFC, 0x1BFF),
    (0x1C3B, 0x1C3F), (0x1C7E, 0x1C7F), (0x1CC0, 0x1CC7), (0x1CD3, 0x1CD3), (0x1FBD, 0x1FC1),
    (0x1FCD, 0x1FCF), (0x1FDD, 0x1FEF), (0x1FFD, 0x1FFE), (0x2010, 0x2027), (0x2030, 0x205E),
    (0x207A, 0x208E), (0x20A0, 0x20C0), (0x20DD, 0x20E4), (0x2100, 0x218B), (0x2190, 0x2426),
    (0x2440, 0x244A), (0x249C, 0x2B73), (0x2B76, 0x2B95), (0x2B97, 0x2CEA), (0x2CF9, 0x2CFF),
    (0x2D70, 0x2D70), (0x2E00, 0x2E5D), (0x2E80, 0x2E99), (0x2E9B, 0x2EF3), (0x2F00, 0x2FD5),
    (0x2FF0, 0x2FFB), (0x3001, 0x303F), (0x309B, 0x30FB), (0x3190, 0x31E3), (0x3200, 0x321E),
    (0x322A, 0x4DFF), (0xA490, 0xA4C6), (0xA4FE, 0xA60F), (0xA670, 0xA6F7), (0xA700, 0xA78A),
    (0xA828, 0xA82B), (0xA836, 0xA839), (0xA874, 0xA877), (0xA8CE, 0xA8CF), (0xA8F8, 0xA92F),
    (0xA95F, 0xA95F), (0xA9C1, 0xA9CD), (0xA9DE, 0xA9DF), (0xAA5C, 0xAA79), (0xAADE, 0xAAF1),
    (0xAB5B, 0xAB6B), (0xABEB, 0xABEB), (0xFB29, 0xFB29), (0xFBB2, 0xFBC2), (0xFD3E, 0xFD4F),
    (0xFDCF, 0xFDCF), (0xFDFC, 0xFE19), (0xFE30, 0xFE52), (0xFE54, 0xFE66), (0xFE68, 0xFE6B),
    (0xFF01, 0xFF65), (0xFFE0, 0xFFE6), (0xFFE8, 0xFFEE), (0xFFFC, 0xFFFD), (0x10100, 0x10102),
    (0x10137, 0x1018E), (0x10190, 0x1019C), (0x101A0, 0x101A0), (0x101D0, 0x101FC),
    (0x1039F, 0x1039F), (0x103D0, 0x103D0), (0x1056F, 0x1056F), (0x10857, 0x10878),
    (0x1091F, 0x1091F), (0x1093F, 0x1093F), (0x10A50, 0x10A58), (0x10A7F, 0x10A7F),
    (0x10AC8, 0x10AC8), (0x10AF0, 0x10AF6), (0x10B39, 0x10B3F), (0x10B99, 0x10B9C),
    (0x10EAD, 0x10EAD), (0x10F55, 0x10F59), (0x10F86, 0x10F89), (0x11047, 0x1104D),
    (0x110BB, 0x110BC), (0x110BE, 0x110C1), (0x11140, 0x11143), (0x11174, 0x11175),
    (0x111C5, 0x111DF), (0x11238, 0x1123D), (0x112A9, 0x112A9), (0x1144B, 0x1145B),
    (0x1145D, 0x1145D), (0x114C6, 0x114C6), (0x115C1, 0x115D7), (0x11641, 0x11643),
    (0x11660, 0x1166C), (0x116B9, 0x116B9), (0x1173C, 0x1173F), (0x1183B, 0x1183B),
    (0x11944, 0x11946), (0x119E2, 0x119E2), (0x11A3F, 0x11A46), (0x11A9A, 0x11AA2),
    (0x11C41, 0x11C45), (0x11C70, 0x11C71), (0x11EF7, 0x11EF8), (0x11FD5, 0x11FF1),
    (0x11FFF, 0x11FFF), (0x12470, 0x12474), (0x12FF1, 0x12FF2), (0x16A6E, 0x16A6F),
    (0x16AF5, 0x16AF5), (0x16B37, 0x16B45), (0x16E97, 0x16E9A), (0x16FE2, 0x16FE2),
    (0x1BC9C, 0x1BC9F), (0x1CF50, 0x1CFC3), (0x1D000, 0x1D0F5), (0x1D100, 0x1D126),
    (0x1D129, 0x1D16C), (0x1D183, 0x1D1EA), (0x1D200, 0x1D245), (0x1D300, 0x1D356),
    (0x1D6C1, 0x1D7C3), (0x1D800, 0x1DA8B), (0x1E14F, 0x1E14F), (0x1E2FF, 0x1E2FF),
    (0x1E95E, 0x1E95F), (0x1ECAC, 0x1ECB0), (0x1ED2E, 0x1ED2E), (0x1EEF0, 0x1EEF1),
    (0x1F000, 0x1F02B), (0x1F030, 0x1F093), (0x1F0A0, 0x1F0AE), (0x1F0B1, 0x1F0BF),
    (0x1F0C1, 0x1F0CF), (0x1F0D1, 0x1F0F5), (0x1F10D, 0x1F1AD), (0x1F1E6, 0x1F202),
    (0x1F210, 0x1F23B), (0x1F240, 0x1F248), (0x1F250, 0x1F251), (0x1F260, 0x1F265),
    (0x1F300, 0x1F6D7), (0x1F6DD, 0x1F6EC), (0x1F6F0, 0x1F6FC), (0x1F700, 0x1F773),
    (0x1F780, 0x1F7D8), (0x1F7E0, 0x1F7EB), (0x1F7F0, 0x1F7F0), (0x1F800, 0x1F80B),
    (0x1F810, 0x1F847), (0x1F850, 0x1F859), (0x1F860, 0x1F887), (0x1F890, 0x1F8AD),
    (0x1F8B0, 0x1F8B1), (0x1F900, 0x1FA53), (0x1FA60, 0x1FA6D), (0x1FA70, 0x1FA74),
    (0x1FA78, 0x1FA7C), (0x1FA80, 0x1FA86), (0x1FA90, 0x1FAAC), (0x1FAB0, 0x1FABA),
    (0x1FAC0, 0x1FAC5), (0x1FAD0, 0x1FAD9), (0x1FAE0, 0x1FAE7), (0x1FAF0, 0x1FAF6),
    (0x1FB00, 0x1FB92), (0x1FB94, 0x1FBCA)]

/-- Whether a character has a visible form, or is the space. -/
def isPrintable (c : Char) : Bool :=
  if c.toNat < 0x80 then 0x20 ≤ c.toNat && c.toNat < 0x7F
  else isAlphanumeric c || isIdentifierPart c || inRanges c.toNat symbolRanges

end DevicetreePrep
