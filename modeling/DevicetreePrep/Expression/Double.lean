/-
# Doubles and fractions

A finite double is `m · 2^e` for integers `m` and `e`.  Here is the double that
is nearest to a given fraction, of two that are equally near the one with an
even `m`, worked out in whole numbers; and the way back.
-/

namespace DevicetreePrep
namespace Double

/-- A power of two. -/
def pow2 (n : Nat) : Nat :=
  Nat.pow 2 n

/-- The least exponent of a double. -/
def minExponent : Int := -1074

/-- The bits of positive infinity. -/
def infinityBits : Nat := 0x7FF * pow2 52

/-- The fraction divided by `2^e`. -/
def scale (num den : Nat) (e : Int) : Nat × Nat :=
  if 0 ≤ e then (num, den * pow2 e.toNat) else (num * pow2 (-e).toNat, den)

/-- A quotient to the nearest whole number; a half goes to the even one. -/
def roundDiv (num den : Nat) : Nat :=
  let q := num / den
  let r := num % den
  if den < 2 * r || (2 * r = den && q % 2 = 1) then q + 1 else q

/-- The exponent of the doubles near a positive fraction: the one that leaves a
quotient of 53 places, or the least exponent there is. -/
def exponentFor (num den : Nat) : Int :=
  let e : Int := (num.log2 : Int) - den.log2 - 53
  let (n, d) := scale num den e
  max minExponent (if d * pow2 53 ≤ n then e + 1 else e)

/-- The bits of the double nearest to a fraction.  The highest place of the
quotient adds one to the exponent field, also where rounding carries into it. -/
def nearestBits (num den : Nat) : Nat :=
  if num = 0 then 0
  else
    let e := exponentFor num den
    let (n, d) := scale num den e
    min infinityBits (roundDiv n d + (e - minExponent).toNat * pow2 52)

/-- The double nearest to a fraction, infinity if it is too large. -/
def nearest (num den : Nat) : Float :=
  Float.ofBits (UInt64.ofNat (nearestBits num den))

/-- The double nearest to an integer, if it is not too large. -/
def ofInt? (i : Int) : Option Float :=
  let bits := nearestBits i.natAbs 1
  if bits = infinityBits then none
  else some (Float.ofBits (UInt64.ofNat (if i < 0 then bits + pow2 63 else bits)))

/-- The double nearest to `digits · 10^exponent`, where `digits` has so many
places.  Far out of range the power is not worked out. -/
def ofDecimal (digits places : Nat) (exponent : Int) : Float :=
  if digits = 0 then nearest 0 1
  else if 310 < places + exponent then nearest (pow2 1024) 1
  else if places + exponent < -330 then nearest 0 1
  else if 0 ≤ exponent then nearest (digits * Nat.pow 10 exponent.toNat) 1
  else nearest digits (Nat.pow 10 (-exponent).toNat)

/-- A double as an integer and an exponent of two, if it is finite. -/
def scaled? (x : Float) : Option (Int × Int) :=
  let bits := x.toBits.toNat
  let field : Nat := bits / pow2 52 % 2048
  let low : Nat := bits % pow2 52
  let sign : Int := if bits < pow2 63 then 1 else -1
  if field = 2047 then none
  else if field = 0 then some (sign * low, minExponent)
  else some (sign * ((pow2 52 + low : Nat) : Int), (field : Int) + minExponent - 1)

/-- How an integer compares with a double, unless that is not a number. -/
def compareInt? (i : Int) (x : Float) : Option Ordering :=
  match scaled? x with
  | some (m, e) =>
    if 0 ≤ e then some (compare i (m * pow2 e.toNat)) else some (compare (i * pow2 (-e).toNat) m)
  | none => if x.isNaN then none else if 0 < x then some .lt else some .gt

end Double
end DevicetreePrep
