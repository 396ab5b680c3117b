/-
# Values of expressions

The value of an expression is a truth value, an integer without bounds, or a
double.  In arithmetic a truth value counts as 0 or 1, and where an integer
meets a double it is turned into one.  Comparisons are exact.
-/

import DevicetreePrep.Expression.Double

namespace DevicetreePrep

/-- The value of an expression. -/
inductive Value
  | bool (b : Bool)
  | int (i : Int)
  | float (x : Float)

/-- A value in arithmetic. -/
inductive Number
  | int (i : Int)
  | float (x : Float)

namespace Value

/-- Whether a value counts as true.  What is not a number is not zero. -/
def truth : Value → Bool
  | bool b => b
  | int i => i ≠ 0
  | float x => x != 0

/-- The value as a number. -/
def number : Value → Number
  | bool b => .int b.toInt
  | int i => .int i
  | float x => .float x

end Value

namespace Number

/-- The number as a value. -/
def value : Number → Value
  | int i => .int i
  | float x => .float x

/-- The number as a double, if it is not too large. -/
def toFloat? : Number → Option Float
  | int i => Double.ofInt? i
  | float x => some x

/-- How two numbers compare, unless one of them is not a number. -/
def compare? : Number → Number → Option Ordering
  | int i, int j => some (compare i j)
  | int i, float y => Double.compareInt? i y
  | float x, int j => (Double.compareInt? j x).map Ordering.swap
  | float x, float y =>
    if x < y then some .lt else if x == y then some .eq else if y < x then some .gt else none

/-- Whether the number is zero, of either sign. -/
def isZero : Number → Bool
  | int i => i = 0
  | float x => x == 0

end Number

/-! Bitwise operations on integers, which are read in two's complement with as
many places as needed. -/

namespace Bits

/-- The bits of `m` that are not set in `n`. -/
def without (m n : Nat) : Nat :=
  m ^^^ (m &&& n)

/-- The bits set in both. -/
def both : Int → Int → Int
  | .ofNat m, .ofNat n => .ofNat (m &&& n)
  | .ofNat m, .negSucc n => .ofNat (without m n)
  | .negSucc m, .ofNat n => .ofNat (without n m)
  | .negSucc m, .negSucc n => .negSucc (m ||| n)

/-- The bits set in either. -/
def either : Int → Int → Int
  | .ofNat m, .ofNat n => .ofNat (m ||| n)
  | .ofNat m, .negSucc n => .negSucc (without n m)
  | .negSucc m, .ofNat n => .negSucc (without m n)
  | .negSucc m, .negSucc n => .negSucc (m &&& n)

/-- The bits set in exactly one. -/
def oneOf : Int → Int → Int
  | .ofNat m, .ofNat n => .ofNat (m ^^^ n)
  | .ofNat m, .negSucc n => .negSucc (m ^^^ n)
  | .negSucc m, .ofNat n => .negSucc (m ^^^ n)
  | .negSucc m, .negSucc n => .ofNat (m ^^^ n)

end Bits
end DevicetreePrep
