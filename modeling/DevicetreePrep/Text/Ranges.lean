/-
# Sets of code points

A property of characters beyond ASCII is a table of ranges of code points, in
rising order.  `inRanges` looks a code point up and stops at the first range
that starts above it, so an ASCII character costs one comparison.
-/

namespace DevicetreePrep

/-- Whether `n` lies in one of the ranges, both ends included.  The ranges are
in rising order: below the first one there is nothing to find. -/
def inRanges (n : Nat) : List (Nat × Nat) → Bool
  | [] => false
  | (lo, hi) :: rs => lo ≤ n && (n ≤ hi || inRanges n rs)

/-- Whatever lies below the first range lies in none. -/
theorem inRanges_of_lt {n lo hi : Nat} {rs : List (Nat × Nat)} (h : n < lo) :
    inRanges n ((lo, hi) :: rs) = false := by
  simp [inRanges, Nat.not_le.2 h]

end DevicetreePrep
