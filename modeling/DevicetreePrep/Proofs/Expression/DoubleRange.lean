/-
# Integers beyond the doubles

The double nearest to an integer is infinity from a certain integer on: the one halfway
between the largest double and `2^1024`, where a half is rounded up (`Double.intLimit`).
From there on an integer is no double (`Double.ofInt?_eq_none_iff`).

An integer with `k` binary places below its first one has the exponent `k - 52`, and a
quotient of 53 places.  So infinity is reached for every `k` above 1023, and never for one
below; for 1023 the quotient decides, which has to be rounded to one place more
(`Double.le_roundDiv_iff`).
-/

import Mathlib.Order.MinMax
import DevicetreePrep.Expression.Double

namespace DevicetreePrep
namespace Double

/-- From here on an integer is too large for a double: halfway between the largest double
and `2^1024`. -/
def intLimit : Nat :=
  pow2 1024 - pow2 970

/-- Powers of two are multiplied by adding their exponents. -/
theorem pow2_add (m n : Nat) : pow2 (m + n) = pow2 m * pow2 n :=
  Nat.pow_add 2 m n

theorem pow2_succ (n : Nat) : pow2 (n + 1) = 2 * pow2 n :=
  Nat.pow_succ'

theorem pow2_pos (n : Nat) : 0 < pow2 n :=
  Nat.two_pow_pos n

theorem pow2_le {m n : Nat} (h : m ≤ n) : pow2 m ≤ pow2 n :=
  Nat.pow_le_pow_right (by decide) h

/-- A quotient is rounded to one of its two neighbours. -/
theorem roundDiv_bounds (num den : Nat) :
    num / den ≤ roundDiv num den ∧ roundDiv num den ≤ num / den + 1 := by
  unfold roundDiv
  dsimp only
  split <;> omega

/-- **A quotient reaches an even number by rounding** exactly if it is at most a half
below it. -/
theorem le_roundDiv_iff {m num den : Nat} (heven : m % 2 = 0) (hm : 0 < m) (hden : 0 < den) :
    m ≤ roundDiv num den ↔ (2 * m - 1) * den ≤ 2 * num := by
  have hdiv := Nat.div_add_mod num den
  have hmod := Nat.mod_lt num hden
  obtain ⟨hlow, hhigh⟩ := roundDiv_bounds num den
  rcases Nat.lt_trichotomy (num / den + 1) m with hlt | heq | hgt
  · have hmul : den * (num / den + 2) ≤ den * m := Nat.mul_le_mul_left den hlt
    have hleft : (2 * m - 1) * den = 2 * (den * m) - den := by
      rw [Nat.sub_mul, Nat.one_mul, Nat.mul_assoc, Nat.mul_comm m]
    rw [Nat.mul_add] at hmul
    omega
  · have hleft : (2 * m - 1) * den = 2 * (den * (num / den)) + den := by
      have h : 2 * m - 1 = 2 * (num / den) + 1 := by omega
      rw [h, Nat.add_mul, Nat.one_mul, Nat.mul_assoc, Nat.mul_comm (num / den)]
    have hodd : num / den % 2 = 1 := by omega
    rw [hleft, roundDiv]
    simp only [hodd, Bool.or_eq_true, decide_eq_true_eq, decide_true, Bool.and_true]
    split <;> omega
  · have hmul : den * m ≤ den * (num / den) := Nat.mul_le_mul_left den (by omega)
    have hleft : (2 * m - 1) * den = 2 * (den * m) - den := by
      rw [Nat.sub_mul, Nat.one_mul, Nat.mul_assoc, Nat.mul_comm m]
    omega

variable {n : Nat}

/-- The exponent of the doubles near an integer leaves a quotient of 53 places. -/
theorem exponentFor_one (h : n ≠ 0) : exponentFor n 1 = (n.log2 : Int) - 52 := by
  have hlog : pow2 n.log2 ≤ n := Nat.log2_self_le h
  have hone : Nat.log2 1 = 0 := by decide
  have hreached : (scale n 1 ((n.log2 : Int) - 53)).2 * pow2 53 ≤
      (scale n 1 ((n.log2 : Int) - 53)).1 := by
    unfold scale
    split
    · have hpow : pow2 ((n.log2 : Int) - 53).toNat * pow2 53 = pow2 n.log2 := by
        rw [← pow2_add]
        congr 1
        omega
      rwa [Nat.one_mul, hpow]
    · have hpow : pow2 n.log2 * pow2 (-((n.log2 : Int) - 53)).toNat = pow2 53 := by
        rw [← pow2_add]
        congr 1
        omega
      rw [Nat.one_mul, ← hpow]
      exact Nat.mul_le_mul_right _ hlog
  rw [exponentFor, hone]
  simp only [Int.natCast_zero, Int.sub_zero, if_pos hreached, minExponent]
  omega

/-- The bits of the double nearest to an integer. -/
theorem nearestBits_one (h : n ≠ 0) {num den : Nat}
    (hscale : scale n 1 ((n.log2 : Int) - 52) = (num, den)) :
    nearestBits n 1 = min infinityBits (roundDiv num den + (n.log2 + 1022) * pow2 52) := by
  have hexponent : ((n.log2 : Int) - 52 - minExponent).toNat = n.log2 + 1022 := by
    rw [minExponent]
    omega
  rw [nearestBits, if_neg h, exponentFor_one h]
  dsimp only
  rw [hscale, hexponent]

/-- The quotient has 53 places at most. -/
theorem roundDiv_scale_le {num den : Nat}
    (hscale : scale n 1 ((n.log2 : Int) - 52) = (num, den)) : roundDiv num den ≤ pow2 53 := by
  have hlog : n < pow2 (n.log2 + 1) := Nat.lt_log2_self
  refine Nat.le_trans (roundDiv_bounds _ _).2 (Nat.succ_le_of_lt ?_)
  unfold scale at hscale
  split at hscale
  · obtain ⟨rfl, rfl⟩ := Prod.mk.inj hscale
    rw [Nat.one_mul, Nat.div_lt_iff_lt_mul (pow2_pos _), ← pow2_add]
    exact Nat.lt_of_lt_of_le hlog (pow2_le (by omega))
  · obtain ⟨rfl, rfl⟩ := Prod.mk.inj hscale
    rw [Nat.div_one]
    calc n * pow2 (-((n.log2 : Int) - 52)).toNat
      _ < pow2 (n.log2 + 1) * pow2 (-((n.log2 : Int) - 52)).toNat :=
        Nat.mul_lt_mul_of_pos_right hlog (pow2_pos _)
      _ ≤ pow2 53 := by
        rw [← pow2_add]
        exact pow2_le (by omega)

/-- The limit lies between two powers of two. -/
theorem intLimit_bounds : pow2 1023 ≤ intLimit ∧ intLimit ≤ pow2 1024 := by
  have hbelow : pow2 970 ≤ pow2 1023 := pow2_le (by decide)
  rw [intLimit, pow2_succ 1023]
  omega

/-- Twice the limit, as a multiple of the distance of the largest doubles. -/
theorem two_mul_intLimit : (2 * pow2 53 - 1) * pow2 971 = 2 * intLimit := by
  have hsplit : pow2 1024 = pow2 54 * pow2 970 := pow2_add 54 970
  rw [intLimit, hsplit, ← pow2_succ 53, pow2_succ 970, Nat.sub_mul, Nat.one_mul, Nat.mul_sub,
    Nat.mul_left_comm]

/-- The double nearest to an integer is infinity from `intLimit` on. -/
theorem nearestBits_one_eq_infinityBits_iff (n : Nat) :
    nearestBits n 1 = infinityBits ↔ intLimit ≤ n := by
  have hinfinity : infinityBits = 2047 * pow2 52 := rfl
  have hlimit := intLimit_bounds
  have hpos := pow2_pos 1023
  by_cases h : n = 0
  · subst h
    exact iff_of_false (by decide) (by omega)
  have hlow : pow2 n.log2 ≤ n := Nat.log2_self_le h
  have hhigh : n < pow2 (n.log2 + 1) := Nat.lt_log2_self
  obtain ⟨⟨num, den⟩, hscale⟩ : ∃ p, scale n 1 ((n.log2 : Int) - 52) = p := ⟨_, rfl⟩
  have hround := roundDiv_scale_le hscale
  rw [pow2_succ 52] at hround
  rw [nearestBits_one h hscale, hinfinity, min_eq_left_iff]
  -- below and above the largest exponent of a double the quotient does not matter
  rcases Nat.lt_trichotomy n.log2 1023 with hlt | heq | hgt
  · have hmul : (n.log2 + 1022) * pow2 52 ≤ 2044 * pow2 52 := Nat.mul_le_mul_right _ (by omega)
    have hpow : pow2 (n.log2 + 1) ≤ pow2 1023 := pow2_le hlt
    have hpos := pow2_pos 52
    exact iff_of_false (by omega) (by omega)
  · have hexponent : ((n.log2 : Int) - 52).toNat = 971 := by omega
    rw [scale, if_pos (by omega), hexponent, Nat.one_mul] at hscale
    obtain ⟨rfl, rfl⟩ := Prod.mk.inj hscale
    have hreaches : pow2 53 ≤ roundDiv n (pow2 971) ↔ (2 * pow2 53 - 1) * pow2 971 ≤ 2 * n :=
      le_roundDiv_iff (by decide) (pow2_pos 53) (pow2_pos 971)
    rw [two_mul_intLimit, pow2_succ 52] at hreaches
    rw [heq]
    omega
  · have hmul : 2046 * pow2 52 ≤ (n.log2 + 1022) * pow2 52 := Nat.mul_le_mul_right _ (by omega)
    have hpow : pow2 1024 ≤ pow2 n.log2 := pow2_le hgt
    have hquotient : pow2 52 ≤ num / den := by
      rw [scale, if_pos (by omega)] at hscale
      obtain ⟨rfl, rfl⟩ := Prod.mk.inj hscale
      rw [Nat.one_mul, Nat.le_div_iff_mul_le (pow2_pos _), ← pow2_add]
      exact Nat.le_trans (pow2_le (by omega)) hlow
    have := (roundDiv_bounds num den).1
    exact iff_of_true (by omega) (by omega)

/-- **The integers that are no doubles** are those from `intLimit` on, of either sign. -/
theorem ofInt?_eq_none_iff (i : Int) : ofInt? i = none ↔ intLimit ≤ i.natAbs := by
  rw [← nearestBits_one_eq_infinityBits_iff]
  unfold ofInt?
  dsimp only
  split <;> simp_all

end Double
end DevicetreePrep
