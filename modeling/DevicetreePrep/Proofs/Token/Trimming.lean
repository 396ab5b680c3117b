/-
# Trimming

Trimming a list takes members off either end of it while they pass a test.  What is left
stands between two stretches that pass (`exists_trimWhere`), and it neither starts nor ends
with a member that passes (`isTrimmed_trimWhere`).  There is only one such list
(`trimWhere_eq`), so nothing else has to be known about how trimming is done.
-/

import DevicetreePrep.Token
import Mathlib.Data.List.DropRight

namespace DevicetreePrep

variable {α β : Type} {p : α → Bool} {xs : List α}

/-- A list that neither starts nor ends with a member that passes the test. -/
structure IsTrimmed (p : α → Bool) (xs : List α) : Prop where
  head : ∀ x ∈ xs.head?, p x = false
  last : ∀ x ∈ xs.getLast?, p x = false

theorem trimWhere_eq_rdropWhile (p : α → Bool) (xs : List α) :
    trimWhere p xs = (xs.dropWhile p).rdropWhile p :=
  rfl

/-- **What is trimmed off passes the test.** -/
theorem exists_trimWhere (p : α → Bool) (xs : List α) :
    ∃ front back, xs = front ++ trimWhere p xs ++ back ∧ (∀ x ∈ front, p x = true) ∧
      ∀ x ∈ back, p x = true := by
  refine ⟨xs.takeWhile p, (xs.dropWhile p).rtakeWhile p, ?_,
    List.all_eq_true.1 List.all_takeWhile, fun x => List.mem_rtakeWhile_imp⟩
  rw [trimWhere_eq_rdropWhile, List.append_assoc, List.rdropWhile_append_rtakeWhile,
    List.takeWhile_append_dropWhile]

/-- **What is left is trimmed.** -/
theorem isTrimmed_trimWhere (p : α → Bool) (xs : List α) : IsTrimmed p (trimWhere p xs) := by
  constructor
  case head =>
    intro x hx
    obtain ⟨back, hback⟩ := List.rdropWhile_prefix p (l := xs.dropWhile p)
    have hfirst := List.head?_dropWhile_not p xs
    rw [← hback, ← trimWhere_eq_rdropWhile, List.head?_append, Option.mem_def.1 hx] at hfirst
    exact hfirst
  case last =>
    intro x hx
    have hlast := List.head?_dropWhile_not p (xs.dropWhile p).reverse
    rw [trimWhere, List.getLast?_reverse] at hx
    rw [Option.mem_def.1 hx] at hlast
    exact hlast

/-- **Only what is left is trimmed and stands between members that pass.** -/
theorem trimWhere_eq {front middle back : List α} (hfront : ∀ x ∈ front, p x = true)
    (hback : ∀ x ∈ back, p x = true) (h : IsTrimmed p middle) :
    trimWhere p (front ++ middle ++ back) = middle := by
  rw [trimWhere, List.append_assoc, List.dropWhile_append_of_pos hfront]
  cases middle with
  | nil =>
    rw [List.nil_append, List.dropWhile_eq_nil_iff.2 hback]
    rfl
  | cons x middle =>
    have hx : ¬p x = true := Bool.eq_false_iff.1 (h.head x rfl)
    rw [List.cons_append, List.dropWhile_cons_of_neg hx, ← List.cons_append, List.reverse_append,
      List.dropWhile_append_of_pos fun y hy => hback y (List.mem_reverse.1 hy)]
    obtain ⟨y, hy⟩ : ∃ y, (x :: middle).getLast? = some y := ⟨_, List.getLast?_cons⟩
    obtain ⟨others, hothers⟩ := List.getLast?_eq_some_iff.1 hy
    have hlast : ¬p y = true := Bool.eq_false_iff.1 (h.last y hy)
    rw [hothers, List.reverse_append, List.reverse_singleton, List.singleton_append,
      List.dropWhile_cons_of_neg hlast, List.reverse_cons, List.reverse_reverse]

/-- What is trimmed once is trimmed. -/
theorem trimWhere_trimWhere (p : α → Bool) (xs : List α) :
    trimWhere p (trimWhere p xs) = trimWhere p xs := by
  have honce := trimWhere_eq (List.forall_mem_nil _) (List.forall_mem_nil _)
    (isTrimmed_trimWhere p xs)
  rwa [List.nil_append, List.append_nil] at honce

/-- Trimming may be done before or after a map. -/
theorem trimWhere_map (f : α → β) (p : β → Bool) (xs : List α) :
    trimWhere p (xs.map f) = (trimWhere (p ∘ f) xs).map f := by
  rw [trimWhere, trimWhere, List.dropWhile_map, ← List.map_reverse, List.dropWhile_map,
    List.map_reverse]

/-- Nothing is left of a list if all its members pass, and only then. -/
theorem isEmpty_trimWhere (p : α → Bool) (xs : List α) :
    (trimWhere p xs).isEmpty = xs.all p := by
  rw [Bool.eq_iff_iff, List.isEmpty_iff, List.all_eq_true]
  constructor
  · intro h
    obtain ⟨front, back, hxs, hfront, hback⟩ := exists_trimWhere p xs
    rw [hxs, h, List.append_nil]
    exact List.forall_mem_append.2 ⟨hfront, hback⟩
  · intro h
    have hnil : IsTrimmed p ([] : List α) := ⟨by simp, by simp⟩
    have hall := trimWhere_eq h (List.forall_mem_nil _) hnil
    rwa [List.append_nil, List.append_nil] at hall

/-- Trimming adds nothing. -/
theorem mem_of_mem_trimWhere {x : α} (h : x ∈ trimWhere p xs) : x ∈ xs := by
  obtain ⟨front, back, hxs, -⟩ := exists_trimWhere p xs
  rw [hxs]
  exact List.mem_append_left back (List.mem_append_right front h)

theorem mem_of_mem_trimWhite {ts : List Token} {t : Token} (h : t ∈ trimWhite ts) : t ∈ ts :=
  mem_of_mem_trimWhere h

end DevicetreePrep
