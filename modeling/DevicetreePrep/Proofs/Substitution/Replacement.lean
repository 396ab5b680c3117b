/-
# What replacing stretches does to a line

The stretches of a line are replaced from the last to the first.  If no two of them
overlap, this comes to reading the line once from its start: what stands between two
stretches is kept, and every stretch gives way to what is inserted for it
(`applyAll_eq_weave`).  The line gets longer by what is inserted and shorter by what is
taken out (`length_applyAll`); this holds with empty stretches too, which may start
together with another one.

In which order the substitutions are given does not matter, except for those that start
together: these keep their order in both of the sorts that a line goes through
(`filter_mergeSort`), so that one sort may be left out (`applyAll_mergeSort`).
-/

import Mathlib
import DevicetreePrep.Substitution

namespace DevicetreePrep
namespace Substitution

variable {base : Text} {subs : List Substitution}

/-! Sorting by starts. -/

/-- An order of substitutions that only looks at where they start. -/
structure IsByStart (le : Substitution → Substitution → Bool) : Prop where
  trans : ∀ s t u, le s t = true → le t u = true → le s u = true
  total : ∀ s t, (le s t || le t s) = true
  together : ∀ s t, s.start = t.start → le s t = true

/-- The rising order of the starts is an order by the start. -/
theorem isByStart_rising : IsByStart fun s t => s.start ≤ t.start where
  trans s t u := by simpa using Nat.le_trans
  total s t := by simpa using Nat.le_total _ _
  together s t h := by simp [h]

/-- The falling order of the starts is an order by the start. -/
theorem isByStart_falling : IsByStart fun s t => t.start ≤ s.start where
  trans s t u hst htu := isByStart_rising.trans u t s htu hst
  total s t := isByStart_rising.total t s
  together s t h := isByStart_rising.together t s h.symm

/-- **A sort by starts keeps the order of substitutions that start together.** -/
theorem filter_mergeSort {le : Substitution → Substitution → Bool} (hle : IsByStart le)
    (subs : List Substitution) (n : Nat) :
    (subs.mergeSort le).filter (fun s => s.start = n) = subs.filter fun s => s.start = n := by
  have hequal : (subs.filter fun s => s.start = n).Pairwise fun s t => le s t = true := by
    refine List.pairwise_of_forall_mem_list fun s hs t ht => hle.together s t ?_
    rw [of_decide_eq_true (List.mem_filter.1 hs).2, of_decide_eq_true (List.mem_filter.1 ht).2]
  have hsub := (List.sublist_mergeSort hle.trans hle.total hequal List.filter_sublist).filter
    fun s => s.start = n
  rw [List.filter_filter] at hsub
  simp only [Bool.and_self] at hsub
  exact (hsub.eq_of_length ((List.mergeSort_perm subs le).filter _).length_eq.symm).symm

/-- Lists with the same substitutions at each start have the same ones. -/
theorem mem_iff_of_filter_start {subs' : List Substitution}
    (h : ∀ n, (subs.filter fun s => s.start = n) = subs'.filter fun s => s.start = n)
    (s : Substitution) : s ∈ subs ↔ s ∈ subs' := by
  have hs := congrArg (s ∈ ·) (h s.start)
  simpa [List.mem_filter] using hs

/-- Two rows in the order of falling starts are the same, if those that start together
come in the same order. -/
theorem eq_of_filter_start {subs' : List Substitution}
    (h : subs.Pairwise fun s t => t.start ≤ s.start)
    (h' : subs'.Pairwise fun s t => t.start ≤ s.start)
    (hfilter : ∀ n, (subs.filter fun s => s.start = n) = subs'.filter fun s => s.start = n) :
    subs = subs' := by
  induction subs generalizing subs' with
  | nil =>
    refine (List.eq_nil_iff_forall_not_mem.2 fun t ht => ?_).symm
    exact List.not_mem_nil ((mem_iff_of_filter_start hfilter t).2 ht)
  | cons s subs ih =>
    have hs := (mem_iff_of_filter_start hfilter s).1 (List.mem_cons_self ..)
    cases subs' with
    | nil => cases hs
    | cons t subs' =>
      have ht := (mem_iff_of_filter_start hfilter t).2 (List.mem_cons_self ..)
      obtain ⟨hfirst, hrow⟩ := List.pairwise_cons.1 h
      obtain ⟨hfirst', hrow'⟩ := List.pairwise_cons.1 h'
      -- each of the two rows starts with the largest start that there is
      have hle : t.start ≤ s.start := by
        rcases List.mem_cons.1 ht with rfl | ht
        · exact Nat.le_refl _
        · exact hfirst t ht
      have hge : s.start ≤ t.start := by
        rcases List.mem_cons.1 hs with rfl | hs
        · exact Nat.le_refl _
        · exact hfirst' s hs
      have hfront := hfilter s.start
      rw [List.filter_cons_of_pos (by simp),
        List.filter_cons_of_pos (by simpa using Nat.le_antisymm hle hge)] at hfront
      obtain ⟨rfl, hfront⟩ := List.cons.inj hfront
      refine congrArg (s :: ·) (ih hrow hrow' fun n => ?_)
      by_cases hn : s.start = n
      · rwa [← hn]
      · have hrest := hfilter n
        rwa [List.filter_cons_of_neg (by simp [hn]), List.filter_cons_of_neg (by simp [hn])] at hrest

/-- Sorted by the rising order, the starts rise. -/
theorem pairwise_rising (subs : List Substitution) :
    (subs.mergeSort fun s t => s.start ≤ t.start).Pairwise fun s t => s.start ≤ t.start := by
  have h := List.pairwise_mergeSort isByStart_rising.trans isByStart_rising.total subs
  simpa using h

/-- Sorted by the falling order, the starts fall. -/
theorem pairwise_falling (subs : List Substitution) :
    (subs.mergeSort fun s t => t.start ≤ s.start).Pairwise fun s t => t.start ≤ s.start := by
  have h := List.pairwise_mergeSort isByStart_falling.trans isByStart_falling.total subs
  simpa using h

/-- **Substitutions that were put in order are replaced as if they had not been.** -/
theorem applyAll_mergeSort (base : Text) (subs : List Substitution) :
    applyAll base (subs.mergeSort fun s t => s.start ≤ t.start) = applyAll base subs := by
  rw [applyAll, applyAll, eq_of_filter_start (pairwise_falling _) (pairwise_falling subs)]
  intro n
  rw [filter_mergeSort isByStart_falling, filter_mergeSort isByStart_rising,
    filter_mergeSort isByStart_falling]

/-! Replacing stretches that do not overlap. -/

/-- Two stretches that do not overlap. -/
def Apart (s t : Substitution) : Prop :=
  s.stop ≤ t.start ∨ t.stop ≤ s.start

instance (s t : Substitution) : Decidable (s.Apart t) :=
  inferInstanceAs (Decidable (_ ∨ _))

theorem Apart.symm {s t : Substitution} (h : s.Apart t) : t.Apart s :=
  Or.symm h

instance : Std.Symm Apart :=
  ⟨fun _ _ => Apart.symm⟩

/-- Of two stretches that do not overlap, the one that starts later is empty or starts
behind the other one. -/
theorem Apart.of_start_le {s t : Substitution} (h : s.Apart t) (hle : s.start ≤ t.start) :
    t.raw = [] ∨ s.stop ≤ t.start := by
  rcases h with h | h
  · exact .inr h
  · rw [stop] at h
    exact .inl (List.length_eq_zero_iff.1 (by omega))

/-- Stretches that do not overlap, in the order of their starts, follow each other, empty
ones apart. -/
theorem pairwise_of_apart {subs' : List Substitution} (hapart : subs.Pairwise Apart)
    (hperm : subs'.Perm subs) (hrise : subs'.Pairwise fun s t => s.start ≤ t.start) :
    subs'.Pairwise fun s t => t.raw = [] ∨ s.stop ≤ t.start :=
  (hrise.and (hapart.perm hperm.symm Apart.symm)).imp fun h => h.2.of_start_le h.1

/-- What a list reads from `offset` on when the stretches are replaced: the gaps between
them, in turn with what is inserted for each. -/
def weave {α : Type} (xs : List α) (insert : Substitution → List α) (offset : Nat) :
    List Substitution → List α
  | [] => xs.drop offset
  | s :: subs => (xs.take s.start).drop offset ++ insert s ++ weave xs insert s.stop subs

/-- Weaving may be done before or after a map. -/
theorem map_weave {α β : Type} (f : α → β) (xs : List α) (insert : Substitution → List α)
    (offset : Nat) (subs : List Substitution) :
    (weave xs insert offset subs).map f = weave (xs.map f) (fun s => (insert s).map f) offset subs := by
  induction subs generalizing offset with
  | nil => rw [weave, weave, List.map_drop]
  | cons s subs ih =>
    rw [weave, weave, List.map_append, List.map_append, List.map_drop, List.map_take, ih]

/-- Stretches that follow each other are replaced from the last to the first, and what
stands before them stays. -/
theorem foldr_apply_eq {offset : Nat} (hoffset : offset ≤ base.length)
    (hstart : ∀ s ∈ subs, offset ≤ s.start) (hbounds : ∀ s ∈ subs, s.stop ≤ base.length)
    (hrow : subs.Pairwise fun s t => s.stop ≤ t.start) :
    subs.foldr (fun s line => apply line s) base =
      base.take offset ++ weave base insert offset subs := by
  induction subs generalizing offset with
  | nil => rw [List.foldr_nil, weave, List.take_append_drop]
  | cons s subs ih =>
    obtain ⟨hfirst, hrow⟩ := List.pairwise_cons.1 hrow
    have hle := hstart s (List.mem_cons_self ..)
    have hstop := hbounds s (List.mem_cons_self ..)
    have hss : s.start ≤ s.stop := Nat.le_add_right _ _
    have hlen : (base.take s.stop).length = s.stop := List.length_take_of_le hstop
    rw [List.foldr_cons, ih hstop hfirst (fun t ht => hbounds t (List.mem_cons_of_mem _ ht)) hrow,
      apply, weave, List.take_append_of_le_length (hlen.symm ▸ hss), List.take_take,
      Nat.min_eq_left hss, List.drop_left' hlen]
    have hsplit : base.take offset ++ (base.take s.start).drop offset = base.take s.start := by
      conv => rhs; rw [← List.take_append_drop offset (base.take s.start), List.take_take,
        Nat.min_eq_left hle]
    rw [← List.append_assoc, ← List.append_assoc, hsplit]

/-- Substitutions of stretches that are not empty, put in order, follow each other. -/
theorem pairwise_stop_le (hne : ∀ s ∈ subs, s.raw ≠ []) (hapart : subs.Pairwise Apart) :
    (subs.mergeSort fun s t => s.start ≤ t.start).Pairwise fun s t => s.stop ≤ t.start := by
  have hperm := List.mergeSort_perm subs fun s t => s.start ≤ t.start
  refine (pairwise_of_apart hapart hperm (pairwise_rising subs)).imp_of_mem fun _ ht h => ?_
  exact h.resolve_left (hne _ (hperm.mem_iff.1 ht))

/-- **Replacing stretches from the last to the first gives the gaps between them, in turn
with what they insert.** -/
theorem applyAll_eq_weave (hne : ∀ s ∈ subs, s.raw ≠ []) (hapart : subs.Pairwise Apart)
    (hbounds : ∀ s ∈ subs, s.stop ≤ base.length) :
    applyAll base subs =
      weave base insert 0 (subs.mergeSort fun s t => s.start ≤ t.start) := by
  have hperm := List.mergeSort_perm subs fun s t => s.start ≤ t.start
  have hrow := pairwise_stop_le hne hapart
  -- no two of them start together, so one order is the other one backwards
  have hreverse : (subs.mergeSort fun s t => t.start ≤ s.start) =
      (subs.mergeSort fun s t => s.start ≤ t.start).reverse := by
    refine List.Perm.eq_of_pairwise (fun s t hs ht hts hst => ?_) (pairwise_falling subs)
      (List.pairwise_reverse.2 (pairwise_rising subs))
      ((List.mergeSort_perm ..).trans (hperm.symm.trans (List.reverse_perm _).symm))
    have hs' := List.mem_mergeSort.1 hs
    have ht' := List.mem_mergeSort.1 (List.mem_reverse.1 ht)
    refine Classical.not_not.1 fun hne' => ?_
    have happart := hapart.forall hs' ht' hne'
    have hlt := List.length_pos_of_ne_nil (hne t ht')
    have hlt' := List.length_pos_of_ne_nil (hne s hs')
    rw [Apart, stop, stop] at happart
    omega
  rw [applyAll, hreverse, List.foldl_reverse, foldr_apply_eq (Nat.zero_le _)
    (fun _ _ => Nat.zero_le _) (fun s hs => hbounds s (hperm.mem_iff.1 hs)) hrow, List.take_zero,
    List.nil_append]

/-- By how much a line gets longer. -/
def growth (subs : List Substitution) : Int :=
  (subs.map fun s => (s.insert.length : Int) - s.raw.length).sum

theorem growth_cons (s : Substitution) (subs : List Substitution) :
    growth (s :: subs) = (s.insert.length - s.raw.length) + growth subs :=
  List.sum_cons

theorem growth_perm {subs' : List Substitution} (h : subs.Perm subs') :
    growth subs = growth subs' :=
  (h.map _).sum_eq

/-- Stretches that do not overlap have room between an offset and the end of the line. -/
theorem le_growth {offset width : Nat} (hoffset : offset ≤ width)
    (hstart : ∀ s ∈ subs, s.raw = [] ∨ offset ≤ s.start) (hbounds : ∀ s ∈ subs, s.stop ≤ width)
    (hrow : subs.Pairwise fun s t => t.raw = [] ∨ s.stop ≤ t.start) :
    (offset : Int) ≤ width + growth subs := by
  induction subs generalizing offset with
  | nil => simpa [growth] using hoffset
  | cons s subs ih =>
    obtain ⟨hfirst, hrow⟩ := List.pairwise_cons.1 hrow
    have hbounds' (t) (ht : t ∈ subs) := hbounds t (List.mem_cons_of_mem _ ht)
    rw [growth_cons]
    rcases hstart s (List.mem_cons_self ..) with hs | hs
    · have := ih hoffset (fun t ht => hstart t (List.mem_cons_of_mem _ ht)) hbounds' hrow
      rw [hs, List.length_nil]
      omega
    · have := ih (hbounds s (List.mem_cons_self ..)) hfirst hbounds' hrow
      rw [stop] at this
      omega

/-- By how much a line grows with its substitutions, made from the last one to the first. -/
theorem length_foldr_apply (hbounds : ∀ s ∈ subs, s.stop ≤ base.length)
    (hrow : subs.Pairwise fun s t => t.raw = [] ∨ s.stop ≤ t.start) :
    ((subs.foldr (fun s line => apply line s) base).length : Int) = base.length + growth subs := by
  induction subs with
  | nil => simp [growth]
  | cons s subs ih =>
    obtain ⟨hfirst, hrow⟩ := List.pairwise_cons.1 hrow
    have hbounds' (t) (ht : t ∈ subs) := hbounds t (List.mem_cons_of_mem _ ht)
    have hlen := ih hbounds' hrow
    -- the stretches behind leave the text up to the end of this one in its place
    have hroom := le_growth (hbounds s (List.mem_cons_self ..)) hfirst hbounds' hrow
    rw [List.foldr_cons, growth_cons, apply]
    simp only [List.length_append, List.length_take, List.length_drop]
    rw [stop] at hroom ⊢
    omega

/-- **A line gets longer by what is inserted and shorter by what is taken out.** -/
theorem length_applyAll (hapart : subs.Pairwise Apart) (hbounds : ∀ s ∈ subs, s.stop ≤ base.length) :
    ((applyAll base subs).length : Int) = base.length + growth subs := by
  have hperm : (subs.mergeSort fun s t => t.start ≤ s.start).reverse.Perm subs :=
    (List.reverse_perm _).trans (List.mergeSort_perm ..)
  have hrow := pairwise_of_apart hapart hperm (List.pairwise_reverse.2 (pairwise_falling subs))
  rw [← growth_perm hperm, ← length_foldr_apply (fun s hs => hbounds s (hperm.mem_iff.1 hs)) hrow,
    List.foldr_reverse]
  rfl

end Substitution
end DevicetreePrep
