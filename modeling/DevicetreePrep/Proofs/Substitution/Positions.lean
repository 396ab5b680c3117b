/-
# Taking an offset back to the raw line

The way back reads the substitutions from the first to the last and adds up by how much
they made the line longer.  It is the inverse of replacing them: a character that was kept
goes back to its own position, the first character of an insertion to the start of the
stretch, and a further one to the start or the end of it (`rawOffset_eq_source`).  A
stretch that vanished, since nothing was inserted for it, sits between two characters
(`VanishesAt`); an offset in such a place is taken to stand before the stretch.  So the end
of the expanded line goes back to the end of the raw line unless a stretch vanished there
(`rawRange_whole_iff`).

Offsets keep their order on the way back, and none leaves the line (`rawOffset_ordered`).
Both rest on one fact about the loop: behind a stretch it never comes back to a position
before the end of that stretch (`bounds_rawOffsetFrom`).
-/

import Mathlib
import DevicetreePrep.Proofs.Substitution.Replacement

namespace DevicetreePrep

namespace Substitution

/-- The end of the stretch that a side stands for. -/
def edge (side : Line.Side) (s : Substitution) : Nat :=
  match side with
  | .start => s.start
  | .stop => s.stop

/-- The edge of a stretch on either side is not before its start. -/
theorem start_le_edge (side : Line.Side) (s : Substitution) : s.start ≤ s.edge side := by
  cases side
  · exact Nat.le_refl _
  · exact Nat.le_add_right _ _

/-- The edge of a stretch on either side is not behind its end. -/
theorem edge_le_stop (side : Line.Side) (s : Substitution) : s.edge side ≤ s.stop := by
  cases side
  · exact Nat.le_add_right _ _
  · exact Nat.le_refl _

/-- The substitution `s` of a row replaces its stretch by nothing, at an offset of the
expanded line. -/
def VanishesAt (subs : List Substitution) (s : Substitution) (offset : Int) : Prop :=
  ∃ before behind, subs = before ++ s :: behind ∧ s.insert = [] ∧ offset = s.start + growth before

theorem not_vanishesAt_nil (s : Substitution) (offset : Int) : ¬VanishesAt [] s offset := by
  rintro ⟨before, behind, h, -⟩
  exact List.append_ne_nil_of_right_ne_nil before (List.cons_ne_nil s behind) h.symm

/-- A substitution of a row vanishes if it is the first one, or one behind it. -/
theorem vanishesAt_cons {s t : Substitution} {subs : List Substitution} {offset : Int} :
    VanishesAt (t :: subs) s offset ↔
      (s = t ∧ t.insert = [] ∧ offset = t.start) ∨
        VanishesAt subs s (offset - (t.insert.length - t.raw.length)) := by
  constructor
  · rintro ⟨before, behind, h, hs, rfl⟩
    cases before with
    | nil =>
      obtain ⟨rfl, -⟩ := List.cons.inj h
      exact .inl ⟨rfl, hs, by simp [growth]⟩
    | cons u before =>
      obtain ⟨rfl, hsubs⟩ := List.cons.inj h
      exact .inr ⟨before, behind, hsubs, hs, by rw [growth_cons]; omega⟩
  · rintro (⟨rfl, hs, rfl⟩ | ⟨before, behind, rfl, hs, h⟩)
    · exact ⟨[], subs, rfl, hs, by simp [growth]⟩
    · exact ⟨t :: before, behind, rfl, hs, by rw [growth_cons]; omega⟩

end Substitution

namespace Line

/-- Where a character of an expanded line comes from. -/
inductive Source
  /-- It stood at a position of the line and was kept. -/
  | kept (position : Nat)
  /-- It is the character at an index of what a substitution inserted. -/
  | inserted (s : Substitution) (index : Nat)

namespace Source

/-- The character itself. -/
def char? (base : Text) : Source → Option Char
  | kept position => base[position]?
  | inserted s index => s.insert[index]?

/-- The position in the raw line that the character stands for. -/
def rawOffset (side : Side) : Source → Nat
  | kept position => position
  | inserted s 0 => s.start
  | inserted s (_ + 1) => s.edge side

/-- What a substitution inserts. -/
def ofInsert (s : Substitution) : List Source :=
  (List.range s.insert.length).map (inserted s)

/-- Where the characters of a line come from when the stretches are replaced.  The line had
`width` characters. -/
def ofLine (width : Nat) (subs : List Substitution) : List Source :=
  Substitution.weave ((List.range width).map kept) ofInsert 0 subs

/-- The sources of an expanded line spell it. -/
theorem map_char?_ofLine (base : Text) (subs : List Substitution) :
    (ofLine base.length subs).map (char? base) =
      (Substitution.weave base Substitution.insert 0 subs).map some := by
  have hall (t : Text) : (List.range t.length).map (fun n => t[n]?) = t.map some := by
    refine List.ext_getElem? fun n => ?_
    by_cases hn : n < t.length
    · simp [hn]
    · simp [Nat.not_lt.1 hn]
  have hkept : ((List.range base.length).map kept).map (char? base) = base.map some := by
    rw [List.map_map]
    exact hall base
  have hinserted (s : Substitution) : (ofInsert s).map (char? base) = s.insert.map some := by
    rw [ofInsert, List.map_map]
    exact hall s.insert
  rw [ofLine, Substitution.map_weave, Substitution.map_weave, hkept]
  simp only [hinserted]

end Source

open Substitution

variable {side : Side} {offset shift : Int} {width : Nat} {s : Substitution}
  {subs : List Substitution}

/-! The steps of the way back. -/

/-- An offset up to the first substitution only loses the shift. -/
theorem rawOffsetFrom_before (h : offset ≤ s.start + shift) :
    rawOffsetFrom side offset width shift (s :: subs) = min (offset - shift) width := by
  unfold rawOffsetFrom
  rw [if_pos h]

/-- An offset inside of what the first substitution inserts goes to its edge. -/
theorem rawOffsetFrom_inside (h : s.start + shift < offset)
    (h' : offset < s.start + shift + s.insert.length) :
    rawOffsetFrom side offset width shift (s :: subs) = s.edge side := by
  unfold rawOffsetFrom
  rw [if_neg (by omega), if_pos h']
  cases side <;> rfl

/-- An offset behind the first substitution is looked up behind it, with a new shift. -/
theorem rawOffsetFrom_behind (h : s.start + shift < offset)
    (h' : s.start + shift + s.insert.length ≤ offset) :
    rawOffsetFrom side offset width shift (s :: subs) =
      rawOffsetFrom side offset width (shift + (s.insert.length - s.raw.length)) subs := by
  conv => lhs; unfold rawOffsetFrom
  rw [if_neg (by omega), if_neg (by omega)]

/-- An offset that no stretch starts before only moves. -/
theorem rawOffsetFrom_of_forall (h : ∀ s ∈ subs, offset ≤ s.start + shift) :
    rawOffsetFrom side offset width shift subs = min (offset - shift) width := by
  cases subs with
  | nil => rw [rawOffsetFrom]
  | cons s subs => exact rawOffsetFrom_before (h s (List.mem_cons_self ..))

/-- The text of a line is what replacing its stretches gives, without the blanks at the
end. -/
theorem text_build (raw base : Text) (number : Int) (file : String) (subs : List Substitution) :
    (build raw base number file subs).text = Text.trimRight (applyAll base subs) := by
  rw [build, applyAll_mergeSort]

/-! The way back inverts replacing. -/

/-- What stands at a place of the gap before a stretch. -/
theorem getElem?_gap {start stop n : Nat} (hstop : stop ≤ width) (hn : start + n < stop) :
    ((((List.range width).map Source.kept).take stop).drop start)[n]? = some (.kept (start + n)) := by
  rw [List.getElem?_drop, List.getElem?_take_of_lt hn, List.getElem?_map,
    List.getElem?_range (Nat.lt_of_lt_of_le hn hstop)]
  rfl

/-- **The way back from a character whose source is known.**  No stretch vanished where the
character stands, so all the stretches before it are left behind. -/
theorem rawOffsetFrom_eq_source {start n : Nat} {source : Source}
    (hfirst : ∀ s ∈ subs, start ≤ s.start) (hbounds : ∀ s ∈ subs, s.stop ≤ width)
    (hrow : subs.Pairwise fun s t => s.stop ≤ t.start)
    (hsource : (weave ((List.range width).map Source.kept) Source.ofInsert start subs)[n]? =
      some source)
    (hvanish : ∀ s, ¬VanishesAt subs s (start + n)) :
    rawOffsetFrom side (start + n + shift) width shift subs = source.rawOffset side := by
  induction subs generalizing start n shift with
  | nil =>
    rw [weave, List.getElem?_drop, List.getElem?_map] at hsource
    obtain ⟨position, hposition, rfl⟩ := Option.map_eq_some_iff.1 hsource
    obtain ⟨hlt, rfl⟩ := List.getElem?_eq_some_iff.1 hposition
    rw [List.length_range] at hlt
    rw [rawOffsetFrom, List.getElem_range, Source.rawOffset]
    omega
  | cons s subs ih =>
    obtain ⟨hnext, hrow⟩ := List.pairwise_cons.1 hrow
    have hstart := hfirst s (List.mem_cons_self ..)
    have hstop := hbounds s (List.mem_cons_self ..)
    have hwidth : s.start ≤ width := Nat.le_trans (Nat.le_add_right _ _) hstop
    have hgap : ((((List.range width).map Source.kept).take s.start).drop start).length =
        s.start - start := by
      simp [hwidth]
    rw [weave, List.append_assoc] at hsource
    by_cases hn : start + n < s.start
    · rw [List.getElem?_append_left (by omega), getElem?_gap hwidth hn] at hsource
      obtain rfl := Option.some.inj hsource
      rw [rawOffsetFrom_before (by omega), Source.rawOffset]
      omega
    · obtain ⟨k, hk⟩ := Nat.exists_eq_add_of_le (Nat.not_lt.1 hn)
      obtain rfl : n = s.start - start + k := by omega
      rw [List.getElem?_append_right (by omega), hgap, Nat.add_sub_cancel_left] at hsource
      by_cases hins : k < s.insert.length
      · rw [List.getElem?_append_left (by simpa [Source.ofInsert] using hins), Source.ofInsert,
          List.getElem?_map, List.getElem?_range hins] at hsource
        obtain rfl := Option.some.inj hsource
        cases k with
        | zero =>
          rw [rawOffsetFrom_before (by omega), Source.rawOffset]
          omega
        | succ k =>
          rw [rawOffsetFrom_inside (by omega) (by omega)]
          rfl
      · -- the stretch did not vanish right here, so the offset lies behind its start
        have hbehind : s.insert.length ≠ 0 ∨ k ≠ 0 := by
          by_contra hzero
          have hnil := List.length_eq_zero_iff.1 (by omega : s.insert.length = 0)
          exact hvanish s (vanishesAt_cons.2 (.inl ⟨rfl, hnil, by omega⟩))
        obtain ⟨m, rfl⟩ := Nat.exists_eq_add_of_le (Nat.not_lt.1 hins)
        have hlength : (Source.ofInsert s).length = s.insert.length := by
          simp [Source.ofInsert]
        rw [List.getElem?_append_right (by omega), hlength, Nat.add_sub_cancel_left] at hsource
        have hoffset : (start : Int) + (s.start - start + (s.insert.length + m) : Nat) + shift =
            s.stop + m + (shift + (s.insert.length - s.raw.length)) := by
          rw [stop]
          omega
        rw [rawOffsetFrom_behind (by omega) (by omega), hoffset]
        exact ih hnext (fun t ht => hbounds t (List.mem_cons_of_mem _ ht)) hrow hsource fun t ht =>
          hvanish t (vanishesAt_cons.2 (.inr (by convert ht using 1; rw [stop]; omega)))

/-- A line without the blanks at its end agrees with the line, as far as it goes. -/
theorem getElem?_trimRight {t : Text} {n : Nat} (hn : n < (Text.trimRight t).length) :
    (Text.trimRight t)[n]? = t[n]? := by
  have hprefix : Text.trimRight t <+: t := List.rdropWhile_prefix _ t
  rw [List.getElem?_eq_getElem hn, List.prefix_iff_getElem?.1 hprefix n hn]

/-- **Taking an offset back inverts replacing.**  The stretches are not empty and do not
overlap; they are given in any order.  Then the expanded line is made of the gaps between
them, in turn with what they insert.  A character of it whose source was kept goes back to
its own position, the first character of an insertion to the start of its stretch, and a
further one to either end of the stretch, by the side that is asked for; this holds for all
offsets in which no stretch vanished. -/
theorem rawOffset_eq_source {raw base : Text} {subs : List Substitution}
    (hlength : base.length = raw.length) (hne : ∀ s ∈ subs, s.raw ≠ [])
    (hapart : subs.Pairwise Apart) (hbounds : ∀ s ∈ subs, s.stop ≤ raw.length)
    (number : Int) (file : String) :
    let line := build raw base number file subs
    line.subs.Perm subs ∧ (line.subs.Pairwise fun s t => s.stop ≤ t.start) ∧
      applyAll base subs = weave base insert 0 line.subs ∧
      ∀ n < line.text.length, (∀ s, ¬VanishesAt line.subs s n) →
        ∃ source, (Source.ofLine base.length line.subs)[n]? = some source ∧
          line.text[n]? = source.char? base ∧
          ∀ side, line.rawOffset side n = source.rawOffset side := by
  intro line
  have hperm : line.subs.Perm subs := List.mergeSort_perm ..
  have hrow : line.subs.Pairwise fun s t => s.stop ≤ t.start := pairwise_stop_le hne hapart
  have hweave : applyAll base subs = weave base insert 0 line.subs :=
    applyAll_eq_weave hne hapart (hlength.symm ▸ hbounds)
  refine ⟨hperm, hrow, hweave, fun n hn hvanish => ?_⟩
  have htext : line.text[n]? = (weave base insert 0 line.subs)[n]? := by
    rw [← hweave]
    rw [text_build] at hn ⊢
    exact getElem?_trimRight hn
  have hchars := congrArg (·[n]?) (Source.map_char?_ofLine base line.subs)
  simp only [List.getElem?_map, ← htext, List.getElem?_eq_getElem hn, Option.map_some] at hchars
  obtain ⟨source, hsource, hchar⟩ := Option.map_eq_some_iff.1 hchars
  refine ⟨source, hsource, by rw [List.getElem?_eq_getElem hn, hchar], fun side => ?_⟩
  have hback : rawOffsetFrom side ((0 : Nat) + n + 0) base.length 0 line.subs =
      source.rawOffset side :=
    rawOffsetFrom_eq_source (fun s _ => Nat.zero_le _)
      (fun s hs => hlength.symm ▸ hbounds s (hperm.mem_iff.1 hs)) hrow hsource
      (by simpa using hvanish)
  have hraw : line.raw = raw := rfl
  rw [← hback, rawOffset, hraw, hlength]
  simp

/-- Three substitutions in the line `A E+FOO(1)`, which they turn into `100 +77`.  The
second stretch vanishes. -/
def mixedSubs : List Substitution :=
  [⟨{ name := ['A'] }, ['A'], "100".toList, 0⟩, ⟨{ name := ['E'] }, ['E'], [], 2⟩,
    ⟨{ name := "FOO".toList, shape := .function [['x']] .none }, "FOO(1)".toList, "77".toList, 4⟩]

/-- The line that they give, in whatever order they come. -/
def mixedLine : Line :=
  build "A E+FOO(1)".toList "A E+FOO(1)".toList 1 "board.dts" mixedSubs.reverse

theorem subs_mixedLine : mixedLine.subs = mixedSubs := by
  cbv

/-- In the example of three substitutions one vanishes, at a single offset. -/
theorem eq_of_vanishesAt_mixedSubs (h : VanishesAt mixedSubs s offset) : offset = 4 := by
  simp only [mixedSubs, vanishesAt_cons, not_vanishesAt_nil, or_false] at h
  rcases h with ⟨-, h, -⟩ | ⟨-, -, h⟩ | ⟨-, h, -⟩
  · cases h
  · simp at h
    omega
  · cases h

/-- The last character goes back to either end of the call that it was inserted for. -/
theorem rawOffset_eq_source_in_call :
    (∀ s, ¬VanishesAt mixedLine.subs s (6 : Nat)) ∧
      mixedLine.rawOffset .start 6 = 4 ∧ mixedLine.rawOffset .stop 6 = 10 := by
  have hvanish : ∀ s, ¬VanishesAt mixedLine.subs s (6 : Nat) := by
    rw [subs_mixedLine]
    exact fun s h => absurd (eq_of_vanishesAt_mixedSubs h) (by decide)
  have hbounds : ∀ s ∈ mixedSubs.reverse, s.stop ≤ "A E+FOO(1)".toList.length := by decide
  have hlength : "A E+FOO(1)".toList.length = "A E+FOO(1)".toList.length := rfl
  obtain ⟨-, -, -, hback⟩ :=
    rawOffset_eq_source hlength (by decide) (by decide) hbounds 1 "board.dts"
  have htext : 6 < mixedLine.text.length := by
    have : mixedLine.text = "100 +77".toList := by cbv
    rw [this]
    decide
  obtain ⟨source, hsource, -, hback⟩ := hback 6 htext hvanish
  have hcall : (Source.ofLine 10 mixedLine.subs)[6]? = some (.inserted mixedSubs[2] 1) := by
    rw [subs_mixedLine]
    rfl
  obtain rfl := Option.some.inj (hcall.symm.trans hsource)
  exact ⟨hvanish, hback .start, hback .stop⟩

/-! The end of the line. -/

/-- **The way back from the end of the line.**  The loop stops early, at the start of a
stretch, only if this stretch and all behind it vanished. -/
theorem rawOffsetFrom_end_iff (hrise : subs.Pairwise fun s t => s.start ≤ t.start)
    (hrow : subs.Pairwise fun s t => t.raw = [] ∨ s.stop ≤ t.start)
    (hbounds : ∀ s ∈ subs, s.stop ≤ width) :
    rawOffsetFrom .stop (width + growth subs + shift) width shift subs = width ↔
      ∀ s, VanishesAt subs s (width + growth subs) → s.raw = [] := by
  induction subs generalizing shift with
  | nil => simp [rawOffsetFrom, growth, not_vanishesAt_nil]
  | cons s subs ih =>
    obtain ⟨hlater, hrise⟩ := List.pairwise_cons.1 hrise
    obtain ⟨hnext, hrow⟩ := List.pairwise_cons.1 hrow
    have hstop := hbounds s (List.mem_cons_self ..)
    have hbounds' (t) (ht : t ∈ subs) := hbounds t (List.mem_cons_of_mem _ ht)
    have hss : s.stop = s.start + s.raw.length := rfl
    have hroom : (s.stop : Int) ≤ width + growth subs := le_growth hstop hnext hbounds' hrow
    simp only [vanishesAt_cons, growth_cons]
    by_cases hend : width + growth subs = s.stop ∧ s.insert = []
    · obtain ⟨hend, hnil⟩ := hend
      by_cases hraw : s.raw = []
      · -- an empty stretch: the loop would stop at the next one as well
        have hshift : (s.insert.length : Int) - s.raw.length = 0 := by simp [hnil, hraw]
        rw [hraw, List.length_nil] at hss
        simp only [hshift, zero_add, sub_zero]
        have hrest : rawOffsetFrom .stop (width + growth subs + shift) width shift subs =
            min (width + growth subs + shift - shift) width :=
          rawOffsetFrom_of_forall fun t ht => by have := hlater t ht; omega
        rw [rawOffsetFrom_before (by omega), ← hrest, ih hrise hrow hbounds']
        constructor
        · rintro h t (⟨rfl, -⟩ | ht)
          · exact hraw
          · exact h t ht
        · exact fun h t ht => h t (.inr ht)
      · have hpos := List.length_pos_of_ne_nil hraw
        have hzero := List.length_eq_zero_iff.2 hnil
        rw [rawOffsetFrom_before (by omega)]
        refine iff_of_false (by omega) fun h => hraw (h s (.inl ⟨rfl, hnil, by omega⟩))
    · -- something stands behind the start of the stretch, so it is left behind
      have hlt : s.start < width + ((s.insert.length - s.raw.length) + growth subs) := by
        by_contra hle
        exact hend ⟨by omega, List.length_eq_zero_iff.1 (by omega)⟩
      rw [rawOffsetFrom_behind (by omega) (by omega)]
      have hoffset : width + (s.insert.length - s.raw.length + growth subs) + shift =
          width + growth subs + (shift + (s.insert.length - s.raw.length)) := by
        omega
      rw [hoffset, ih hrise hrow hbounds']
      have hcancel : width + (s.insert.length - s.raw.length + growth subs) -
          (s.insert.length - s.raw.length) = width + growth subs := by
        omega
      rw [hcancel]
      constructor
      · rintro h t (⟨rfl, -, ht⟩ | ht)
        · omega
        · exact h t ht
      · exact fun h t ht => h t (.inr ht)

/-- The start of the line goes back to the start of the line. -/
theorem rawOffset_zero (l : Line) (side : Side) : l.rawOffset side 0 = 0 := by
  rw [rawOffset, max_self, rawOffsetFrom_of_forall fun s _ => by omega]
  omega

/-- **The whole expanded line goes back to the whole raw line** exactly if no stretch
vanished at its end, empty ones apart.  The stretches do not overlap, and no blanks were
dropped at the end. -/
theorem rawRange_whole_iff {raw : Text} {subs : List Substitution}
    (hapart : subs.Pairwise Apart) (hbounds : ∀ s ∈ subs, s.stop ≤ raw.length)
    (htrim : Text.trimRight (applyAll raw subs) = applyAll raw subs)
    (number : Int) (file : String) :
    let line := build raw raw number file subs
    line.rawRange 0 line.text.length = (0, (raw.length : Int)) ↔
      ∀ s, VanishesAt line.subs s line.text.length → s.raw = [] := by
  intro line
  have hperm : line.subs.Perm subs := List.mergeSort_perm ..
  have hraw : line.raw = raw := rfl
  have hrise : line.subs.Pairwise fun s t => s.start ≤ t.start := pairwise_rising subs
  have hrow := pairwise_of_apart hapart hperm hrise
  have hlength : (line.text.length : Int) = raw.length + growth line.subs := by
    rw [text_build, htrim, length_applyAll hapart hbounds, growth_perm hperm]
  have hend : rawOffsetFrom .stop (raw.length + growth line.subs + 0) raw.length 0 line.subs =
      raw.length ↔ ∀ s, VanishesAt line.subs s (raw.length + growth line.subs) → s.raw = [] :=
    rawOffsetFrom_end_iff hrise hrow fun s hs => hbounds s (hperm.mem_iff.1 hs)
  rw [rawRange, rawOffset_zero, rawOffset, hraw, max_eq_right (Int.natCast_nonneg _), hlength,
    Prod.mk.injEq, ← hend, add_zero]
  exact and_iff_right rfl

/-- A stretch that vanished before the end does no harm. -/
theorem rawRange_whole_iff_vanished_inside :
    mixedLine.rawRange 0 mixedLine.text.length = (0, 10) := by
  have htrim : Text.trimRight (applyAll "A E+FOO(1)".toList mixedSubs.reverse) =
      applyAll "A E+FOO(1)".toList mixedSubs.reverse := by
    cbv
  have htext : mixedLine.text = "100 +77".toList := by cbv
  refine (rawRange_whole_iff (by decide) (by decide) htrim 1 "board.dts").2 fun s h => ?_
  have h' : VanishesAt mixedLine.subs s mixedLine.text.length := h
  rw [subs_mixedLine, htext] at h'
  exact absurd (eq_of_vanishesAt_mixedSubs h') (by decide)

/-- Where a stretch vanished at the end, the end of the expanded line goes back to the
start of that stretch: the line `a;X` is turned into `a;`, the whole of which goes back to
`a;` alone. -/
theorem rawRange_whole_ne :
    let raw : Text := "a;X".toList
    let subs : List Substitution := [⟨{ name := ['X'] }, ['X'], [], 2⟩]
    let line := build raw raw 1 "a.h" subs
    subs.Pairwise Apart ∧ (∀ s ∈ subs, s.stop ≤ raw.length) ∧
      Text.trimRight (applyAll raw subs) = applyAll raw subs ∧
      line.rawRange 0 line.text.length = (0, 2) ∧ raw.length = 3 := by
  refine ⟨by decide, by decide, by cbv, by cbv, rfl⟩

/-! Order and bounds. -/

/-- **The way back stays in the line**, and behind a stretch that stops at `start` it stays
behind that. -/
theorem bounds_rawOffsetFrom {start : Nat} (hstart : start ≤ width)
    (hfirst : ∀ s ∈ subs, start ≤ s.start) (hbounds : ∀ s ∈ subs, s.stop ≤ width)
    (hrow : subs.Pairwise fun s t => s.stop ≤ t.start) (hoffset : start + shift ≤ offset) :
    start ≤ rawOffsetFrom side offset width shift subs ∧
      rawOffsetFrom side offset width shift subs ≤ width := by
  induction subs generalizing start shift with
  | nil =>
    rw [rawOffsetFrom]
    omega
  | cons s subs ih =>
    obtain ⟨hnext, hrow⟩ := List.pairwise_cons.1 hrow
    have hs := hfirst s (List.mem_cons_self ..)
    have hstop := hbounds s (List.mem_cons_self ..)
    have hss : s.stop = s.start + s.raw.length := rfl
    by_cases hbefore : offset ≤ s.start + shift
    · rw [rawOffsetFrom_before hbefore]
      omega
    · by_cases hinside : offset < s.start + shift + s.insert.length
      · rw [rawOffsetFrom_inside (by omega) hinside]
        have hedge := start_le_edge side s
        have hedge' := edge_le_stop side s
        omega
      · rw [rawOffsetFrom_behind (by omega) (by omega)]
        refine (ih hstop hnext (fun t ht => hbounds t (List.mem_cons_of_mem _ ht)) hrow
          (by omega)).imp_left fun hle => ?_
        omega

/-- **The way back keeps the order of offsets.**  The side of the later offset may be the
end of a stretch where that of the earlier one is the start. -/
theorem rawOffsetFrom_le {side' : Side} {offset' : Int} (hside : side = .stop → side' = .stop)
    (hoffset : offset ≤ offset') (hbounds : ∀ s ∈ subs, s.stop ≤ width)
    (hrow : subs.Pairwise fun s t => s.stop ≤ t.start) :
    rawOffsetFrom side offset width shift subs ≤ rawOffsetFrom side' offset' width shift subs := by
  induction subs generalizing shift with
  | nil =>
    rw [rawOffsetFrom, rawOffsetFrom]
    omega
  | cons s subs ih =>
    obtain ⟨hnext, hrow⟩ := List.pairwise_cons.1 hrow
    have hstop := hbounds s (List.mem_cons_self ..)
    have hbounds' (t) (ht : t ∈ subs) := hbounds t (List.mem_cons_of_mem _ ht)
    have hss : s.stop = s.start + s.raw.length := rfl
    -- an offset behind the insertion goes back to the end of the stretch or further
    have hbehind (h : s.start + shift < offset') (h' : s.start + shift + s.insert.length ≤ offset') :
        (s.stop : Int) ≤ rawOffsetFrom side' offset' width shift (s :: subs) := by
      rw [rawOffsetFrom_behind h h']
      exact (bounds_rawOffsetFrom hstop hnext hbounds' hrow (by omega)).1
    have hedge := start_le_edge side' s
    have hedge' := edge_le_stop side s
    have hedges : s.edge side ≤ s.edge side' := by
      cases side with
      | start => exact hedge
      | stop => rw [hside rfl]
    by_cases hbefore : offset ≤ s.start + shift
    · rw [rawOffsetFrom_before hbefore]
      by_cases hbefore' : offset' ≤ s.start + shift
      · rw [rawOffsetFrom_before hbefore']
        omega
      · by_cases hinside : offset' < s.start + shift + s.insert.length
        · rw [rawOffsetFrom_inside (by omega) hinside]
          omega
        · have := hbehind (by omega) (by omega)
          omega
    · by_cases hinside : offset < s.start + shift + s.insert.length
      · rw [rawOffsetFrom_inside (by omega) hinside]
        by_cases hinside' : offset' < s.start + shift + s.insert.length
        · rw [rawOffsetFrom_inside (by omega) hinside']
          omega
        · have := hbehind (by omega) (by omega)
          omega
      · rw [rawOffsetFrom_behind (by omega) (by omega), rawOffsetFrom_behind (by omega) (by omega)]
        exact ih hbounds' hrow

/-- **The way back from any offset stays in the line and keeps the order of offsets.**  Each
stretch of the line stops before the next one starts.  Offsets before the line and behind
it count too.  So an ordered range of the expanded line goes back to an ordered range of the
raw line. -/
theorem rawOffset_ordered (l : Line) (hrow : l.subs.Pairwise fun s t => s.stop ≤ t.start)
    (hbounds : ∀ s ∈ l.subs, s.stop ≤ l.raw.length) :
    (∀ side offset, 0 ≤ l.rawOffset side offset ∧ l.rawOffset side offset ≤ l.raw.length) ∧
      (∀ side offset offset', offset ≤ offset' →
        l.rawOffset side offset ≤ l.rawOffset side offset') ∧
      (∀ offset, l.rawOffset .start offset ≤ l.rawOffset .stop offset) ∧
      ∀ start stop, start ≤ stop →
        0 ≤ (l.rawRange start stop).1 ∧ (l.rawRange start stop).1 ≤ (l.rawRange start stop).2 ∧
          (l.rawRange start stop).2 ≤ l.raw.length := by
  have hwithin (side : Side) (offset : Int) :
      0 ≤ l.rawOffset side offset ∧ l.rawOffset side offset ≤ l.raw.length := by
    have h : ((0 : Nat) : Int) ≤ l.rawOffset side offset ∧ l.rawOffset side offset ≤ l.raw.length :=
      bounds_rawOffsetFrom (Nat.zero_le _) (fun s _ => Nat.zero_le _) hbounds hrow (by omega)
    exact h
  have hmono {side side' : Side} {offset offset' : Int} (hside : side = .stop → side' = .stop)
      (hoffset : offset ≤ offset') : l.rawOffset side offset ≤ l.rawOffset side' offset' :=
    rawOffsetFrom_le hside (max_le_max_left 0 hoffset) hbounds hrow
  refine ⟨hwithin, fun side offset offset' h => hmono id h, fun offset => hmono nofun le_rfl,
    fun start stop h => ?_⟩
  exact ⟨(hwithin .start start).1, hmono nofun h, (hwithin .stop stop).2⟩

/-- From before the line to the middle of an insertion, over a stretch that vanished. -/
theorem rawOffset_ordered_over_vanished :
    mixedLine.rawRange (-3) 6 = (0, 10) ∧
      mixedLine.rawOffset .stop 4 ≤ mixedLine.rawOffset .stop 5 := by
  have hrow : mixedLine.subs.Pairwise fun s t => s.stop ≤ t.start := by
    rw [subs_mixedLine]
    decide
  have hbounds : ∀ s ∈ mixedLine.subs, s.stop ≤ mixedLine.raw.length := by
    rw [subs_mixedLine]
    decide
  obtain ⟨-, hmono, -⟩ := rawOffset_ordered mixedLine hrow hbounds
  exact ⟨by cbv, hmono .stop 4 5 (by decide)⟩

end Line
end DevicetreePrep
