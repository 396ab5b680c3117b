/-
# Definitions without their places

A definition remembers the file and the line that it was read from.  This is for
messages only: what a table holds under a name, whether a new definition displaces
an old one, and what a table becomes when a name is defined or removed, is the same
without the places (`Table.find?_unplaced`, `Table.displaced?_unplaced`,
`Table.unplaced_insert`, `Table.unplaced_erase`).  A definition that is read is the
same in all places (`Definition.read_elsewhere`).  Two tables that differ in places
only have the same names and definitions that may stand for each other
(`Table.forall₂_sameAs`).

The place that is current where a macro is expanded does matter, but only to the
builtins for the current file and the current line (`Table.Hides`).
-/

import DevicetreePrep.Definition.Reading
import DevicetreePrep.Definition.Table
import Mathlib.Data.List.Forall2

namespace DevicetreePrep

/-- What may differ where the same lines are read in two places. -/
inductive Difference
  /-- The numbers of the lines. -/
  | numbers
  /-- The numbers of the lines and their files. -/
  | places
  deriving DecidableEq, Repr

namespace Definition

/-- The definition without the place where it was read. -/
def unplaced (d : Definition) : Definition :=
  { d with file := none, line := none }

theorem sameAs_unplaced (d e : Definition) : d.unplaced.sameAs e.unplaced = d.sameAs e :=
  rfl

theorem sameAs_refl (d : Definition) : d.sameAs d = true := by
  simp [sameAs]

/-- **What is read does not depend on the place where it is read.** -/
theorem unplaced_read (operand : Text) (file : Option String) (line : Option Int) :
    (read operand file line).map unplaced = read operand := by
  unfold read
  split
  · rfl
  · split
    · rfl
    · rename_i inner replacement _
      cases parametersOf inner <;> rfl
  · rfl

/-- What is read in two places is wrong in both, or the same but for the places. -/
theorem read_elsewhere (operand : Text) (file file' : Option String) (line line' : Option Int) :
    (∃ e, read operand file line = .error e ∧ read operand file' line' = .error e) ∨
      ∃ d d', read operand file line = .ok d ∧ read operand file' line' = .ok d' ∧
        d.unplaced = d'.unplaced := by
  have hmap : (read operand file line).map unplaced = (read operand file' line').map unplaced := by
    rw [unplaced_read, unplaced_read]
  cases hd : read operand file line with
  | error e =>
    cases hd' : read operand file' line' with
    | error e' =>
      rw [hd, hd'] at hmap
      obtain rfl := Except.error.inj hmap
      exact .inl ⟨e, rfl, rfl⟩
    | ok d' => rw [hd, hd'] at hmap; cases hmap
  | ok d =>
    cases hd' : read operand file' line' with
    | error e' => rw [hd, hd'] at hmap; cases hmap
    | ok d' =>
      rw [hd, hd'] at hmap
      exact .inr ⟨d, d', rfl, rfl, Except.ok.inj hmap⟩

/-- No builtin is read. -/
theorem shape_of_read {operand : Text} {file : Option String} {line : Option Int} {d : Definition}
    (h : read operand file line = .ok d) : d.shape ≠ .builtin := by
  unfold read at h
  split at h
  · cases h
  · split at h
    · cases h
    · rename_i inner replacement _
      cases hp : parametersOf inner with
      | error e => rw [hp] at h; cases h
      | ok p =>
        rw [hp] at h
        obtain rfl := Except.ok.inj h
        exact Shape.noConfusion
  · obtain rfl := Except.ok.inj h
    exact Shape.noConfusion

end Definition

namespace Table

variable {t t' : Table}

/-- A table is its entries. -/
theorem eq_of_entries_eq (h : t.entries = t'.entries) : t = t' := by
  obtain ⟨entries, _⟩ := t
  obtain ⟨entries', _⟩ := t'
  obtain rfl : entries = entries' := h
  rfl

/-- The table without the places where its definitions were read. -/
def unplaced (t : Table) : Table where
  entries := t.entries.map Definition.unplaced
  distinct := by
    rw [List.map_map]
    exact t.distinct

/-- A name is found without its place where it is found with one. -/
theorem find?_unplaced (t : Table) (name : Text) :
    t.unplaced.find? name = (t.find? name).map Definition.unplaced := by
  rw [find?, unplaced, List.find?_map]
  rfl

/-- Places do not change which names are in a table. -/
theorem contains_unplaced (t : Table) (name : Text) :
    t.unplaced.contains name = t.contains name := by
  rw [contains, unplaced, List.any_map]
  rfl

theorem names_unplaced (t : Table) : t.unplaced.names = t.names := by
  rw [names, unplaced, List.map_map]
  rfl

/-- Places do not change which definition is displaced. -/
theorem displaced?_unplaced (t : Table) (d : Definition) :
    t.unplaced.displaced? d.unplaced = (t.displaced? d).map Definition.unplaced := by
  have hname : d.unplaced.name = d.name := rfl
  rw [displaced?, displaced?, hname, find?_unplaced, Option.filter_map]
  rfl

/-- A definition may be put into a table before or after places are forgotten. -/
theorem map_unplaced_place (d : Definition) (es : List Definition) :
    (place d es).map Definition.unplaced = place d.unplaced (es.map Definition.unplaced) := by
  induction es with
  | nil => rfl
  | cons e es ih =>
    have hname : e.unplaced.name = e.name ∧ d.unplaced.name = d.name := ⟨rfl, rfl⟩
    rw [List.map_cons, place, place, hname.1, hname.2]
    split
    · rfl
    · rw [List.map_cons, ih]

theorem unplaced_insert (t : Table) (d : Definition) :
    (t.insert d).unplaced = t.unplaced.insert d.unplaced :=
  eq_of_entries_eq (map_unplaced_place d t.entries)

/-- A name may be erased before or after places are forgotten. -/
theorem unplaced_erase (t : Table) (name : Text) :
    (t.erase name).unplaced = t.unplaced.erase name := by
  refine eq_of_entries_eq ?_
  dsimp only [unplaced, erase]
  rw [List.filter_map]
  rfl

/-- **Tables that differ in places only hold definitions that may stand for each
other**, in the same order. -/
theorem forall₂_sameAs (h : t.unplaced = t'.unplaced) :
    List.Forall₂ (fun d e => d.sameAs e = true) t.entries t'.entries := by
  have hentries : List.Forall₂ Eq (t.entries.map Definition.unplaced)
      (t'.entries.map Definition.unplaced) := by
    rw [List.forall₂_eq_eq_eq]
    exact congrArg entries h
  rw [List.forall₂_map_left_iff, List.forall₂_map_right_iff] at hentries
  refine hentries.imp fun d e hde => ?_
  rw [← Definition.sameAs_unplaced, hde]
  exact e.unplaced.sameAs_refl

/-- The builtins for the current file and the current line are not defined. -/
def IsPlaceFree (t : Table) : Prop :=
  ∀ d ∈ t.entries, d.shape = .builtin → d.name ≠ "__FILE__".toList ∧ d.name ≠ "__LINE__".toList

/-- No builtin of the table shows such a difference. -/
def Hides (δ : Difference) (t : Table) : Prop :=
  ∀ d ∈ t.entries, d.shape = .builtin →
    (δ = .places → d.name ≠ "__FILE__".toList) ∧ d.name ≠ "__LINE__".toList

theorem hides_places (t : Table) : t.Hides .places ↔ t.IsPlaceFree := by
  simp only [Hides, IsPlaceFree, forall_const]

/-- What shows no difference shows none in the numbers. -/
theorem Hides.numbers {δ : Difference} (h : t.Hides δ) : t.Hides .numbers :=
  fun d hd hshape => ⟨Difference.noConfusion, (h d hd hshape).2⟩

theorem hides_unplaced (δ : Difference) (t : Table) : t.unplaced.Hides δ ↔ t.Hides δ :=
  List.forall_mem_map

/-- Putting a definition into a list adds no other one. -/
theorem mem_place {d e : Definition} {es : List Definition} (h : e ∈ place d es) :
    e = d ∨ e ∈ es := by
  induction es with
  | nil => exact .inl (List.mem_singleton.1 h)
  | cons e' es ih =>
    rw [place] at h
    split at h
    · rcases List.mem_cons.1 h with rfl | h
      · exact .inl rfl
      · exact .inr (List.mem_cons_of_mem _ h)
    · rcases List.mem_cons.1 h with rfl | h
      · exact .inr (List.mem_cons_self ..)
      · exact (ih h).imp_right (List.mem_cons_of_mem _)

/-- A definition that is no builtin shows no difference. -/
theorem Hides.insert {δ : Difference} (h : t.Hides δ) {d : Definition} (hd : d.shape ≠ .builtin) :
    (t.insert d).Hides δ := by
  intro e he hshape
  rcases mem_place he with rfl | he
  · exact absurd hshape hd
  · exact h e he hshape

theorem Hides.erase {δ : Difference} (h : t.Hides δ) (name : Text) : (t.erase name).Hides δ :=
  fun d hd => h d (List.mem_filter.1 hd).1

end Table
end DevicetreePrep
