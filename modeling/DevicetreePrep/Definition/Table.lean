/-
# Tables of definitions

A table holds at most one definition for each name and keeps the order in
which the names came in.  A new definition of a known name takes the place of
the old one; a name that was removed and comes back goes to the end.
-/

import DevicetreePrep.Definition
import DevicetreePrep.Text.Quoted

namespace DevicetreePrep

/-- Definitions in the order in which their names came in, one for each name. -/
structure Table where
  entries : List Definition := []
  distinct : (entries.map Definition.name).Nodup := by simp
  deriving DecidableEq

namespace Table

/-- The table without definitions. -/
def empty : Table := {}

/-- Puts `d` in the place of the entry with its name, or at the end. -/
def place (d : Definition) : List Definition → List Definition
  | [] => [d]
  | e :: es => if e.name = d.name then d :: es else e :: place d es

/-- Placing a definition adds its name at the end, unless it is there. -/
theorem map_name_place (d : Definition) (es : List Definition) :
    (place d es).map Definition.name =
      if d.name ∈ es.map Definition.name then es.map Definition.name
      else es.map Definition.name ++ [d.name] := by
  induction es with
  | nil => simp [place]
  | cons e es ih =>
    by_cases h : e.name = d.name
    · simp [place, h]
    · have h' : d.name ≠ e.name := fun h' => h h'.symm
      simp only [place, if_neg h, List.map_cons, ih, List.mem_cons, h', false_or]
      split <;> simp

/-- Placing a definition keeps the names distinct. -/
theorem nodup_place {d : Definition} {es : List Definition}
    (h : (es.map Definition.name).Nodup) : ((place d es).map Definition.name).Nodup := by
  rw [map_name_place]
  split
  · exact h
  · rename_i hd
    rw [List.nodup_append]
    refine ⟨h, by simp, fun a ha b hb => ?_⟩
    rw [List.mem_singleton.1 hb]
    exact fun hab => hd (hab ▸ ha)

/-- The table with `d` as the definition of its name. -/
def insert (t : Table) (d : Definition) : Table where
  entries := place d t.entries
  distinct := nodup_place t.distinct

/-- The table without a name. -/
def erase (t : Table) (name : Text) : Table where
  entries := t.entries.filter (·.name ≠ name)
  distinct := t.distinct.sublist (List.filter_sublist.map _)

/-- The definition of a name. -/
def find? (t : Table) (name : Text) : Option Definition :=
  t.entries.find? (·.name = name)

/-- Whether a name is defined. -/
def contains (t : Table) (name : Text) : Bool :=
  t.entries.any (·.name = name)

/-- The names in the order in which they came in. -/
def names (t : Table) : List Text :=
  t.entries.map Definition.name

/-- The number of names. -/
def size (t : Table) : Nat :=
  t.entries.length

/-- The table that holds the definitions, a later one of a name in the place of
an earlier one. -/
def ofList (ds : List Definition) : Table :=
  ds.foldl insert empty

/-- The definition that `d` would displace, if it means something else. -/
def displaced? (t : Table) (d : Definition) : Option Definition :=
  (t.find? d.name).filter fun e => !e.sameAs d

/-- The names in the order of their code points. -/
def sortedNames (t : Table) : List Text :=
  t.names.mergeSort Text.atMost

/-- A summary of the table: its names in order. -/
def summary (t : Table) : Text :=
  "DefineTable([".toList ++ Text.joinWith [',', ' '] (t.sortedNames.map Text.quoted) ++ [']', ')']

/-- One line for each definition that is not a builtin, in the order of the
names: the head, an equals sign and the replacement. -/
def dump (t : Table) : List Text :=
  let entries := t.entries.mergeSort fun d e => d.name.atMost e.name
  (entries.filter (·.shape ≠ .builtin)).map fun d => d.signature ++ '=' :: d.value

end Table
end DevicetreePrep
