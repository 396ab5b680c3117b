/-
# Expansion of objects is unfolding

Where all definitions are objects, a name can be unfolded by recursion: it stands for
its replacement, in which each token is unfolded in turn with the name hidden
(`Table.unfold`).  This ends on every table, also where definitions refer to each other
in circles, as each step hides one more name of the table.

The expansion of a line works through a list instead.  Each token on it carries the
names that are hidden in it, so it can be said what the whole list unfolds to, and a
replacement at its front does not change that (`expandFrom_eq_unfold`).  The budget of
the line only has to be as large as the number of replacements
(`Table.replacements`).
-/

import Mathlib
import DevicetreePrep.Proofs.Expansion.Block
import DevicetreePrep.Proofs.Expansion.Verbatim

namespace DevicetreePrep
namespace Table

variable {table : Table} {hidden : List Text} {t : Token} {d : Definition}

/-- The definition that a token is replaced by where the names in `hidden` are not
replaced. -/
def visible? (table : Table) (hidden : List Text) (t : Token) : Option Definition :=
  if t.kind = .ident ∧ t.text ∉ hidden then table.find? t.text else none

/-- The names of the table that are not hidden. -/
def shown (table : Table) (hidden : List Text) : List Text :=
  table.names.filter (· ∉ hidden)

theorem find?_eq_some {name : Text} (h : table.find? name = some d) :
    d ∈ table.entries ∧ d.name = name :=
  ⟨List.mem_of_find?_eq_some h, by simpa using List.find?_some h⟩

/-- A name that is replaced is one that was not hidden. -/
theorem length_shown_lt (h : table.visible? hidden t = some d) :
    (table.shown (t.text :: hidden)).length < (table.shown hidden).length := by
  rw [visible?] at h
  split at h
  · rename_i ht
    obtain ⟨hd, hname⟩ := find?_eq_some h
    have hmem : t.text ∈ table.shown hidden := by
      refine List.mem_filter.2 ⟨?_, decide_eq_true ht.2⟩
      rw [← hname]
      exact List.mem_map_of_mem hd
    have hshown : table.shown (t.text :: hidden) = (table.shown hidden).filter (· ≠ t.text) := by
      rw [shown, shown, List.filter_filter]
      refine List.filter_congr fun n _ => ?_
      simp only [List.mem_cons, not_or, Bool.decide_and, ne_eq]
    rw [hshown]
    exact List.length_filter_lt_length_iff_exists.2 ⟨t.text, hmem, by simp⟩
  · cases h

/-- What a token stands for in the end. -/
def unfold (table : Table) (hidden : List Text) (t : Token) : List Token :=
  match _h : table.visible? hidden t with
  | none => [t]
  | some d => d.body.flatMap fun u => unfold table (t.text :: hidden) u
termination_by (table.shown hidden).length
decreasing_by exact length_shown_lt _h

/-- How many replacements it takes to unfold a token. -/
def replacements (table : Table) (hidden : List Text) (t : Token) : Nat :=
  match _h : table.visible? hidden t with
  | none => 0
  | some d => (d.body.map fun u => replacements table (t.text :: hidden) u).sum + 1
termination_by (table.shown hidden).length
decreasing_by exact length_shown_lt _h

/-- A token that is not visible is not unfolded. -/
theorem unfold_of_none (h : table.visible? hidden t = none) : table.unfold hidden t = [t] := by
  rw [unfold]
  split
  · rfl
  · rename_i hd
    rw [h] at hd
    cases hd

/-- A visible token is unfolded to its body, where its name is hidden. -/
theorem unfold_of_some (h : table.visible? hidden t = some d) :
    table.unfold hidden t = d.body.flatMap (table.unfold (t.text :: hidden)) := by
  rw [unfold]
  split
  · rename_i hd
    rw [h] at hd
    cases hd
  · rename_i d' hd
    rw [h] at hd
    rw [Option.some.inj hd]

/-- A token that is not visible takes no replacement. -/
theorem replacements_of_none (h : table.visible? hidden t = none) :
    table.replacements hidden t = 0 := by
  rw [replacements]
  split
  · rfl
  · rename_i hd
    rw [h] at hd
    cases hd

/-- A visible token takes one replacement, and those of its body. -/
theorem replacements_of_some (h : table.visible? hidden t = some d) :
    table.replacements hidden t =
      (d.body.map (table.replacements (t.text :: hidden))).sum + 1 := by
  rw [replacements]
  split
  · rename_i hd
    rw [h] at hd
    cases hd
  · rename_i d' hd
    rw [h] at hd
    rw [Option.some.inj hd]

end Table

namespace Expansion

variable {ctx : Context}

/-- The items to be replaced are those that are visible. -/
theorem candidate?_eq_visible? (table : Table) (i : Item) :
    candidate? table i = table.visible? i.hidden i.token := by
  rw [candidate?, Table.visible?, Token.isIdent]
  by_cases hkind : i.token.kind = .ident <;> by_cases hhidden : i.token.text ∈ i.hidden <;>
    simp [hkind, hhidden]

/-- A candidate stands in the table under the name of its item. -/
theorem mem_of_candidate? {table : Table} {i : Item} {d : Definition}
    (h : candidate? table i = some d) : d ∈ table.entries ∧ d.name = i.token.text := by
  rw [candidate?] at h
  split at h
  · exact Table.find?_eq_some h
  · cases h

/-- What the items stand for in the end. -/
def unfoldAll (table : Table) (is : List Item) : List Token :=
  is.flatMap fun i => table.unfold i.hidden i.token

/-- How many replacements it takes to unfold the items. -/
def replacementsIn (table : Table) (is : List Item) : Nat :=
  (is.map fun i => table.replacements i.hidden i.token).sum

/-- The items that replace an item stand for what it stands for, and one replacement
fewer is needed. -/
theorem unfoldAll_replace {table : Table} {d : Definition} {i : Item}
    (h : candidate? table i = some d) (tail : List Item) :
    let new := d.body.map fun t =>
      ({ token := t, hidden := d.name :: i.hidden, span := i.span, produced := true } : Item)
    unfoldAll table (new ++ tail) = unfoldAll table (i :: tail) ∧
      replacementsIn table (new ++ tail) + 1 = replacementsIn table (i :: tail) := by
  have hname := (mem_of_candidate? h).2
  rw [candidate?_eq_visible?] at h
  have hitems {α : Type} (f : List Text → Token → α) :
      (d.body.map fun t =>
        ({ token := t, hidden := d.name :: i.hidden, span := i.span, produced := true } : Item)).map
          (fun j => f j.hidden j.token) = d.body.map (f (i.token.text :: i.hidden)) := by
    rw [List.map_map, hname]
    rfl
  constructor
  · rw [unfoldAll, unfoldAll, List.flatMap_append, List.flatMap_cons, Table.unfold_of_some h,
      List.flatMap_def, hitems, ← List.flatMap_def]
  · rw [replacementsIn, replacementsIn, List.map_append, List.sum_append, List.map_cons,
      List.sum_cons, Table.replacements_of_some h, hitems]
    omega

/-- **Working through a list of items unfolds them**, if the budget allows for it. -/
theorem expandFrom_eq_unfold (htable : ∀ d ∈ ctx.table.entries, d.IsVerbatim) (expand : Expander)
    (budget : Int) (done : Outcome) (pending : List Item)
    (hbudget : (replacementsIn ctx.table pending : Int) ≤ budget) :
    let r := expandFrom ctx expand budget done pending
    r.items.map Item.token = done.items.reverse.map Item.token ++ unfoldAll ctx.table pending ∧
      r.reports = done.reports ∧ r.counter = done.counter := by
  -- a candidate costs one replacement at least, so it never meets an empty budget
  have hpos {budget : Int} {i : Item} {tail : List Item} {d : Definition}
      (hd : candidate? ctx.table i = some d)
      (h : (replacementsIn ctx.table (i :: tail) : Int) ≤ budget) : 0 < budget := by
    have := (unfoldAll_replace hd tail).2
    omega
  fun_induction expandFrom ctx expand budget done pending with
  | case1 budget done => simp [unfoldAll]
  | case2 budget done i tail hi ih =>
    have hunfold : ctx.table.unfold i.hidden i.token = [i.token] :=
      Table.unfold_of_none (candidate?_eq_visible? .. ▸ hi)
    have hbudget' : (replacementsIn ctx.table tail : Int) ≤ budget := by
      rw [replacementsIn, List.map_cons, List.sum_cons] at hbudget
      rw [replacementsIn]
      omega
    obtain ⟨htokens, hreports, hcounter⟩ := ih hbudget'
    refine ⟨?_, hreports, hcounter⟩
    rw [htokens, unfoldAll, unfoldAll, List.flatMap_cons, hunfold]
    simp
  -- only a function can be passed on with items behind it
  | case3 budget done i tail d hd hbudget' size reports hi ih =>
    rw [invoke_of_isVerbatim (htable d (mem_of_candidate? hd).1)] at hi
    cases hi
  | case4 budget done i tail d hd hbudget' size new e spent counter reports hi ih =>
    rw [invoke_of_isVerbatim (htable d (mem_of_candidate? hd).1)] at hi
    obtain ⟨rfl, rfl, rfl, rfl, rfl, rfl⟩ := Action.replace.inj hi
    obtain ⟨hunfold, hcount⟩ := unfoldAll_replace hd tail
    rw [List.drop_zero] at ih ⊢
    obtain ⟨htokens, hreports, hcounter⟩ := ih (by omega)
    refine ⟨?_, ?_, hcounter⟩
    · rw [htokens, hunfold]
    · rw [hreports, List.append_nil]
  | case5 done i tail d hd _ ih => exact absurd (hpos hd hbudget) (by omega)
  | case6 budget done i tail d hd hle _ ih => exact absurd (hpos hd hbudget) hle

/-- In a line nothing is hidden to begin with. -/
theorem map_ofTokens {α : Type} (f : List Text → Token → α) (ts : List Token) :
    (Item.ofTokens ts).map (fun i => f i.hidden i.token) = ts.map (f []) := by
  refine List.ext_getElem? fun n => ?_
  rw [List.getElem?_map, List.getElem?_map, Item.getElem?_ofTokens]
  cases ts[n]? <;> rfl

end Expansion

/-- **Expansion of objects is unfolding.**  If all definitions of the table are objects
that were read without `##`, in circles or not, and the tokens need no more replacements
than a line may ask for, then each token goes to what it unfolds to, and no error is
reported. -/
theorem expandTokens_eq_unfold (ctx : Expansion.Context) (counter : Nat) (ts : List Token)
    (htable : ∀ d ∈ ctx.table.entries,
      (∃ operand file line, Definition.read operand file line = .ok d) ∧ d.shape = .object ∧
        ∀ t ∈ d.body, Expansion.isPaste t = false)
    (hcount : ((ts.map (ctx.table.replacements [])).sum : Int) ≤ Expansion.replacementLimit) :
    (expandTokens ctx counter ts).tokens = ts.flatMap (ctx.table.unfold []) ∧
      (expandTokens ctx counter ts).errors = [] ∧
      (expandTokens ctx counter ts).counter = counter := by
  have hverbatim : ∀ d ∈ ctx.table.entries, d.IsVerbatim := by
    intro d hd
    obtain ⟨⟨operand, file, line, hread⟩, hshape, hpaste⟩ := htable d hd
    exact Definition.isVerbatim_of_read hread hshape hpaste
  have hbudget : (Expansion.replacementsIn ctx.table (Expansion.Item.ofTokens ts) : Int) ≤
      Expansion.replacementLimit := by
    rwa [Expansion.replacementsIn, Expansion.map_ofTokens]
  obtain ⟨htokens, hreports, hcounter⟩ := Expansion.expandFrom_eq_unfold hverbatim
    (Expansion.expandWithin ctx 64) Expansion.replacementLimit { counter } _ hbudget
  refine ⟨?_, ?_, hcounter⟩
  · rw [Expansion.unfoldAll, List.flatMap_def, Expansion.map_ofTokens, ← List.flatMap_def] at htokens
    exact htokens
  · rw [expandTokens, List.map_eq_nil_iff]
    exact hreports

/-- Two objects that refer to each other. -/
def ring : List Definition :=
  [{ name := ['A'], body := [⟨.ident, ['B'], 0⟩] },
    { name := ['B'], body := [⟨.ident, ['A'], 0⟩, ⟨.punctuator, ['+'], 1⟩, ⟨.number, ['1'], 2⟩] }]

/-- A circle is gone through once. -/
theorem expandTokens_ring :
    (∀ d ∈ (Table.ofList ring).entries,
      (∃ operand file line, Definition.read operand file line = .ok d) ∧ d.shape = .object ∧
        ∀ t ∈ d.body, Expansion.isPaste t = false) ∧
    (Table.ofList ring).replacements [] ⟨.ident, ['A'], 0⟩ = 2 ∧
    (expandTokens ⟨Table.ofList ring, "board.dts", 1⟩ 0 [⟨.ident, ['A'], 0⟩]).tokens =
      [⟨.ident, ['A'], 0⟩, ⟨.punctuator, ['+'], 1⟩, ⟨.number, ['1'], 2⟩] := by
  have htable : ∀ d ∈ (Table.ofList ring).entries,
      (∃ operand file line, Definition.read operand file line = .ok d) ∧ d.shape = .object ∧
        ∀ t ∈ d.body, Expansion.isPaste t = false := by
    have hentries : (Table.ofList ring).entries = ring := rfl
    have hfirst : tokenize ['B'] = [⟨.ident, ['B'], 0⟩] := by
      have hB : Lexeme.read 0 'B' [] = ⟨.ident, ['B'], 1, none⟩ := rfl
      simp [tokenize, tokenizeFrom, hB]
    have hsecond : tokenize ['A', '+', '1'] =
        [⟨.ident, ['A'], 0⟩, ⟨.punctuator, ['+'], 1⟩, ⟨.number, ['1'], 2⟩] := by
      have hA : Lexeme.read 0 'A' ['+', '1'] = ⟨.ident, ['A'], 1, none⟩ := rfl
      have hplus : Lexeme.read 1 '+' ['1'] = ⟨.punctuator, ['+'], 1, none⟩ := rfl
      have hone : Lexeme.read 2 '1' [] = ⟨.number, ['1'], 1, none⟩ := rfl
      simp [tokenize, tokenizeFrom, hA, hplus, hone]
    rw [hentries]
    refine List.forall_mem_cons.2 ⟨⟨⟨"A B".toList, none, none, ?_⟩, rfl, by decide⟩, ?_⟩
    · have hread : Definition.read "A B".toList none none =
          .ok { name := ['A'], body := trimWhite (tokenize ['B']) } := rfl
      rw [hread, hfirst]
      rfl
    · refine List.forall_mem_cons.2 ⟨⟨⟨"B A+1".toList, none, none, ?_⟩, rfl, by decide⟩,
        List.forall_mem_nil _⟩
      have hread : Definition.read "B A+1".toList none none =
          .ok { name := ['B'], body := trimWhite (tokenize ['A', '+', '1']) } := rfl
      rw [hread, hsecond]
      rfl
  -- the name is replaced, then the other one, and then both are hidden
  have hA : (Table.ofList ring).visible? [] ⟨.ident, ['A'], 0⟩ = ring[0]? := rfl
  have hB : (Table.ofList ring).visible? [['A']] ⟨.ident, ['B'], 0⟩ = ring[1]? := rfl
  have hnone : ∀ t ∈ [⟨.ident, ['A'], 0⟩, ⟨.punctuator, ['+'], 1⟩, ⟨.number, ['1'], 2⟩],
      (Table.ofList ring).visible? [['B'], ['A']] t = none := by
    decide
  have hcount : (Table.ofList ring).replacements [] ⟨.ident, ['A'], 0⟩ = 2 := by
    rw [Table.replacements_of_some hA, List.map_singleton, Table.replacements_of_some hB,
      List.map_congr_left fun t ht => Table.replacements_of_none (hnone t ht)]
    rfl
  have hunfold : (Table.ofList ring).unfold [] ⟨.ident, ['A'], 0⟩ =
      [⟨.ident, ['A'], 0⟩, ⟨.punctuator, ['+'], 1⟩, ⟨.number, ['1'], 2⟩] := by
    rw [Table.unfold_of_some hA, List.flatMap_singleton, Table.unfold_of_some hB, List.flatMap_def,
      List.map_congr_left fun t ht => Table.unfold_of_none (hnone t ht)]
    rfl
  have htokens := (expandTokens_eq_unfold ⟨Table.ofList ring, "board.dts", 1⟩ 0
    [⟨.ident, ['A'], 0⟩] htable (by rw [List.map_singleton, hcount]; decide)).1
  rw [List.flatMap_singleton, hunfold] at htokens
  exact ⟨htable, hcount, htokens⟩

end DevicetreePrep
