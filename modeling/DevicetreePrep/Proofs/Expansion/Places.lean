/-
# Expansion does not depend on places

A definition remembers the file and the line that it was read from, and expansion
knows the file and the line that it is in.  Neither matters to what a line expands
to, unless the builtins for the current file and the current line are defined
(`Table.Hides`).  To say so, places are forgotten: expansion in a context that knows
less (`Context.Blurs`) gives the outcome with definitions without places
(`expand_blurred`).  Hence two contexts with the same table, places apart, expand
tokens to the same tokens (`expandTokens_blurred`), give conditions the same value
(`evaluate_blurred`) and put out the same text for a line (`expandLine_blurred`,
`text_build_unplaced`).
-/

import DevicetreePrep.Expression
import DevicetreePrep.Proofs.Definition.Places
import DevicetreePrep.Proofs.Expansion.Events
import DevicetreePrep.Proofs.Expansion.Unfolding

namespace DevicetreePrep

namespace Expansion

/-- The context `ctx'` is `ctx` without the places of the definitions.  It may be in
another place, if no builtin of the table shows that. -/
structure Context.Blurs (ctx' ctx : Context) : Prop where
  table : ctx'.table = ctx.table.unplaced
  file : ctx'.file ≠ ctx.file → ctx.table.Hides .places
  line : ctx'.line ≠ ctx.line → ctx.table.Hides .numbers

/-! What a replacement is made of does not depend on places. -/

/-- The parts of a definition do not show its place. -/
theorem parts_unplaced (d : Definition) : parts d.unplaced = parts d := by
  have hroles : Corresponds d.unplaced d id Eq d.body :=
    { isWhite := fun _ => rfl
      isIdent := fun _ => rfl
      isPunct := fun _ _ => rfl
      takes := fun _ _ _ => rfl
      tiesComma := fun _ _ _ => rfl
      paste := rfl
      token := fun _ _ _ => rfl
      stringize := fun _ _ _ => rfl
      commaRest := fun _ _ _ _ _ _ => rfl
      operand := fun _ _ _ => rfl
      parameter := fun _ _ _ => rfl }
  have hparts := hroles.forall₂_partsFrom none (List.Subset.refl _)
  rwa [List.forall₂_eq_eq_eq, List.map_id] at hparts

variable {ctx ctx' : Context} {expand expand' : Expander}

/-- The parts of a definition are put together without regard to its place. -/
theorem substitute_unplaced (h : Expander.Maps Definition.unplaced expand' expand) (budget : Int)
    (counter : Nat) (d : Definition) (args : Arguments) (i : Item) (taken : List Item)
    (hide : List Text) :
    substitute expand' budget counter d.unplaced args i taken hide =
      (substitute expand budget counter d args i taken hide).map Definition.unplaced :=
  substitute_map h rfl (parts_unplaced d) budget counter args i taken hide

/-- A builtin of the table stands for the same in both contexts. -/
theorem builtinToken_blurred (hctx : ctx'.Blurs ctx) {d : Definition} (hd : d ∈ ctx.table.entries)
    (hshape : d.shape = .builtin) {t : Token} (ht : d.name = t.text) (counter : Nat) :
    builtinToken ctx' counter t = builtinToken ctx counter t := by
  have hline : t.text = "__LINE__".toList → ctx'.line = ctx.line := by
    intro htext
    by_contra hne
    exact (hctx.line hne d hd hshape).2 (ht.trans htext)
  have hfile : t.text = "__FILE__".toList → ctx'.file = ctx.file := by
    intro htext
    by_contra hne
    exact (hctx.file hne d hd hshape).1 rfl (ht.trans htext)
  unfold builtinToken
  split
  · rename_i htext
    rw [hline htext]
  · split
    · rfl
    · split
      · rename_i htext
        rw [hfile htext]
      · rfl

/-- **A definition is carried out without regard to places.** -/
theorem invoke_blurred (hctx : ctx'.Blurs ctx)
    (h : Expander.Maps Definition.unplaced expand' expand) {d : Definition} {i : Item}
    (hd : d ∈ ctx.table.entries) (hname : d.name = i.token.text) (budget : Int) (counter : Nat)
    (tail : List Item) :
    invoke ctx' expand' budget counter d.unplaced i tail =
      (invoke ctx expand budget counter d i tail).map Definition.unplaced := by
  have hshape : d.unplaced.shape = d.shape := rfl
  rw [invoke, invoke, hshape]
  cases hs : d.shape with
  | builtin =>
    dsimp only
    rw [builtinToken_blurred hctx hd hs hname]
    rfl
  | object => exact substitute_unplaced h budget counter d {} i [] i.hidden
  | function fixed rest =>
    dsimp only
    cases Call.following tail with
    | absent => rfl
    | unclosed => rfl
    | call c =>
      dsimp only
      cases Arguments.bind fixed rest c with
      | error given => rfl
      | ok args => exact substitute_unplaced h budget counter d args i _ _

/-- A candidate is one without its place, too. -/
theorem candidate?_unplaced (table : Table) (i : Item) :
    candidate? table.unplaced i = (candidate? table i).map Definition.unplaced := by
  rw [candidate?, candidate?, Table.find?_unplaced]
  split <;> rfl

/-- In a context that knows less, a definition without its place does what it does with
it. -/
theorem Context.Blurs.maps (hctx : ctx'.Blurs ctx) : Context.Maps Definition.unplaced ctx' ctx := by
  refine ⟨fun i => ?_, fun {expand' expand} h {i d} hi budget counter tail => ?_⟩
  · rw [hctx.table, candidate?_unplaced]
  · obtain ⟨hmem, hname⟩ := mem_of_candidate? hi
    exact invoke_blurred hctx h hmem hname budget counter tail

/-- **The outcome of expansion does not depend on places.** -/
theorem expand_blurred (hctx : ctx'.Blurs ctx) (counter : Nat) (tokens : List Token) :
    Expansion.expand ctx' counter tokens =
      (Expansion.expand ctx counter tokens).map Definition.unplaced :=
  expandWithin_map hctx.maps levelLimit _ _ _

/-- The group without the place of its definition. -/
def Group.unplaced (g : Group) : Group :=
  { g with definition := g.definition.unplaced }

/-- A replacement joins its group without regard to places. -/
theorem Group.add_unplaced (gs : List Group) (e : Event) :
    Group.add (gs.map Group.unplaced) (e.map Definition.unplaced) =
      (Group.add gs e).map Group.unplaced := by
  cases gs with
  | nil => rfl
  | cons g gs =>
    rw [List.map_cons, Group.add, Group.add]
    have hspan : (e.map Definition.unplaced).span = e.span ∧ g.unplaced.span = g.span :=
      ⟨rfl, rfl⟩
    rw [hspan.1, hspan.2]
    split <;> rfl

/-- Replacements are grouped without regard to places. -/
theorem Group.ofEvents_unplaced (events : List Event) :
    Group.ofEvents (events.map (Event.map Definition.unplaced)) =
      (Group.ofEvents events).map Group.unplaced := by
  let sorted := events.mergeSort fun e f => e.span.lo ≤ f.span.lo
  have hsort : (events.map (Event.map Definition.unplaced)).mergeSort
      (fun e f => e.span.lo ≤ f.span.lo) = sorted.map (Event.map Definition.unplaced) := by
    symm
    exact List.map_mergeSort fun _ _ _ _ => rfl
  have hfold (es : List Event) (gs : List Group) :
      (es.map (Event.map Definition.unplaced)).foldl Group.add (gs.map Group.unplaced) =
        (es.foldl Group.add gs).map Group.unplaced := by
    induction es generalizing gs with
    | nil => rfl
    | cons e es ih => rw [List.map_cons, List.foldl_cons, Group.add_unplaced, ih, List.foldl_cons]
  rw [Group.ofEvents, Group.ofEvents, hsort, List.map_reverse]
  exact congrArg List.reverse (hfold sorted [])

end Expansion

/-- The substitution without the place of its definition. -/
def Substitution.unplaced (s : Substitution) : Substitution :=
  { s with definition := s.definition.unplaced }

open Expansion

/-- Groups give the same substitutions without the places of the definitions. -/
theorem Expansion.Group.substitutions_unplaced (raw : Text) (tokens : List Token)
    (items : List Item) (gs : List Group) :
    Group.substitutions raw tokens items (gs.map Group.unplaced) =
      (Group.substitutions raw tokens items gs).map Substitution.unplaced := by
  induction gs with
  | nil => rfl
  | cons g gs ih =>
    have hnext : Group.insertOf items g.unplaced (gs.map Group.unplaced).head? =
        Group.insertOf items g gs.head? := by
      cases gs <;> rfl
    rw [List.map_cons, Group.substitutions, ih, hnext]
    rfl

variable {ctx ctx' : Context}

/-- **Tokens expand to the same tokens in every place.** -/
theorem expandTokens_blurred (hctx : ctx'.Blurs ctx) (counter : Nat) (tokens : List Token) :
    expandTokens ctx' counter tokens = expandTokens ctx counter tokens :=
  expandTokens_map hctx.maps counter tokens

/-- **A line expands to the same text in every place**, and its substitutions differ in the places
of their definitions alone. -/
theorem expandLine_blurred (hctx : ctx'.Blurs ctx) (counter : Nat) (raw : Text)
    (tokens : List Token) :
    expandLine ctx' counter raw tokens =
      { expandLine ctx counter raw tokens with
        subs := (expandLine ctx counter raw tokens).subs.map Substitution.unplaced } := by
  rw [expandLine, expandLine, expand_blurred hctx]
  simp only [Outcome.map, Group.ofEvents_unplaced, Group.substitutions_unplaced]

/-- The text of a line does not depend on the places of the definitions. -/
theorem Line.text_build_unplaced (raw base : Text) (number : Int) (file : String)
    (subs : List Substitution) :
    (Line.build raw base number file (subs.map Substitution.unplaced)).text =
      (Line.build raw base number file subs).text := by
  have hsort (le : Nat → Nat → Bool) (subs : List Substitution) :
      (subs.map Substitution.unplaced).mergeSort (fun s t => le s.start t.start) =
        (subs.mergeSort fun s t => le s.start t.start).map Substitution.unplaced := by
    symm
    exact List.map_mergeSort fun _ _ _ _ => rfl
  have hup := hsort (fun m n => m ≤ n) subs
  have hdown := hsort (fun m n => n ≤ m) (subs.mergeSort fun s t => s.start ≤ t.start)
  rw [Line.build, Line.build]
  simp only [Substitution.applyAll, hup, hdown, List.foldl_map]
  rfl

/-- Whether a name is defined does not depend on places. -/
theorem Expression.answerDefined_unplaced (table : Table) (ts : List Token) :
    answerDefined table.unplaced ts = answerDefined table ts := by
  fun_induction answerDefined table ts with
  | case1 => rw [answerDefined]
  | case2 t rest hdefined hnone =>
    rw [answerDefined, if_pos hdefined]
    split
    · rfl
    · rename_i hname
      cases hnone.symm.trans hname
  | case3 t rest hdefined name rest' hname text ih =>
    rw [answerDefined, if_pos hdefined]
    split
    · rename_i hnone
      cases hname.symm.trans hnone
    · rename_i hname'
      obtain ⟨rfl, rfl⟩ := Prod.mk.inj (Option.some.inj (hname.symm.trans hname'))
      rw [ih, Table.contains_unplaced]
      cases hcontains : table.contains name <;> simp [text, hcontains]
  | case4 t rest hdefined ih => rw [answerDefined, if_neg hdefined, ih]

/-- **A condition has the same value in every place.** -/
theorem Expression.evaluate_blurred (hctx : ctx'.Blurs ctx) (counter : Nat)
    (ts : List Token) : evaluate ctx' counter ts = evaluate ctx counter ts := by
  simp only [evaluate, hctx.table, answerDefined_unplaced, expandTokens_blurred hctx]

end DevicetreePrep
