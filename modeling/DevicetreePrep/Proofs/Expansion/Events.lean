/-
# Expansion over definitions that do the same

The outcome of an expansion names definitions in one place only: each replacement that
took place says which definition was replaced.  So if every definition of a table is
exchanged for one that does the same wherever it is replaced (`Context.Maps`), then the
outcome is the same, with the new definitions in its events (`expandWithin_map`).  The
tokens that come out do not show the difference (`expandTokens_map`).
-/

import DevicetreePrep.Expansion

namespace DevicetreePrep
namespace Expansion

/-- The replacement, told with another definition. -/
def Event.map (f : Definition → Definition) (e : Event) : Event :=
  { e with definition := f e.definition }

/-- The outcome, told with other definitions. -/
def Outcome.map (f : Definition → Definition) (o : Outcome) : Outcome :=
  { o with events := o.events.map (Event.map f) }

/-- The action, told with another definition. -/
def Action.map (f : Definition → Definition) : Action → Action
  | .pass size reports => .pass size reports
  | .replace size items event spent counter reports =>
    .replace size items (event.map f) spent counter reports

/-- An expander has the outcomes of another one, told with other definitions. -/
def Expander.Maps (f : Definition → Definition) (expand' expand : Expander) : Prop :=
  ∀ budget counter items, expand' budget counter items = (expand budget counter items).map f

variable {f : Definition → Definition} {ctx ctx' : Context} {expand expand' : Expander}

/-- Parts are filled in without regard to how outcomes are told. -/
theorem Filling.step_of_maps (h : Expander.Maps f expand' expand) (budget : Int)
    (args : Arguments) : Filling.step expand' budget args = Filling.step expand budget args := by
  funext filling part
  cases part with
  | parameter name =>
    rw [Filling.step, Filling.step, h]
    rfl
  | _ => rfl

/-- A definition that has the name and the parts of another one is replaced in the same
way. -/
theorem substitute_map (h : Expander.Maps f expand' expand) {d : Definition}
    (hname : (f d).name = d.name) (hparts : parts (f d) = parts d) (budget : Int) (counter : Nat)
    (args : Arguments) (i : Item) (taken : List Item) (hide : List Text) :
    substitute expand' budget counter (f d) args i taken hide =
      (substitute expand budget counter d args i taken hide).map f := by
  rw [substitute, substitute, hname, hparts, Filling.step_of_maps h]
  rfl

/-- In the context `ctx'` the definition `f d` does what `d` does in the context `ctx`. -/
structure Context.Maps (f : Definition → Definition) (ctx' ctx : Context) : Prop where
  candidate? : ∀ i, Expansion.candidate? ctx'.table i = (Expansion.candidate? ctx.table i).map f
  invoke : ∀ {expand' expand}, Expander.Maps f expand' expand → ∀ {i d},
    Expansion.candidate? ctx.table i = some d → ∀ budget counter tail,
      Expansion.invoke ctx' expand' budget counter (f d) i tail =
        (Expansion.invoke ctx expand budget counter d i tail).map f

/-- **Items are expanded in the same way** over definitions that do the same. -/
theorem expandFrom_map (hctx : Context.Maps f ctx' ctx) (h : Expander.Maps f expand' expand)
    (budget : Int) (done : Outcome) (pending : List Item) :
    expandFrom ctx' expand' budget (done.map f) pending =
      (expandFrom ctx expand budget done pending).map f := by
  have hcounter (o : Outcome) : (o.map f).counter = o.counter := rfl
  fun_induction expandFrom ctx expand budget done pending with
  | case1 budget done =>
    rw [expandFrom]
    simp only [Outcome.map, List.map_reverse]
  | case2 budget done i tail hi ih =>
    rw [expandFrom, hctx.candidate?, hi]
    exact ih
  | case3 budget done i tail d hi hb size reports ha ih =>
    rw [expandFrom, hctx.candidate?, hi, Option.map_some]
    dsimp only
    rw [dif_pos hb, hcounter, hctx.invoke h hi, ha]
    exact ih
  | case4 budget done i tail d hi hb size items event spent counter reports ha ih =>
    rw [expandFrom, hctx.candidate?, hi, Option.map_some]
    dsimp only
    rw [dif_pos hb, hcounter, hctx.invoke h hi, ha]
    exact ih
  | case5 done i tail d hi hb ih =>
    rw [expandFrom, hctx.candidate?, hi, Option.map_some]
    dsimp only
    rw [dif_neg hb, dif_pos rfl]
    exact ih
  | case6 budget done i tail d hi hb hz ih =>
    rw [expandFrom, hctx.candidate?, hi, Option.map_some]
    dsimp only
    rw [dif_neg hb, dif_neg hz]
    exact ih

/-- **Each level expands in the same way** over definitions that do the same. -/
theorem expandWithin_map (hctx : Context.Maps f ctx' ctx) (levels : Nat) :
    Expander.Maps f (expandWithin ctx' levels) (expandWithin ctx levels) := by
  induction levels with
  | zero => exact fun _ _ _ => rfl
  | succ levels ih =>
    exact fun budget counter items => expandFrom_map hctx ih budget { counter } items

end Expansion

/-- **Tokens expand to the same tokens** over definitions that do the same. -/
theorem expandTokens_map {f : Definition → Definition} {ctx ctx' : Expansion.Context}
    (hctx : Expansion.Context.Maps f ctx' ctx) (counter : Nat) (tokens : List Token) :
    expandTokens ctx' counter tokens = expandTokens ctx counter tokens := by
  have hexpand : Expansion.expand ctx' counter tokens =
      (Expansion.expand ctx counter tokens).map f :=
    Expansion.expandWithin_map hctx Expansion.levelLimit _ _ _
  rw [expandTokens, expandTokens, hexpand]
  rfl

end DevicetreePrep
