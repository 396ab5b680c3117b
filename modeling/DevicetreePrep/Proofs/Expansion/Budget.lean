/-
# Expansion ends within its budget

On each level a loop takes the items from the front and puts replacements back there, so
what waits may grow with every pass.  `Loop.pass` is one pass of it, and after finitely
many nothing waits any more (`Loop.ends_expandFrom`); each pass may run the loops of
the level below, for the arguments of a call, and there are `levelLimit` levels.

An expander is used for line after line, and the budget that it holds is the one that the
last line left (`Session`).  A line without anything to replace is given back at once, and
the budget is not filled up for it.  So the bounds on the budget are an invariant of the
session (`Session.Reachable.isBounded`).  They come from the books of a line: every
replacement takes one from the budget, the report of a used up budget takes one more, and
a level of arguments can overdraw it by one replacement.
-/

import DevicetreePrep.Proofs.Expansion.Block
import DevicetreePrep.Proofs.Expansion.Ledger
import Mathlib.Logic.Function.Iterate

namespace DevicetreePrep
namespace Expansion

/-- The loop over the items of a level. -/
structure Loop where
  budget : Int
  /-- What is finished.  The lists run backwards, except for the reports. -/
  done : Outcome
  pending : List Item

namespace Loop

variable {ctx : Context} {expand : Expander}

/-- The loop before its first pass. -/
def start (budget : Int) (counter : Nat) (items : List Item) : Loop :=
  ⟨budget, { counter }, items⟩

/-- What the loop gives once it is left. -/
def outcome (l : Loop) : Outcome :=
  { l.done with items := l.done.items.reverse, events := l.done.events.reverse }

/-- One pass, if something is waiting. -/
def pass (ctx : Context) (expand : Expander) (l : Loop) : Loop :=
  match l.pending with
  | [] => l
  | i :: tail =>
    match candidate? ctx.table i with
    | none => { l with done.items := i :: l.done.items, pending := tail }
    | some d =>
      if 0 < l.budget then
        match invoke ctx expand l.budget l.done.counter d i tail with
        | .pass size reports =>
          { l with
            done.items := (i :: tail.take size).reverse ++ l.done.items
            done.reports := l.done.reports ++ reports
            pending := tail.drop size }
        | .replace size items event spent counter reports =>
          { budget := l.budget - (spent + 1)
            done :=
              { l.done with
                events := event :: l.done.events
                spent := l.done.spent + (spent + 1)
                counter
                reports := l.done.reports ++ reports }
            pending := items ++ tail.drop size }
      else if l.budget = 0 then
        { budget := -1
          done :=
            { l.done with
              items := i :: l.done.items
              spent := l.done.spent + 1
              reports := l.done.reports ++ [⟨.tooManyReplacements, some i.span.lo⟩] }
          pending := tail }
      else { l with done.items := i :: l.done.items, pending := tail }

/-- After finitely many passes nothing waits any more, and the loop gives this. -/
def Ends (ctx : Context) (expand : Expander) (l : Loop) (r : Outcome) : Prop :=
  ∃ n, ((pass ctx expand)^[n] l).pending = [] ∧ ((pass ctx expand)^[n] l).outcome = r

/-- A loop ends where it ends one pass later. -/
theorem Ends.of_pass {l : Loop} {r : Outcome} (h : (l.pass ctx expand).Ends ctx expand r) :
    l.Ends ctx expand r := by
  obtain ⟨n, h⟩ := h
  refine ⟨n + 1, ?_⟩
  rwa [Function.iterate_succ_apply]

/-- **The loop is left after finitely many passes**, and gives what the expansion of its
items gives. -/
theorem ends_expandFrom (ctx : Context) (expand : Expander) (budget : Int) (done : Outcome)
    (pending : List Item) :
    Ends ctx expand ⟨budget, done, pending⟩ (expandFrom ctx expand budget done pending) := by
  -- the recursion of the expansion takes the passes one by one, and is known to end
  fun_induction expandFrom ctx expand budget done pending with
  | case1 budget done => exact ⟨0, rfl, rfl⟩
  | case2 budget done i tail hi ih =>
    refine .of_pass ?_
    simpa only [pass, hi] using ih
  | case3 budget done i tail d hd hb size reports hi ih =>
    refine .of_pass ?_
    simpa only [pass, hd, if_pos hb, hi] using ih
  | case4 budget done i tail d hd hb size items e spent counter reports hi ih =>
    refine .of_pass ?_
    simpa only [pass, hd, if_pos hb, hi] using ih
  | case5 done i tail d hd hb ih =>
    refine .of_pass ?_
    simpa only [pass, hd, if_neg hb, if_true] using ih
  | case6 budget done i tail d hd hle hne ih =>
    refine .of_pass ?_
    simpa only [pass, hd, if_neg hle, if_neg hne] using ih

end Loop

/-- Whether a token of a line may be replaced. -/
def isCandidate (table : Table) (t : Token) : Bool :=
  t.isIdent && (table.find? t.text).isSome

/-- Where no token is a candidate, no item of the line is one. -/
theorem candidate?_eq_none_of_mem {tokens : List Token} {table : Table}
    (h : tokens.any (isCandidate table) = false) {i : Item} (hi : i ∈ Item.ofTokens tokens) :
    candidate? table i = none := by
  have hmem : i.token ∈ tokens := by
    rw [← Item.map_token_ofTokens tokens]
    exact List.mem_map_of_mem hi
  have htoken := List.any_eq_false.1 h _ hmem
  rw [isCandidate, Bool.and_eq_true, not_and] at htoken
  unfold candidate?
  split
  · rename_i hident
    exact Option.not_isSome_iff_eq_none.1 (htoken (Bool.and_eq_true_iff.1 hident).1)
  · rfl

/-- A line without anything to replace costs nothing and reports nothing. -/
theorem expand_of_not_any {ctx : Context} {tokens : List Token}
    (h : tokens.any (isCandidate ctx.table) = false) (counter : Nat) :
    expand ctx counter tokens = { items := Item.ofTokens tokens, counter } :=
  expandFrom_of_forall (fun _ hi => candidate?_eq_none_of_mem h hi) _ _ { counter }

/-- **The replacements on all levels of a line**: no more than its budget, and one for
each level of arguments. -/
theorem countP_isReplaced_record_le (ctx : Context) (counter : Nat) (tokens : List Token) :
    ((record ctx counter tokens).countP Mark.isReplaced : Int) ≤
      replacementLimit + (levelLimit - 1) := by
  have hbounded := (account_record ctx counter tokens).bounded
  unfold replacementLimit levelLimit at *
  omega

/-- A line finds its budget just used up once at most. -/
theorem countP_isReported_record_le (ctx : Context) (counter : Nat) (tokens : List Token) :
    (record ctx counter tokens).countP Mark.isReported ≤ 1 := by
  have hledger := (account_record ctx counter tokens).ledger
  rw [hledger.countP_isReported_of_nonneg (by decide)]
  split <;> omega

end Expansion

open Expansion

/-- An expander between two lines. -/
structure Session where
  context : Context
  counter : Nat := 0
  errors : List ExpansionError := []
  /-- What the last line left of its budget. -/
  budget : Int := replacementLimit

namespace Session

/-- The session when a line with these tokens has been expanded. -/
def spend (s : Session) (tokens : List Token) : Session :=
  let r := expand s.context s.counter tokens
  { s with
    counter := r.counter
    errors := s.errors ++ r.reports.map (Report.locate tokens)
    budget := replacementLimit - r.spent }

/-- Expands a list of tokens. -/
def expandTokens (s : Session) (tokens : List Token) : List Token × Session :=
  ((DevicetreePrep.expandTokens s.context s.counter tokens).tokens, s.spend tokens)

/-- Expands a line, unless nothing in it may be replaced. -/
def expandLine (s : Session) (raw : Text) (tokens : List Token) : List Substitution × Session :=
  if tokens.any (isCandidate s.context.table) then
    ((DevicetreePrep.expandLine s.context s.counter raw tokens).subs, s.spend tokens)
  else ([], s)

/-- To give a line back at once makes no difference but for the budget: it is expanded as
any line is. -/
theorem expandLine_eq (s : Session) (raw : Text) (tokens : List Token) :
    let r := DevicetreePrep.expandLine s.context s.counter raw tokens
    (s.expandLine raw tokens).1 = r.subs ∧
      (s.expandLine raw tokens).2.counter = r.counter ∧
      (s.expandLine raw tokens).2.errors = s.errors ++ r.errors := by
  unfold expandLine
  split
  · exact ⟨rfl, rfl, rfl⟩
  · rename_i h
    unfold DevicetreePrep.expandLine
    rw [expand_of_not_any (Bool.not_eq_true _ ▸ h)]
    simp [Group.ofEvents, Group.substitutions]

/-- What an expander may come to: it is made for a table and a place, these and its
counter and errors are changed from outside, and it expands tokens and lines. -/
inductive Reachable : Session → Prop
  | new (context : Context) : Reachable { context }
  | changed {s : Session} (h : Reachable s) (context : Context) (counter : Nat)
      (errors : List ExpansionError) : Reachable { s with context, counter, errors }
  | tokens {s : Session} (h : Reachable s) (ts : List Token) : Reachable (s.expandTokens ts).2
  | line {s : Session} (h : Reachable s) (raw : Text) (ts : List Token) :
      Reachable (s.expandLine raw ts).2

/-- The budget is within its bounds. -/
def IsBounded (s : Session) : Prop :=
  -(levelLimit : Int) ≤ s.budget ∧ s.budget ≤ replacementLimit

variable {s : Session}

/-- **A line leaves what its replacements and its report have not used up.** -/
theorem budget_spend (s : Session) (tokens : List Token) :
    (s.spend tokens).budget = replacementLimit -
      (record s.context s.counter tokens).countP Mark.isReplaced -
      (record s.context s.counter tokens).countP Mark.isReported :=
  (account_record s.context s.counter tokens).ledger.left_eq

/-- What a line spends stays in bounds. -/
theorem isBounded_spend (s : Session) (tokens : List Token) : (s.spend tokens).IsBounded := by
  have hbudget := s.budget_spend tokens
  have hreplaced := countP_isReplaced_record_le s.context s.counter tokens
  have hreported := countP_isReported_record_le s.context s.counter tokens
  unfold IsBounded
  unfold replacementLimit levelLimit at *
  omega

/-- A line that is given back at once keeps the budget in its bounds. -/
theorem IsBounded.expandLine (h : s.IsBounded) (raw : Text) (tokens : List Token) :
    (s.expandLine raw tokens).2.IsBounded := by
  unfold Session.expandLine
  split
  · exact s.isBounded_spend tokens
  · exact h

/-- **The budget is within its bounds at all times.** -/
theorem Reachable.isBounded (h : s.Reachable) : s.IsBounded := by
  induction h with
  | new context =>
    show -(levelLimit : Int) ≤ replacementLimit ∧ replacementLimit ≤ replacementLimit
    decide
  | changed _ context counter errors ih => exact ih
  | tokens _ ts ih => exact isBounded_spend _ ts
  | line _ raw ts ih => exact ih.expandLine raw ts

/-- **Expansion ends within its budget.**  Whatever the definitions are, and whatever was
expanded before: on every level the loop over the items is left after finitely many
passes; a list of tokens or a line leaves a budget that is at most full, and overdrawn by
one for each level at most; and the replacements on all levels together are at most those
of a full budget and one for each level of arguments. -/
theorem expansion_within_budget (h : s.Reachable) (raw : Text) (tokens : List Token) :
    (∀ levels budget counter items,
      (Loop.start budget counter items).Ends s.context (expandWithin s.context levels)
        (expandWithin s.context (levels + 1) budget counter items)) ∧
      (-(levelLimit : Int) ≤ (s.expandTokens tokens).2.budget ∧
        (s.expandTokens tokens).2.budget ≤ replacementLimit) ∧
      (-(levelLimit : Int) ≤ (s.expandLine raw tokens).2.budget ∧
        (s.expandLine raw tokens).2.budget ≤ replacementLimit) ∧
      ((record s.context s.counter tokens).countP Mark.isReplaced : Int) ≤
        replacementLimit + (levelLimit - 1) := by
  refine ⟨?_, s.isBounded_spend tokens, h.isBounded.expandLine raw tokens, ?_⟩
  · intro levels budget counter items
    exact Loop.ends_expandFrom ..
  · exact countP_isReplaced_record_le ..

/-- A session with a function that calls itself twice, on the arguments of the call. -/
def selfCalling : Session where
  context :=
    { table := Table.ofList
        [{ name := ['f']
           shape := .function [] .anonymous
           body :=
            [⟨.ident, ['f'], 0⟩, ⟨.punctuator, ['('], 1⟩, ⟨.ident, restName, 2⟩,
              ⟨.punctuator, [')'], 13⟩, ⟨.punctuator, ['#', '#'], 14⟩, ⟨.ident, ['f'], 16⟩,
              ⟨.punctuator, ['('], 17⟩, ⟨.ident, restName, 18⟩, ⟨.punctuator, [')'], 29⟩] }]
      file := "board.dts"
      line := 1 }

/-- The call `f(f(f))` in the second line of a session: its budget stays within bounds. -/
theorem expansion_within_budget_self_calling :
    let s := (selfCalling.expandLine "f".toList [⟨.ident, ['f'], 0⟩]).2
    let call : List Token :=
      [⟨.ident, ['f'], 0⟩, ⟨.punctuator, ['('], 1⟩, ⟨.ident, ['f'], 2⟩, ⟨.punctuator, ['('], 3⟩,
        ⟨.ident, ['f'], 4⟩, ⟨.punctuator, [')'], 5⟩, ⟨.punctuator, [')'], 6⟩]
    s.Reachable ∧ -(levelLimit : Int) ≤ (s.expandTokens call).2.budget ∧
      ((record s.context s.counter call).countP Mark.isReplaced : Int) ≤
        replacementLimit + (levelLimit - 1) := by
  intro s call
  have hs : s.Reachable := .line (.new _) ..
  obtain ⟨-, ⟨hbudget, -⟩, -, hcount⟩ := expansion_within_budget hs (render call) call
  exact ⟨hs, hbudget, hcount⟩

end Session
end DevicetreePrep
