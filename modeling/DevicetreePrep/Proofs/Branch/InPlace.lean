/-
# Conditionals that are changed in place

The open conditionals can be kept as one record that every directive changes in place.  A
directive looks at the innermost conditional and writes over its fields one behind the other,
and it may give up on the way: because it does not fit, or because its condition cannot be
had.  What was written until then would stay (`BranchChange`).  And a conditional notes down
whether the place around it was active when it was opened; that note could go stale.

Neither can happen.  An operation in place does what the operation on the whole record does, or
it gives up before it has written anything (`BranchOp.perform_cases`).  So all that a row of
operations can lead to, given up or not, is sound (`Branches.IsSound`): every conditional still
knows the place around it, since nothing but the innermost one is ever written over, and what
is active can be read off the conditions alone (`Branches.IsSound.active_eq_all_holds`).
-/

import DevicetreePrep.Proofs.Branch.Selection

namespace DevicetreePrep

variable {ε : Type}

/-- Why an operation gives up. -/
inductive BranchFault (ε : Type)
  /-- It does not fit the conditionals that are open. -/
  | misplaced (e : BranchError)
  /-- Its condition was asked for and cannot be had. -/
  | condition (e : ε)
  deriving DecidableEq, Repr

/-- An operation on the open conditionals. -/
inductive BranchOp (ε : Type)
  /-- A chain starts. -/
  | opening (o : Opening)
  /-- A further condition, with what there is to know of it when it is asked for. -/
  | further (condition : Except ε Bool)
  /-- The last block starts. -/
  | otherwise
  /-- A chain ends. -/
  | endIf
  /-- The source ends, and all open chains with it. -/
  | endAll

/-- A change of the open conditionals in place.  If it gives up, what it has changed so far
stays changed. -/
abbrev BranchChange (ε : Type) := EStateM (BranchFault ε) Branches

namespace BranchChange

/-- The innermost conditional. -/
def top (e : BranchError) : BranchChange ε Branch := do
  match ← get with
  | [] => throw (.misplaced e)
  | b :: _ => return b

/-- Writes over the innermost conditional. -/
def write (g : Branch → Branch) : BranchChange ε Unit :=
  modify (List.modifyHead g)

/-- Asks for a condition. -/
def ask (condition : Except ε Bool) : BranchChange ε Bool :=
  match condition with
  | .ok holds => return holds
  | .error e => throw (.condition e)

/-- Opens a conditional. -/
def opened (kind : BranchKind) (condition : Bool) (line : Option Int) :
    BranchChange ε (List Branch) := do
  let enclosed := Branches.active (← get)
  let holds := enclosed && condition
  let b : Branch := { kind, holds, chosen := holds, enclosed, line }
  modify (b :: ·)
  return [b]

/-- Goes on to a branch with a further condition. -/
def further (condition : Except ε Bool) : BranchChange ε (List Branch) := do
  let b ← top .noElif
  if b.isLast then throw (.misplaced .elifAfterElse)
  if !b.enclosed || b.chosen then
    write fun b => { b with holds := false }
  else
    let holds ← ask condition
    write fun b => { b with holds }
    write fun b => { b with chosen := b.holds }
  return [← top .noElif]

/-- Goes on to the last branch. -/
def otherwise : BranchChange ε (List Branch) := do
  let b ← top .noElse
  if b.isLast then throw (.misplaced .repeatedElse)
  write fun b => { b with isLast := true }
  write fun b => { b with holds := !b.chosen }
  write fun b => { b with chosen := true }
  return [← top .noElse]

/-- Closes the innermost conditional. -/
def endIf : BranchChange ε (List Branch) := do
  let b ← top .noEndif
  modify List.tail
  return [b]

/-- Closes all conditionals. -/
def endAll : BranchChange ε (List Branch) := do
  let bs ← get
  set ([] : Branches)
  return Branches.unterminated bs

end BranchChange

namespace BranchOp

/-- Carries out an operation in place, and hands back the conditionals that it is about. -/
def perform : BranchOp ε → BranchChange ε (List Branch)
  | .opening ⟨.ifCondition, answer, line⟩ => .opened .ifCondition answer line
  | .opening ⟨.ifDefined, answer, line⟩ => .opened .ifDefined answer line
  | .opening ⟨.ifUndefined, answer, line⟩ => .opened .ifUndefined (!answer) line
  | .further condition => .further condition
  | .otherwise => .otherwise
  | .endIf => .endIf
  | .endAll => .endAll

/-- The open conditionals behind an operation in place, whether it gives up or not. -/
def leaves (op : BranchOp ε) (bs : Branches) : Branches :=
  match op.perform bs with
  | .ok _ bs' => bs'
  | .error _ bs' => bs'

/-- The open conditionals behind a row of operations.  One that gives up does not keep the
next one from being carried out. -/
def leavesAll (bs : Branches) (ops : List (BranchOp ε)) : Branches :=
  ops.foldl (fun bs op => op.leaves bs) bs

/-- The operation on the whole record. -/
def apply (bs : Branches) : BranchOp ε → Except (BranchFault ε) Branches
  | .opening ⟨.ifCondition, answer, line⟩ => .ok (Branches.openIf bs answer line)
  | .opening ⟨.ifDefined, answer, line⟩ => .ok (Branches.openIfDefined bs answer line)
  | .opening ⟨.ifUndefined, answer, line⟩ => .ok (Branches.openIfUndefined bs answer line)
  | .further condition =>
    match if Branches.asksCondition bs then condition else .ok false with
    | .error e => .error (.condition e)
    | .ok holds => (Branches.nextBranch bs holds).mapError .misplaced
  | .otherwise => (Branches.lastBranch bs).mapError .misplaced
  | .endIf => ((Branches.close bs).map Prod.snd).mapError .misplaced
  | .endAll => .ok []

/-- **An operation in place does what the operation on the whole record does, or it gives up
for the same reason and leaves everything as it was.** -/
theorem perform_cases (op : BranchOp ε) (bs : Branches) :
    (∃ handed bs', op.perform bs = .ok handed bs' ∧ op.apply bs = .ok bs') ∨
      ∃ e, op.perform bs = .error e bs ∧ op.apply bs = .error e := by
  cases op with
  | opening o =>
    obtain ⟨kind, answer, line⟩ := o
    cases kind <;> exact .inl ⟨_, _, rfl, rfl⟩
  | further condition =>
    match bs with
    | [] => exact .inr ⟨_, rfl, rfl⟩
    | ⟨kind, holds, chosen, enclosed, isLast, line⟩ :: bs =>
      cases isLast with
      | true => exact .inr ⟨_, rfl, rfl⟩
      | false =>
        -- the condition is asked for in the last of these cases only
        cases enclosed with
        | false => exact .inl ⟨_, _, rfl, rfl⟩
        | true =>
          cases chosen with
          | true => exact .inl ⟨_, _, rfl, rfl⟩
          | false =>
            cases condition with
            | error e => exact .inr ⟨_, rfl, rfl⟩
            | ok holds => exact .inl ⟨_, _, rfl, rfl⟩
  | otherwise =>
    match bs with
    | [] => exact .inr ⟨_, rfl, rfl⟩
    | ⟨kind, holds, chosen, enclosed, isLast, line⟩ :: bs =>
      cases isLast with
      | true => exact .inr ⟨_, rfl, rfl⟩
      | false => exact .inl ⟨_, _, rfl, rfl⟩
  | endIf =>
    match bs with
    | [] => exact .inr ⟨_, rfl, rfl⟩
    | b :: bs => exact .inl ⟨_, _, rfl, rfl⟩
  | endAll => exact .inl ⟨_, _, rfl, rfl⟩

end BranchOp

namespace Branches

variable {b : Branch} {bs bs' : Branches}

/-- The notes of the open conditionals hold. -/
structure IsSound (bs : Branches) : Prop where
  /-- A conditional knows whether all those around it are active. -/
  enclosed : ∀ b outer, b :: outer <:+ bs → b.enclosed = outer.all Branch.active
  /-- A branch that holds is chosen. -/
  chosen_of_holds : ∀ b ∈ bs, b.holds = true → b.chosen = true
  /-- Some branch is chosen when the last one has started. -/
  chosen_of_isLast : ∀ b ∈ bs, b.isLast = true → b.chosen = true

/-- No open conditionals are sound. -/
theorem isSound_nil : IsSound [] where
  enclosed b outer h := absurd (List.suffix_nil.1 h) (List.cons_ne_nil b outer)
  chosen_of_holds _ hb := absurd hb List.not_mem_nil
  chosen_of_isLast _ hb := absurd hb List.not_mem_nil

/-- Sound conditionals are sound without the innermost one. -/
theorem IsSound.tail (h : IsSound (b :: bs)) : IsSound bs where
  enclosed c outer hc := h.enclosed c outer (hc.trans (List.suffix_cons b bs))
  chosen_of_holds c hc := h.chosen_of_holds c (List.mem_cons_of_mem b hc)
  chosen_of_isLast c hc := h.chosen_of_isLast c (List.mem_cons_of_mem b hc)

/-- A conditional goes on top of sound ones. -/
theorem IsSound.cons (h : IsSound bs) (enclosed : b.enclosed = bs.all Branch.active)
    (holds : b.holds = true → b.chosen = true) (isLast : b.isLast = true → b.chosen = true) :
    IsSound (b :: bs) where
  enclosed c outer hc := by
    rcases List.suffix_cons_iff.1 hc with hc | hc
    · obtain ⟨rfl, rfl⟩ := List.cons.inj hc
      exact enclosed
    · exact h.enclosed c outer hc
  chosen_of_holds := List.forall_mem_cons.2 ⟨holds, h.chosen_of_holds⟩
  chosen_of_isLast := List.forall_mem_cons.2 ⟨isLast, h.chosen_of_isLast⟩

/-- The innermost conditional of sound ones knows whether those around it are active. -/
theorem IsSound.enclosed_eq (h : IsSound (b :: bs)) : b.enclosed = bs.all Branch.active :=
  h.enclosed b bs (List.suffix_refl _)

/-- The innermost conditional is active if and only if all are. -/
theorem IsSound.active_eq_all_active (h : IsSound bs) : active bs = bs.all Branch.active := by
  cases bs with
  | nil => rfl
  | cons b bs =>
    rw [List.all_cons, ← h.enclosed_eq, active, Branch.active]
    cases b.enclosed <;> simp

/-- **A place is active if and only if the conditions of all open conditionals hold.** -/
theorem IsSound.active_eq_all_holds (h : IsSound bs) : active bs = bs.all Branch.holds := by
  induction bs with
  | nil => rfl
  | cons b bs ih =>
    have henclosed : b.enclosed = bs.all Branch.holds := by
      rw [h.enclosed_eq, ← h.tail.active_eq_all_active, ih h.tail]
    rw [List.all_cons, active, Branch.active, henclosed, Bool.and_comm]

theorem IsSound.opened (h : IsSound bs) (kind : BranchKind) (condition : Bool)
    (line : Option Int) : IsSound (opened bs kind condition line) :=
  h.cons h.active_eq_all_active id fun hlast => Bool.noConfusion hlast

/-- Going on to the next branch keeps the conditionals sound. -/
theorem IsSound.nextBranch (h : IsSound bs) {condition : Bool}
    (hnext : nextBranch bs condition = .ok bs') : IsSound bs' := by
  match bs with
  | [] => cases hnext
  | b :: bs =>
    unfold Branches.nextBranch at hnext
    dsimp only at hnext
    split at hnext
    · cases hnext
    · rename_i hlast
      split at hnext
      · obtain rfl := Except.ok.inj hnext
        exact h.tail.cons h.enclosed_eq id fun hb => absurd hb hlast
      · obtain rfl := Except.ok.inj hnext
        exact h.tail.cons h.enclosed_eq (fun hb => Bool.noConfusion hb) fun hb => absurd hb hlast

/-- Going on to the last branch keeps the conditionals sound. -/
theorem IsSound.lastBranch (h : IsSound bs) (hlast : lastBranch bs = .ok bs') : IsSound bs' := by
  match bs with
  | [] => cases hlast
  | b :: bs =>
    unfold Branches.lastBranch at hlast
    dsimp only at hlast
    split at hlast
    · cases hlast
    · obtain rfl := Except.ok.inj hlast
      exact h.tail.cons h.enclosed_eq (fun _ => rfl) fun _ => rfl

/-- Closing the innermost conditional keeps the conditionals sound. -/
theorem IsSound.close (h : IsSound bs) (hclose : (close bs).map Prod.snd = .ok bs') :
    IsSound bs' := by
  match bs with
  | [] => cases hclose
  | b :: bs =>
    obtain rfl := Except.ok.inj hclose
    exact h.tail

end Branches

namespace BranchOp

open Branches

variable {bs bs' : Branches}

/-- A computation that succeeds with its reasons put in other words succeeds as it is. -/
theorem ok_of_mapError {α δ : Type} {f : δ → ε} {r : Except δ α} {a : α}
    (h : r.mapError f = .ok a) : r = .ok a := by
  cases r with
  | error e => cases h
  | ok b => exact congrArg Except.ok (Except.ok.inj h)

/-- **An operation keeps sound conditionals sound.** -/
theorem isSound_of_apply (h : IsSound bs) {op : BranchOp ε} (hop : op.apply bs = .ok bs') :
    IsSound bs' := by
  cases op with
  | opening o =>
    obtain ⟨kind, answer, line⟩ := o
    cases kind <;> obtain rfl := Except.ok.inj hop
    · exact h.opened _ _ _
    · exact h.opened _ _ _
    · exact h.opened _ _ _
  | further condition =>
    dsimp only [apply] at hop
    split at hop
    · cases hop
    · exact h.nextBranch (ok_of_mapError hop)
  | otherwise => exact h.lastBranch (ok_of_mapError hop)
  | endIf => exact h.close (ok_of_mapError hop)
  | endAll =>
    obtain rfl := Except.ok.inj hop
    exact isSound_nil

/-- Also an operation that gives up leaves sound conditionals sound. -/
theorem isSound_leaves (h : IsSound bs) (op : BranchOp ε) : IsSound (op.leaves bs) := by
  rw [leaves]
  rcases op.perform_cases bs with ⟨handed, bs', hperform, hop⟩ | ⟨e, hperform, -⟩
  · rw [hperform]
    exact isSound_of_apply h hop
  · rw [hperform]
    exact h

/-- A row of operations keeps sound conditionals sound. -/
theorem isSound_leavesAll (h : IsSound bs) (ops : List (BranchOp ε)) :
    IsSound (leavesAll bs ops) := by
  induction ops generalizing bs with
  | nil => exact h
  | cons op ops ih => exact ih (isSound_leaves h op)

/-- **The open conditionals are sound at all times, and no operation gives up half way.**  Behind
every row of operations, those included that give up, each conditional knows whether all those
around it are active; a branch that holds is chosen, and so is one when the last one has
started; and the place is active exactly if the conditions of all open conditionals hold.  An
operation either succeeds, and does what the operation on the whole record does, or it leaves
all conditionals as they were. -/
theorem isSound_after_operations (ops : List (BranchOp ε)) :
    let bs := leavesAll [] ops
    IsSound bs ∧ (active bs = true ↔ ∀ b ∈ bs, b.holds = true) ∧
      ∀ op : BranchOp ε,
        (∃ handed bs', op.perform bs = .ok handed bs' ∧ op.apply bs = .ok bs') ∨
          ∃ e, op.perform bs = .error e bs ∧ op.apply bs = .error e := by
  intro bs
  have hsound : IsSound bs := isSound_leavesAll isSound_nil ops
  refine ⟨hsound, ?_, fun op => op.perform_cases bs⟩
  rw [hsound.active_eq_all_holds, List.all_eq_true]

/-- In a skipped place a condition that cannot be had is not asked for, but where it is, the
operation gives up; so do a second last block and a further condition behind it. -/
example :
    leavesAll []
        [.opening ⟨.ifCondition, false, some 1⟩, .opening ⟨.ifDefined, true, some 2⟩,
          .further (.error ()), .otherwise, .otherwise, .endIf, .further (.error ()), .otherwise,
          .further (.ok true)] =
      [⟨.ifCondition, true, true, true, true, some 1⟩] :=
  rfl

end BranchOp
end DevicetreePrep
