/-
# Conditionals on top of others

Conditionals that are opened where the place is active behave as if nothing were
open below them: whether they are active and whether they ask for a condition does
not depend on what is below, and what is done to them leaves it alone.  Only a
directive that belongs to a conditional which is not there looks further down.  The
lines where the conditionals were opened do not matter to any of this, so they are
forgotten (`Branch.unplaced`).
-/

import DevicetreePrep.Branch

namespace DevicetreePrep

/-- The conditional without the line that opened it. -/
def Branch.unplaced (b : Branch) : Branch :=
  { b with line := none }

namespace Branch

variable {b b' : Branch}

theorem active_unplaced (b : Branch) : b.unplaced.active = b.active :=
  rfl

theorem active_eq (h : b.unplaced = b'.unplaced) : b.active = b'.active := by
  rw [← active_unplaced b, h, active_unplaced]

end Branch

namespace Branches

variable {bs bs' outer : Branches} {b b' : Branch}

/-- The conditionals `bs'` are those in `bs` with `outer` below them, up to the lines
where they were opened. -/
def OnTop (outer bs bs' : Branches) : Prop :=
  bs'.map Branch.unplaced = (bs ++ outer).map Branch.unplaced

theorem OnTop.refl (bs : Branches) : OnTop [] bs bs := by
  rw [OnTop, List.append_nil]

/-- A conditional on top on either side. -/
theorem OnTop.cons (hb : b.unplaced = b'.unplaced) (h : OnTop outer bs bs') :
    OnTop outer (b :: bs) (b' :: bs') := by
  rw [OnTop, List.map_cons, List.cons_append, List.map_cons, hb, h]

/-- Below the innermost conditionals, which are the same, the others are on top. -/
theorem OnTop.of_cons {cs : Branches} (h : OnTop outer (b :: bs) cs) :
    ∃ b' bs', cs = b' :: bs' ∧ b.unplaced = b'.unplaced ∧ OnTop outer bs bs' := by
  rw [OnTop, List.cons_append, List.map_cons] at h
  obtain ⟨b', bs', rfl, hb, hbs⟩ := List.map_eq_cons_iff.1 h
  exact ⟨b', bs', rfl, hb.symm, hbs⟩

/-- With nothing below and nothing on top there is nothing. -/
theorem OnTop.eq_nil (h : OnTop [] [] bs') : bs' = [] :=
  List.map_eq_nil_iff.1 h

/-- **On top of an active place, conditionals are active as they are alone.** -/
theorem OnTop.active_eq (h : OnTop outer bs bs') (houter : active outer = true) :
    active bs' = active bs := by
  cases bs with
  | nil =>
    match outer, bs', h with
    | [], [], _ => rfl
    | b :: bs, b' :: bs', h =>
      have hb : b'.unplaced = b.unplaced := (List.cons.inj h).1
      exact (Branch.active_eq hb).trans houter
  | cons b bs =>
    obtain ⟨b', bs', rfl, hb, -⟩ := h.of_cons
    exact (Branch.active_eq hb).symm

/-- A conditional asks for a further condition as it does alone. -/
theorem OnTop.asksCondition_eq (h : OnTop outer bs bs') (hbs : bs ≠ [] ∨ outer = []) :
    asksCondition bs' = asksCondition bs := by
  cases bs with
  | nil =>
    obtain rfl := hbs.resolve_left fun hne => hne rfl
    rw [h.eq_nil]
  | cons b bs =>
    obtain ⟨b', bs', rfl, hb, -⟩ := h.of_cons
    obtain ⟨kind, holds, chosen, enclosed, isLast, line⟩ := b
    obtain ⟨kind', holds', chosen', enclosed', isLast', line'⟩ := b'
    simp only [Branch.unplaced, Branch.mk.injEq] at hb
    obtain ⟨-, -, rfl, rfl, rfl, -⟩ := hb
    rfl

/-- A conditional is opened on top as it is alone. -/
theorem OnTop.opened (h : OnTop outer bs bs') (houter : active outer = true) (kind : BranchKind)
    (condition : Bool) (line line' : Option Int) :
    OnTop outer (opened bs kind condition line) (opened bs' kind condition line') := by
  have hactive := h.active_eq houter
  rw [Branches.opened, Branches.opened, hactive]
  exact h.cons rfl

/-- The operation fails for the same reason on all conditionals that start with the
same one, or puts others in its place. -/
def ActsOnTop (op : Branches → Except BranchError Branches) : Prop :=
  ∀ (b b' : Branch) (bs bs' : Branches), b.unplaced = b'.unplaced →
    (∃ e, op (b :: bs) = .error e ∧ op (b' :: bs') = .error e) ∨
      ∃ top top', op (b :: bs) = .ok (top ++ bs) ∧ op (b' :: bs') = .ok (top' ++ bs') ∧
        top.map Branch.unplaced = top'.map Branch.unplaced

/-- Going to the next branch acts on the innermost conditional only. -/
theorem actsOnTop_nextBranch (condition : Bool) : ActsOnTop (nextBranch · condition) := by
  intro b b' bs bs' hb
  obtain ⟨kind, holds, chosen, enclosed, isLast, line⟩ := b
  obtain ⟨kind', holds', chosen', enclosed', isLast', line'⟩ := b'
  simp only [Branch.unplaced, Branch.mk.injEq] at hb
  obtain ⟨rfl, rfl, rfl, rfl, rfl, -⟩ := hb
  cases isLast with
  | true => exact .inl ⟨_, rfl, rfl⟩
  | false =>
    right
    cases enclosed <;> cases chosen <;> exact ⟨[_], [_], rfl, rfl, rfl⟩

/-- Going to the last branch acts on the innermost conditional only. -/
theorem actsOnTop_lastBranch : ActsOnTop lastBranch := by
  intro b b' bs bs' hb
  obtain ⟨kind, holds, chosen, enclosed, isLast, line⟩ := b
  obtain ⟨kind', holds', chosen', enclosed', isLast', line'⟩ := b'
  simp only [Branch.unplaced, Branch.mk.injEq] at hb
  obtain ⟨rfl, rfl, rfl, rfl, rfl, -⟩ := hb
  cases isLast with
  | true => exact .inl ⟨_, rfl, rfl⟩
  | false => exact .inr ⟨[_], [_], rfl, rfl, rfl⟩

theorem actsOnTop_close : ActsOnTop fun bs => (close bs).map Prod.snd := by
  intro b b' bs bs' _
  exact .inr ⟨[], [], rfl, rfl, rfl⟩

/-- **What is done to conditionals on top is done as to them alone**: it fails on
both, or leaves them on top. -/
theorem ActsOnTop.onTop {op : Branches → Except BranchError Branches} (hop : ActsOnTop op)
    (hnil : ∃ e, op [] = .error e) (h : OnTop outer bs bs') (hbs : bs ≠ [] ∨ outer = []) :
    (∃ e e', op bs = .error e ∧ op bs' = .error e') ∨
      ∃ cs cs', op bs = .ok cs ∧ op bs' = .ok cs' ∧ OnTop outer cs cs' := by
  cases bs with
  | nil =>
    obtain rfl := hbs.resolve_left fun hne => hne rfl
    obtain rfl := h.eq_nil
    obtain ⟨e, he⟩ := hnil
    exact .inl ⟨e, e, he, he⟩
  | cons b bs =>
    obtain ⟨b', bs', rfl, hb, hrest⟩ := h.of_cons
    rcases hop b b' bs bs' hb with ⟨e, he, he'⟩ | ⟨top, top', hok, hok', htop⟩
    · exact .inl ⟨e, e, he, he'⟩
    · refine .inr ⟨_, _, hok, hok', ?_⟩
      rw [OnTop, List.map_append, List.append_assoc, List.map_append, htop, hrest]

end Branches
end DevicetreePrep
