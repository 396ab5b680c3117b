/-
# Skipped lines

In a place that is not active, a logical line has no effect, whatever it says.  Text is
not put out, and a directive that is none on conditionals is passed over.  One on
conditionals opens, changes or closes a conditional, and may find something to report;
but its condition is not looked at, so nothing is expanded for it.  The exception is an
`#elif` where a branch is still to be chosen.

So behind a skipped line there is nothing but another conditional, another comment or
another diagnostic (`TrackedState.step_of_inactive`), and the same holds of a whole region
of skipped lines (`TrackedState.onlyReports_of_skips`).  Also the memory of the expander is
as before: it is not told a place, and no error comes up in it.
-/

import DevicetreePrep.Proofs.Run.IncludeDiscipline
import DevicetreePrep.Proofs.Run.Tracking

namespace DevicetreePrep

/-- Whether a branch of the innermost conditional is still to be chosen: the conditional
stands in an active place, and no branch was chosen before. -/
def Branches.undecided : Branches → Bool
  | [] => false
  | b :: _ => b.enclosed && !b.chosen

/-- A conditional that is decided asks for no condition. -/
theorem Branches.asksCondition_eq_false {bs : Branches} (h : undecided bs = false) :
    asksCondition bs = false := by
  cases bs with
  | nil => rfl
  | cons b bs =>
    have h : (b.enclosed && !b.chosen) = false := h
    rw [asksCondition, Bool.and_assoc, h, Bool.and_false]

/-- A logical line is skipped: its place is not active, and it is no `#elif` of a
conditional that is undecided. -/
structure LogicalLine.IsSkipped (l : LogicalLine) (bs : Branches) : Prop where
  inactive : Branches.active bs = false
  decided {operand : Text} (h : MaskedLine.directive? l.parts = some (.elseIf operand)) :
    Branches.undecided bs = false

/-- The directive of a skipped line does not put the expander to use. -/
theorem LogicalLine.IsSkipped.mayExpand {l : LogicalLine} {bs : Branches} (h : l.IsSkipped bs)
    {d : Directive} (hd : MaskedLine.directive? l.parts = some d) : d.mayExpand bs = false := by
  cases d with
  | ifHolds operand | inclusion operand => exact h.inactive
  | elseIf operand => exact Branches.asksCondition_eq_false (h.decided hd)
  | _ => rfl

/-- A line that starts a directive, and is one as a whole, makes up a directive. -/
theorem LogicalLine.directive?_parts {l : LogicalLine} {d₀ d : Directive}
    (hfirst : Directive.ofLine? l.first.masked = some d₀)
    (hline : Directive.ofLine? l.masked = some d) : MaskedLine.directive? l.parts = some d :=
  Option.bind_eq_some_iff.2 ⟨d₀, hfirst, hline⟩

namespace Work

/-- Nothing changes but the diagnostics. -/
def OnlyReports (w w' : Work) : Prop :=
  w' = { w with diagnostics := w'.diagnostics }

variable {w w' : Work} {bs bs' : Branches} {l : LogicalLine} {r : Option Request}

/-- A conditional on a name changes nothing but the diagnostics. -/
theorem onlyReports_openNamed (w : Work) (bs : Branches) (l : LogicalLine) (directive : String)
    (operand : Text) (opened : Bool → Branches) :
    OnlyReports w (w.openNamed bs l directive operand opened).1 := by
  unfold openNamed
  split <;> rfl

/-- Settling a conditional changes nothing but the diagnostics. -/
theorem onlyReports_settle (w : Work) (bs : Branches) (l : LogicalLine)
    (r : Except BranchError Branches) : OnlyReports w (w.settle bs l r).1 := by
  unfold settle
  split <;> rfl

/-- **A directive that is skipped only reports**: it asks for no file, either. -/
theorem onlyReports_of_direct {d : Directive} (hbs : Branches.active bs = false)
    (hd : d.mayExpand bs = false) (h : w.direct bs l d = .ok (w', bs', r)) :
    OnlyReports w w' ∧ r = none := by
  cases hc : d.isConditional with
  | false =>
    rw [direct_of_not_isConditional hc, hbs] at h
    cases h
    exact ⟨rfl, rfl⟩
  | true =>
    cases d with
    | ifHolds operand =>
      rw [direct_ifHolds, hbs] at h
      cases h
      exact ⟨rfl, rfl⟩
    | elseIf operand =>
      have hd : Branches.asksCondition bs = false := hd
      rw [direct_elseIf, hd] at h
      cases h
      exact ⟨onlyReports_settle .., rfl⟩
    | ifDefined operand =>
      rw [direct_ifDefined] at h
      cases h
      exact ⟨onlyReports_openNamed .., rfl⟩
    | ifUndefined operand =>
      rw [direct_ifUndefined] at h
      cases h
      exact ⟨onlyReports_openNamed .., rfl⟩
    | otherwise | endIf =>
      cases h
      exact ⟨onlyReports_settle .., rfl⟩
    | _ => cases hc

/-- **A logical line that is skipped only reports.** -/
theorem onlyReports_of_process (hl : l.IsSkipped bs) (h : w.process bs l = .ok (w', bs', r)) :
    OnlyReports w w' ∧ r = none := by
  unfold process at h
  cases hfirst : Directive.ofLine? l.first.masked with
  | none =>
    rw [hfirst, hl.inactive] at h
    cases h
    exact ⟨rfl, rfl⟩
  | some d₀ =>
    rw [hfirst] at h
    cases hline : Directive.ofLine? l.masked with
    | none => rw [hline] at h; cases h
    | some d =>
      rw [hline] at h
      exact onlyReports_of_direct hl.inactive (hl.mayExpand (l.directive?_parts hfirst hline)) h

end Work

/-- **A logical line that is skipped leaves the expander alone.** -/
theorem TrackedWork.process_of_isSkipped {bs : Branches} {l : LogicalLine} (hl : l.IsSkipped bs)
    (w : TrackedWork) :
    w.process bs l = (w.toWork.process bs l).map fun r => (⟨r.1, w.memory⟩, r.2) := by
  unfold process Work.process
  cases hfirst : Directive.ofLine? l.first.masked with
  | none =>
    rw [hl.inactive]
    rfl
  | some d₀ =>
    cases hline : Directive.ofLine? l.masked with
    | none => rfl
    | some d => exact direct_of_not_mayExpand (hl.mayExpand (l.directive?_parts hfirst hline)) w l

/-- **A step over a skipped line** leaves the rest of the queue, the other open files, and
all work but the diagnostics as they are. -/
theorem State.step_of_isSkipped {resolve : Resolver} {l : SourceLine} {q : List Pending}
    {f : OpenFile} {fs : List OpenFile} {w : Work} {t : State}
    (hl : (f.logicalLine l q).1.IsSkipped f.branches)
    (h : step resolve ⟨.line l :: q, f :: fs, w⟩ = .ok t) :
    w.OnlyReports t.work ∧ t.queue = (f.logicalLine l q).2.2 ∧
      ∃ f', t.files = f' :: fs ∧ f'.file = f.file := by
  have hbranches := congrArg OpenFile.branches (f.logicalLine_eq l q)
  have hfile := congrArg OpenFile.file (f.logicalLine_eq l q)
  rw [step, next_line, hbranches] at h
  cases hp : w.process f.branches (f.logicalLine l q).1 with
  | error e => rw [hp] at h; cases h
  | ok p =>
    obtain ⟨w', bs, r⟩ := p
    obtain ⟨hw, rfl⟩ := Work.onlyReports_of_process hl hp
    rw [hp] at h
    obtain rfl := Except.ok.inj h
    exact ⟨hw, rfl, _, rfl, hfile⟩

namespace TrackedState

variable {resolve : Resolver} {s t u : TrackedState} {l : SourceLine} {q : List Pending}
  {f : OpenFile} {fs : List OpenFile}

/-- **A step over a skipped line leaves the expander alone**, whatever it keeps. -/
theorem memory_of_isSkipped (hqueue : s.queue = .line l :: q) (hfiles : s.files = f :: fs)
    (hl : (f.logicalLine l q).1.IsSkipped f.branches) (h : s.step resolve = .ok t) :
    s.toState.step resolve = .ok t.toState ∧ t.memory = s.memory := by
  obtain ⟨⟨queue, files, w⟩, m⟩ := s
  obtain rfl : queue = _ := hqueue
  obtain rfl : files = _ := hfiles
  -- the conditionals are those from before the logical line, which changes the comment only
  have hline := TrackedWork.process_of_isSkipped hl ⟨w, m⟩
  rw [← congrArg OpenFile.branches (f.logicalLine_eq l q)] at hline
  rw [step_line_eq hline] at h
  cases hstep : State.step resolve ⟨.line l :: q, f :: fs, w⟩ with
  | error e => rw [hstep] at h; cases h
  | ok t' =>
    rw [hstep] at h
    obtain rfl := Except.ok.inj h
    exact ⟨rfl, rfl⟩

/-- A step over a logical line that is skipped. -/
inductive Skips (resolve : Resolver) (s t : TrackedState) : Prop
  | line (l : SourceLine) (q : List Pending) (f : OpenFile) (fs : List OpenFile)
      (hqueue : s.queue = .line l :: q) (hfiles : s.files = f :: fs)
      (hl : (f.logicalLine l q).1.IsSkipped f.branches) (h : s.step resolve = .ok t)

/-- Nothing changes but the queue, the innermost file and the diagnostics; and the innermost
file is the same. -/
structure OnlyReports (s t : TrackedState) : Prop where
  work : s.work.OnlyReports t.work
  memory : t.memory = s.memory
  openNames : t.openNames = s.openNames
  outer : t.files.tail = s.files.tail

theorem OnlyReports.refl (s : TrackedState) : s.OnlyReports s :=
  ⟨rfl, rfl, rfl, rfl⟩

/-- In two such steps nothing but the diagnostics changes. -/
theorem OnlyReports.trans (h : s.OnlyReports t) (h' : t.OnlyReports u) : s.OnlyReports u where
  work := by
    have hwork := h'.work
    rw [Work.OnlyReports, h.work] at hwork
    exact hwork
  memory := h'.memory.trans h.memory
  openNames := h'.openNames.trans h.openNames
  outer := h'.outer.trans h.outer

/-- What is skipped changes nothing but the diagnostics. -/
theorem Skips.onlyReports (h : s.Skips resolve t) : s.OnlyReports t := by
  obtain ⟨l, q, f, fs, hqueue, hfiles, hl, h⟩ := h
  obtain ⟨hstep, hmemory⟩ := memory_of_isSkipped hqueue hfiles hl h
  obtain ⟨⟨queue, files, w⟩, m⟩ := s
  obtain rfl : queue = _ := hqueue
  obtain rfl : files = _ := hfiles
  obtain ⟨hw, -, f', hopen, hfile⟩ := State.step_of_isSkipped hl hstep
  refine ⟨hw, hmemory, ?_, by rw [hopen]; rfl⟩
  rw [State.openNames, hopen, List.map_cons, hfile]
  rfl

/-- **A region that is skipped only reports**, however many lines it has. -/
theorem onlyReports_of_skips (h : Relation.ReflTransGen (Skips resolve) s t) : s.OnlyReports t := by
  induction h with
  | refl => exact .refl s
  | tail _ hline ih => exact ih.trans hline.onlyReports

/-- **A skipped line has no effect.**  In a state that a run comes to, let the innermost
file stand in a place that is not active, and let the next logical line be anything but an
`#elif` of a conditional that is undecided.  A step over it takes the physical lines of
this logical line from the queue.  Of the innermost file it may change the conditionals and
the comment that are open, of the work the diagnostics, and nothing else: also the memory
of the expander is as before. -/
theorem step_of_inactive {table : Table} {diagnostics : Diagnostics} {file : String}
    {source : Text} (hs : Reaches resolve (start table diagnostics file source) s)
    (hqueue : s.queue = .line l :: q) (hfiles : s.files = f :: fs)
    (hinactive : Branches.active f.branches = false)
    (helif : ∀ operand, MaskedLine.directive? (f.logicalLine l q).1.parts = some (.elseIf operand) →
      Branches.undecided f.branches = false)
    (h : s.step resolve = .ok t) :
    s.toState.step resolve = .ok t.toState ∧
      t.work = { s.work with diagnostics := t.work.diagnostics } ∧
      t.memory = s.memory ∧
      (∃ ls : List SourceLine, q = ls.map .line ++ t.queue ∧ (∀ k ∈ l :: ls, k.file = f.file) ∧
        (f.logicalLine l q).1.parts.map MaskedLine.raw = (l :: ls).map SourceLine.text) ∧
      ∃ f', t.files = f' :: fs ∧ f'.file = f.file := by
  have hl : (f.logicalLine l q).1.IsSkipped f.branches := ⟨hinactive, helif _⟩
  have hnested := (hs.toState rfl).isNested (State.isNested_start table diagnostics file source)
  obtain ⟨hstep, hmemory⟩ := memory_of_isSkipped hqueue hfiles hl h
  obtain ⟨⟨queue, files, w⟩, m⟩ := s
  obtain rfl : queue = _ := hqueue
  obtain rfl : files = _ := hfiles
  obtain ⟨hw, hrest, hopen⟩ := State.step_of_isSkipped hl hstep
  obtain ⟨ls, hq, hraw, hown, -⟩ := hnested.exists_of_logicalLine
  exact ⟨hstep, hw, hmemory, ⟨ls, by rw [hrest]; exact hq, hown, hraw⟩, hopen⟩

/-- A continued `#if` inside of an `#ifdef` that does not hold.  Its condition would use up
a number. -/
theorem step_of_inactive_counting :
    ∃ s t : TrackedState, Reaches Resolver.pathMissing
        (start {} {} "m" "#ifdef A\n#if __COUNTER__ \\\n + 1\nx".toList) s ∧
      s.step Resolver.pathMissing = .ok t ∧
      s.toState.step Resolver.pathMissing = .ok t.toState ∧
      t.work = { s.work with diagnostics := t.work.diagnostics } ∧
      t.memory = s.memory ∧
      t.queue = [.line ⟨['x'], "m", 4⟩, .close "m"] ∧
      t.openNames = ["m"] ∧ t.files ≠ s.files := by
  let s₀ : TrackedState := start {} {} "m" "#ifdef A\n#if __COUNTER__ \\\n + 1\nx".toList
  let outer : Branch :=
    { kind := .ifDefined, holds := false, chosen := false, enclosed := true, line := some 1 }
  let inner : Branch :=
    { kind := .ifCondition, holds := false, chosen := false, enclosed := false, line := some 2 }
  let reading (ls : List SourceLine) (bs : Branches) : TrackedState :=
    ⟨⟨ls.map .line ++ [.close "m"], [{ file := "m", branches := bs }], { table := {} }⟩, {}⟩
  let l : SourceLine := ⟨"#if __COUNTER__ \\".toList, "m", 2⟩
  let s : TrackedState := reading [l, ⟨" + 1".toList, "m", 3⟩, ⟨['x'], "m", 4⟩] [outer]
  let t : TrackedState := reading [⟨['x'], "m", 4⟩] [inner, outer]
  have hs : Reaches Resolver.pathMissing s₀ s := .single rfl
  have hstep : s.step Resolver.pathMissing = .ok t := rfl
  obtain ⟨hplain, hwork, hmemory, -⟩ :=
    step_of_inactive hs rfl rfl rfl (fun operand h => by cases h) hstep
  exact ⟨s, t, hs, hstep, hplain, hwork, hmemory, rfl, rfl, by decide⟩

end TrackedState
end DevicetreePrep
