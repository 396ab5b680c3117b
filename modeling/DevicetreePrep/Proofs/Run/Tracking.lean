/-
# Runs with an expander that keeps a memory

From one use to the next, the expander of a run keeps more than its counter: the place
where it was last put to use, and the errors that were not reported yet
(`Expansion.Memory`).  Here a run is carried out with them.  The expander is told the
place before it is put to use, it reads the place from its memory, and its errors are
reported from there and cleared (`TrackedWork.emit`, `TrackedWork.condition`,
`TrackedWork.inclusion`).

No error is left between two steps, so the steps are those of a run without the memory
(`TrackedState.exists_step_eq`).  The states of a run with the memory are those of the run
without it, each with a memory that holds no error (`TrackedState.Reaches.toState`,
`TrackedState.exists_reaches`).
-/

import DevicetreePrep.Proofs.Run.Output
import DevicetreePrep.Proofs.Run.Nesting

namespace DevicetreePrep

/-- What an expander keeps from one use to the next, beside its counter. -/
structure Expansion.Memory where
  /-- The place where it was last put to use. -/
  file : String := "<input>"
  line : Int := 1
  /-- The errors that were not reported yet. -/
  errors : List ExpansionError := []
  deriving DecidableEq, Repr

open Expansion (Memory)

/-- Whether a directive may put the expander to use: with a condition that is asked for,
or with an inclusion in an active place. -/
def Directive.mayExpand (bs : Branches) : Directive → Bool
  | .ifHolds _ | .inclusion _ => Branches.active bs
  | .elseIf _ => Branches.asksCondition bs
  | _ => false

/-- The memory of an expander that was put to use at a line, once its errors are
reported. -/
def LogicalLine.memory (l : LogicalLine) : Memory :=
  { file := l.file, line := l.number }

/-- What a run has brought about, with the memory of its expander. -/
structure TrackedWork extends Work where
  memory : Memory

namespace TrackedWork

/-- Tells the expander the place of a line. -/
def locate (w : TrackedWork) (l : LogicalLine) : TrackedWork :=
  { w with memory.file := l.file, memory.line := l.number }

/-- What expansion needs to know, as the expander has it. -/
def context (w : TrackedWork) : Expansion.Context :=
  { table := w.table, file := w.memory.file, line := w.memory.line }

/-- Keeps what a use of the expander brought about. -/
def record (w : TrackedWork) (counter : Nat) (errors : List ExpansionError) : TrackedWork :=
  { w with counter, memory.errors := w.memory.errors ++ errors }

/-- Reports the errors of the expander and clears them. -/
def drain (w : TrackedWork) (report : Work → Problem → Work) : TrackedWork :=
  { w with
    toWork := (w.memory.errors.map ExpansionError.problem).foldl report w.toWork
    memory.errors := [] }

/-- Expands a line and puts it out. -/
def emit (w : TrackedWork) (l : LogicalLine) : TrackedWork :=
  let w := w.locate l
  let w := { w with
    toWork := (lexicalError? l.masked).toList.foldl (fun v (e : LexicalError) =>
      v.reportAt .lexical l.file l.number e.problem) w.toWork }
  let r := expandLine w.context w.counter l.raw (tokenize l.masked)
  let w := (w.record r.counter r.errors).drain fun v p =>
    v.reportAt .preprocessing l.file l.number p
  { w with output := Line.build l.raw l.masked l.number l.file r.subs :: w.output }

/-- The truth of a condition.  The expander is not put to use if there is none. -/
def condition (w : TrackedWork) (l : LogicalLine) (operand : Text) :
    Except Stopped (Bool × TrackedWork) :=
  let complain (v : Work) (p : Problem) : Work := v.complain l p
  if Text.isAllBlank operand then
    .ok (false, { w with toWork := complain w.toWork DirectiveError.conditionMissing.problem })
  else
    let w := w.locate l
    let r := Expression.evaluate w.context w.counter (tokenize operand)
    let w := w.record r.counter r.errors
    match r.result with
    | .ok v => .ok (v.truth, w.drain complain)
    | .error (.error e) =>
      .ok (false, { w with toWork := complain w.toWork e.problem }.drain complain)
    | .error (.overrun o) => .error ⟨.number o, (w.drain complain).diagnostics⟩

/-- The inclusion that an operand asks for.  The expander is put to use unless the
operand is written with its delimiters. -/
def inclusion (w : TrackedWork) (l : LogicalLine) (operand : Text) :
    TrackedWork × Option Request :=
  let complain (v : Work) (p : Problem) : Work := v.complain l p
  let request (found : Text × Bool) : Request :=
    { inclusion := { target := String.ofList found.1, angled := found.2, includer := l.file }
      line := l.number
      column := Work.columnOf l.first.raw }
  let operand := Text.trim operand
  match Inclusion.direct? operand with
  | some found => (w, some (request found))
  | none =>
    let w := w.locate l
    let r := expandTokens w.context w.counter (tokenize operand)
    let w := (w.record r.counter r.errors).drain complain
    match Inclusion.ofTokens? r.tokens with
    | some found => (w, some (request found))
    | none => ({ w with toWork := complain w.toWork DirectiveError.badInclude.problem }, none)

/-- Carries out a directive.  Only conditions and inclusions put the expander to use. -/
def direct (w : TrackedWork) (bs : Branches) (l : LogicalLine) (d : Directive) :
    Except Stopped (TrackedWork × Branches × Option Request) := do
  match d with
  | .ifHolds operand =>
    let (holds, w) ← if Branches.active bs then w.condition l operand else .ok (false, w)
    return (w, Branches.openIf bs holds (some l.number), none)
  | .elseIf operand =>
    let (holds, w) ← if Branches.asksCondition bs then w.condition l operand else .ok (false, w)
    let (v, bs) := w.toWork.settle bs l (Branches.nextBranch bs holds)
    return ({ w with toWork := v }, bs, none)
  | .inclusion operand =>
    if Branches.active bs then
      let (w, request) := w.inclusion l operand
      return (w, bs, request)
    else return (w, bs, none)
  | d =>
    let (v, bs, request) ← w.toWork.direct bs l d
    return ({ w with toWork := v }, bs, request)

/-- Carries out a logical line. -/
def process (w : TrackedWork) (bs : Branches) (l : LogicalLine) :
    Except Stopped (TrackedWork × Branches × Option Request) :=
  match Directive.ofLine? l.first.masked with
  | none =>
    if Branches.active bs && !Text.isAllBlank l.masked then .ok (w.emit l, bs, none)
    else .ok (w, bs, none)
  | some _ =>
    match Directive.ofLine? l.masked with
    | none => .error ⟨.notDirective, w.diagnostics⟩
    | some d => w.direct bs l d

variable {w : TrackedWork}

@[simp] theorem context_locate (w : TrackedWork) (l : LogicalLine) :
    (w.locate l).context = w.toWork.context l :=
  rfl

@[simp] theorem toWork_locate (w : TrackedWork) (l : LogicalLine) :
    (w.locate l).toWork = w.toWork :=
  rfl

/-- **What is reported behind a use of the expander are the errors of that use**, if no
error was left before. -/
theorem errors_record_locate (h : w.memory.errors = []) (l : LogicalLine) (counter : Nat)
    (errors : List ExpansionError) :
    ((w.locate l).record counter errors).memory.errors = errors := by
  change w.memory.errors ++ errors = errors
  rw [h, List.nil_append]

/-- A line is put out as without a memory, and leaves its memory behind. -/
theorem emit_eq (h : w.memory.errors = []) (l : LogicalLine) :
    w.emit l = ⟨w.toWork.emit l, l.memory⟩ := by
  simp only [emit, locate, context, record, drain, h, List.nil_append, List.foldl_map]
  rfl

/-- A condition does the same with a memory as without one. -/
theorem exists_condition_eq (h : w.memory.errors = []) (l : LogicalLine) (operand : Text) :
    ∃ m : Memory, m.errors = [] ∧
      w.condition l operand = (w.toWork.condition l operand).map fun r => (r.1, ⟨r.2, m⟩) := by
  unfold condition Work.condition
  split
  · exact ⟨w.memory, h, rfl⟩
  · refine ⟨l.memory, rfl, ?_⟩
    simp only [drain, errors_record_locate h, context_locate, toWork_locate]
    generalize Expression.evaluate (w.toWork.context l) w.counter (tokenize operand) = r
    obtain ⟨(e | o) | v, counter, errors⟩ := r <;> rfl

/-- An inclusion does the same with a memory as without one. -/
theorem exists_inclusion_eq (h : w.memory.errors = []) (l : LogicalLine) (operand : Text) :
    ∃ m : Memory, m.errors = [] ∧
      w.inclusion l operand = (⟨(w.toWork.inclusion l operand).1, m⟩,
        (w.toWork.inclusion l operand).2) := by
  unfold inclusion Work.inclusion
  dsimp only
  cases Inclusion.direct? (Text.trim operand) with
  | some found => exact ⟨w.memory, h, rfl⟩
  | none =>
    refine ⟨l.memory, rfl, ?_⟩
    simp only [drain, errors_record_locate h, context_locate, toWork_locate]
    cases Inclusion.ofTokens?
      (expandTokens (w.toWork.context l) w.counter (tokenize (Text.trim operand))).tokens <;> rfl

/-- A directive that does not put the expander to use leaves its memory alone. -/
theorem direct_of_not_mayExpand {bs : Branches} {d : Directive} (h : d.mayExpand bs = false)
    (w : TrackedWork) (l : LogicalLine) :
    w.direct bs l d = (w.toWork.direct bs l d).map fun r => (⟨r.1, w.memory⟩, r.2) := by
  cases d with
  | ifHolds operand | inclusion operand =>
    have h : Branches.active bs = false := h
    simp only [direct, Work.direct, h]
    rfl
  | elseIf operand =>
    have h : Branches.asksCondition bs = false := h
    simp only [direct, Work.direct, h]
    rfl
  | _ =>
    dsimp only [direct, bind, Except.bind]
    cases w.toWork.direct bs l _ <;> rfl

/-- **A directive is carried out as without the memory**, and no error is left behind
it. -/
theorem exists_direct_eq (h : w.memory.errors = []) (bs : Branches) (l : LogicalLine)
    (d : Directive) :
    ∃ m : Memory, m.errors = [] ∧
      w.direct bs l d = (w.toWork.direct bs l d).map fun r => (⟨r.1, m⟩, r.2) := by
  cases hd : d.mayExpand bs with
  | false => exact ⟨w.memory, h, direct_of_not_mayExpand hd w l⟩
  | true =>
    -- three directives are left, each with one use of the expander
    cases d with
    | ifHolds operand =>
      obtain ⟨m, hm, hc⟩ := exists_condition_eq h l operand
      have hd : Branches.active bs = true := hd
      refine ⟨m, hm, ?_⟩
      simp only [direct, Work.direct, hd, if_pos, hc]
      cases w.toWork.condition l operand <;> rfl
    | elseIf operand =>
      obtain ⟨m, hm, hc⟩ := exists_condition_eq h l operand
      have hd : Branches.asksCondition bs = true := hd
      refine ⟨m, hm, ?_⟩
      simp only [direct, Work.direct, hd, if_pos, hc]
      cases w.toWork.condition l operand <;> rfl
    | inclusion operand =>
      obtain ⟨m, hm, hi⟩ := exists_inclusion_eq h l operand
      have hd : Branches.active bs = true := hd
      refine ⟨m, hm, ?_⟩
      simp only [direct, Work.direct, hd, if_pos, hi]
      rfl
    | _ => cases hd

/-- **A logical line is carried out as without the memory**, and no error is left behind
it. -/
theorem exists_process_eq (h : w.memory.errors = []) (bs : Branches) (l : LogicalLine) :
    ∃ m : Memory, m.errors = [] ∧
      w.process bs l = (w.toWork.process bs l).map fun r => (⟨r.1, m⟩, r.2) := by
  unfold process Work.process
  cases Directive.ofLine? l.first.masked with
  | none =>
    dsimp only
    split
    · exact ⟨l.memory, rfl, by rw [emit_eq h]; rfl⟩
    · exact ⟨w.memory, h, rfl⟩
  | some _ =>
    cases Directive.ofLine? l.masked with
    | none => exact ⟨w.memory, h, rfl⟩
    | some d => exact exists_direct_eq h bs l d

end TrackedWork

/-- The state of a run, with the memory of its expander. -/
structure TrackedState extends State where
  memory : Memory

namespace TrackedState

/-- One step of a run.  The expander is put to use by logical lines only. -/
def step (resolve : Resolver) (s : TrackedState) : Except Stopped TrackedState :=
  match s.queue, s.files with
  | .line l :: queue, f :: files => do
    let (line, f, rest) := f.logicalLine l queue
    let (w, branches, request) ← TrackedWork.process ⟨s.work, s.memory⟩ f.branches line
    let t : State := { queue := rest, files := { f with branches } :: files, work := w.toWork }
    match request with
    | none => return ⟨t, w.memory⟩
    | some r => return ⟨← t.receive r (resolve r.inclusion), w.memory⟩
  | _, _ => do return ⟨← s.toState.step resolve, s.memory⟩

/-- The state in which a run starts: the expander was not put to use yet. -/
def start (table : Table) (diagnostics : Diagnostics) (file : String) (source : Text) :
    TrackedState :=
  { State.start table diagnostics file source with memory := {} }

/-- The state `s` can come up in a run that starts in the state `s₀`. -/
def Reaches (resolve : Resolver) (s₀ s : TrackedState) : Prop :=
  Relation.ReflTransGen (fun s t => s.step resolve = .ok t) s₀ s

variable {resolve : Resolver}

/-- A line that is carried out as without the memory makes a step as without the
memory. -/
theorem step_line_eq {l : SourceLine} {q : List Pending} {f : OpenFile} {fs : List OpenFile}
    {w : Work} {m m' : Memory}
    (h : TrackedWork.process ⟨w, m⟩ (f.logicalLine l q).2.1.branches (f.logicalLine l q).1 =
      (w.process (f.logicalLine l q).2.1.branches (f.logicalLine l q).1).map
        fun r => (⟨r.1, m'⟩, r.2)) :
    step resolve ⟨⟨.line l :: q, f :: fs, w⟩, m⟩ =
      (State.step resolve ⟨.line l :: q, f :: fs, w⟩).map (⟨·, m'⟩) := by
  rw [State.step, State.next_line]
  simp only [step, h]
  rcases w.process (f.logicalLine l q).2.1.branches (f.logicalLine l q).1 with e | ⟨w', bs, _ | r⟩
  · rfl
  · rfl
  · simp only [Except.map, bind, Except.bind]
    cases State.receive _ r (resolve r.inclusion) <;> rfl

/-- **A step is the step without the memory**, and no error is left behind it. -/
theorem exists_step_eq (resolve : Resolver) {s : TrackedState} (h : s.memory.errors = []) :
    ∃ m : Memory, m.errors = [] ∧
      s.step resolve = (s.toState.step resolve).map (⟨·, m⟩) := by
  obtain ⟨⟨queue, files, w⟩, memory⟩ := s
  match queue, files with
  | .line l :: q, f :: fs =>
    obtain ⟨m, hm, hp⟩ := TrackedWork.exists_process_eq (w := ⟨w, memory⟩) h
      (f.logicalLine l q).2.1.branches (f.logicalLine l q).1
    exact ⟨m, hm, step_line_eq hp⟩
  | .line l :: q, [] => exact ⟨memory, h, rfl⟩
  | .close file :: q, [] => exact ⟨memory, h, rfl⟩
  | .close file :: q, f :: fs => exact ⟨memory, h, rfl⟩
  | [], _ => exact ⟨memory, h, rfl⟩

variable {s₀ s t : TrackedState}

/-- A step that comes to an end is one without the memory, too. -/
theorem step_toState (hs : s.memory.errors = []) (h : s.step resolve = .ok t) :
    s.toState.step resolve = .ok t.toState ∧ t.memory.errors = [] := by
  obtain ⟨m, hm, heq⟩ := exists_step_eq resolve hs
  rw [heq] at h
  cases ht : s.toState.step resolve with
  | error e => rw [ht] at h; cases h
  | ok u =>
    rw [ht] at h
    obtain rfl := Except.ok.inj h
    exact ⟨rfl, hm⟩

/-- **No error is left between the steps of a run.** -/
theorem Reaches.errors_eq_nil (hs : s₀.memory.errors = []) (h : Reaches resolve s₀ s) :
    s.memory.errors = [] := by
  induction h with
  | refl => exact hs
  | tail _ hstep ih => exact (step_toState ih hstep).2

/-- **A run with the memory is a run without it.** -/
theorem Reaches.toState (hs : s₀.memory.errors = []) (h : Reaches resolve s₀ s) :
    State.Reaches resolve s₀.toState s.toState := by
  induction h with
  | refl => exact .refl
  | tail hreaches hstep ih =>
    exact ih.tail (step_toState (Reaches.errors_eq_nil hs hreaches) hstep).1

/-- **A run without the memory is one with it**: every state comes up, with some
memory. -/
theorem exists_reaches (hs : s₀.memory.errors = []) {s : State}
    (h : State.Reaches resolve s₀.toState s) :
    ∃ m : Memory, m.errors = [] ∧ Reaches resolve s₀ ⟨s, m⟩ := by
  induction h with
  | refl => exact ⟨s₀.memory, hs, .refl⟩
  | tail _ hstep ih =>
    obtain ⟨m, hm, hreaches⟩ := ih
    obtain ⟨m', hm', heq⟩ := exists_step_eq resolve (s := ⟨_, m⟩) hm
    exact ⟨m', hm', hreaches.tail (by rw [heq, hstep]; rfl)⟩

end TrackedState
end DevicetreePrep
