/-
# The queue of a run is nested

The queue holds the lines of several files with nothing but the ends of the
files between them.  In every state that a run comes to, the queue and the open
files fit together: first come lines of the innermost file and its end, then
lines of the file that includes it and its end, and so on, and behind the end of
the outermost file there is nothing (`State.Reaches.isNested`).  So the ends in the
queue are those of the open files, in their order (`Nested.filterMap_closed?`),
and a line that is continued takes lines of its own file only
(`State.IsNested.exists_of_logicalLine`).
-/

import DevicetreePrep.Proofs.Run.Recursion
import Mathlib.Logic.Relation

namespace DevicetreePrep

/-- The file whose end an entry of the queue is. -/
def Pending.closed? : Pending → Option String
  | close file => some file
  | line _ => none

/-- The queue belongs to the open files of these names, the innermost one first:
the lines of each file are followed by its end. -/
inductive Nested : List String → List Pending → Prop
  | nil : Nested [] []
  | line {l : SourceLine} {file : String} {outer : List String} {q : List Pending}
      (own : l.file = file) (rest : Nested (file :: outer) q) : Nested (file :: outer) (.line l :: q)
  | close {file : String} {outer : List String} {q : List Pending} (rest : Nested outer q) :
      Nested (file :: outer) (.close file :: q)

namespace Nested

variable {file : String} {names outer : List String} {q : List Pending}

/-- **The ends in the queue are those of the open files**, the innermost one
first. -/
theorem filterMap_closed? (h : Nested names q) : q.filterMap Pending.closed? = names := by
  induction h with
  | nil => rfl
  | line _ _ ih => rw [List.filterMap_cons_none (by rfl), ih]
  | close _ ih => rw [List.filterMap_cons_some (by rfl), ih]

/-- There are as many ends in the queue as open files. -/
theorem countP_isClose (h : Nested names q) : q.countP Pending.isClose = names.length := by
  induction h with
  | nil => rfl
  | line _ _ ih => rw [List.countP_cons_of_neg (by simp [Pending.isClose]), ih]
  | close _ ih => rw [List.countP_cons_of_pos (by rfl), ih, List.length_cons]

/-- **The lines before the first end are those of the innermost file.** -/
theorem file_eq_of_mem (h : Nested (file :: outer) q) {l : SourceLine}
    (hl : .line l ∈ q.takeWhile fun p => !p.isClose) : l.file = file := by
  generalize hn : file :: outer = names at h
  induction h with
  | nil => cases hn
  | line own _ ih =>
    rw [List.takeWhile_cons_of_pos (by rfl), List.mem_cons] at hl
    rcases hl with hl | hl
    · rw [Pending.line.inj hl, own]
      exact (List.cons.inj hn).1.symm
    · exact ih hl hn
  | close _ _ =>
    rw [List.takeWhile_cons_of_neg (by simp [Pending.isClose])] at hl
    cases hl

/-- The lines of a file, with its end, go before a queue that is nested. -/
theorem append_lines {ls : List SourceLine} (hls : ∀ l ∈ ls, l.file = file) (h : Nested outer q) :
    Nested (file :: outer) (ls.map .line ++ .close file :: q) := by
  induction ls with
  | nil => exact .close h
  | cons l ls ih =>
    exact .line (hls l (List.mem_cons_self ..)) (ih fun m hm => hls m (List.mem_cons_of_mem _ hm))

end Nested

/-- A continued line takes lines from the front of the queue. -/
theorem OpenFile.exists_of_continuation (f : OpenFile) (last : MaskedLine) (q : List Pending) :
    ∃ ls : List SourceLine, q = ls.map .line ++ (f.continuation last q).2.2 ∧
      (f.continuation last q).1.map MaskedLine.raw = ls.map SourceLine.text ∧
      (f.continuation last q).2.1.file = f.file := by
  fun_induction OpenFile.continuation f last q with
  | case1 f last l queue _ more f' rest hr ih =>
    obtain ⟨ls, hq, hraw, hf⟩ := ih
    rw [hr] at hq hraw hf
    exact ⟨l :: ls, by rw [hq]; rfl, by rw [List.map_cons, List.map_cons, hraw]; rfl, hf⟩
  | case2 => exact ⟨[], rfl, rfl, rfl⟩
  | case3 => exact ⟨[], rfl, rfl, rfl⟩

/-- What is left of a nested queue behind lines at its front is nested in the same
way, and these lines are lines of the innermost file. -/
theorem Nested.of_append {names : List String} {ls : List SourceLine} {q : List Pending}
    (h : Nested names (ls.map .line ++ q)) :
    Nested names q ∧ ∀ l ∈ ls, names.head? = some l.file := by
  induction ls with
  | nil => exact ⟨h, fun l hl => absurd hl List.not_mem_nil⟩
  | cons l ls ih =>
    cases h with
    | line own rest =>
      obtain ⟨hq, hls⟩ := ih rest
      refine ⟨hq, fun m hm => ?_⟩
      rcases List.mem_cons.1 hm with rfl | hm
      · rw [own]
        rfl
      · exact hls m hm

namespace State

/-- What stands in the queue for a file: its lines and its end. -/
theorem entries_eq (file : String) (source : Text) :
    entries file source = (SourceLine.ofFile file source).map .line ++ [.close file] := by
  rw [entries, SourceLine.ofFile, List.mapIdx_eq_zipIdx_map, List.mapIdx_eq_zipIdx_map,
    List.map_map]
  rfl

/-- The step that a line at the front of the queue leads to: its logical line is
carried out, and the innermost file goes on behind it. -/
theorem next_line (l : SourceLine) (q : List Pending) (f : OpenFile) (fs : List OpenFile)
    (w : Work) :
    next ⟨.line l :: q, f :: fs, w⟩ =
      (w.process (f.logicalLine l q).2.1.branches (f.logicalLine l q).1).map fun r =>
        (⟨(f.logicalLine l q).2.2, { (f.logicalLine l q).2.1 with branches := r.2.1 } :: fs, r.1⟩,
          r.2.2) := by
  simp only [next, bind, Except.bind, pure, Except.pure]
  cases w.process (f.logicalLine l q).2.1.branches (f.logicalLine l q).1 <;> rfl

/-- The names of the open files, the innermost one first. -/
def openNames (s : State) : List String :=
  s.files.map OpenFile.file

/-- The queue of the state belongs to its open files. -/
def IsNested (s : State) : Prop :=
  Nested s.openNames s.queue

/-- The state `s` can come up in a run that starts in the state `s₀`. -/
def Reaches (resolve : Resolver) (s₀ s : State) : Prop :=
  Relation.ReflTransGen (fun s t => s.step resolve = .ok t) s₀ s

variable {resolve : Resolver} {s t : State}

/-- In a nested state there are as many ends in the queue as open files. -/
theorem IsNested.depth_eq (h : s.IsNested) : s.depth = s.openNames.length :=
  h.countP_isClose

/-- To open a file keeps a state nested. -/
theorem IsNested.openFile (h : s.IsNested) (file : String) (source : Text) :
    (s.openFile file source).IsNested := by
  rw [IsNested, State.openFile, entries_eq, List.append_assoc, List.singleton_append]
  exact Nested.append_lines (fun l => SourceLine.file_of_mem_ofFile) h

/-- A run starts in a nested state. -/
theorem isNested_start (table : Table) (diagnostics : Diagnostics) (file : String) (source : Text) :
    (start table diagnostics file source).IsNested :=
  IsNested.openFile (s := ⟨[], [], { table, diagnostics }⟩) .nil file source

/-- **A continued line takes lines of its own file only**, and what it leaves of
the queue is nested as before. -/
theorem IsNested.exists_of_logicalLine {l : SourceLine} {q : List Pending} {f : OpenFile}
    {fs : List OpenFile} {w : Work} (hs : IsNested ⟨.line l :: q, f :: fs, w⟩) :
    ∃ ls : List SourceLine, q = ls.map .line ++ (f.logicalLine l q).2.2 ∧
      (f.logicalLine l q).1.parts.map MaskedLine.raw = (l :: ls).map SourceLine.text ∧
      (∀ m ∈ l :: ls, m.file = f.file) ∧
      (f.logicalLine l q).2.1.file = f.file ∧
      Nested (f.file :: fs.map OpenFile.file) (f.logicalLine l q).2.2 := by
  obtain ⟨ls, hq, hraw, hf⟩ := (f.after l).exists_of_continuation (f.mask l) q
  change q = ls.map .line ++ (f.logicalLine l q).2.2 at hq
  have hn : Nested (f.file :: fs.map OpenFile.file)
      ((l :: ls).map .line ++ (f.logicalLine l q).2.2) := by
    rw [List.map_cons, List.cons_append, ← hq]
    exact hs
  obtain ⟨hrest, hls⟩ := hn.of_append
  refine ⟨ls, hq, ?_, fun m hm => (Option.some.inj (hls m hm)).symm, hf, hrest⟩
  rw [LogicalLine.parts, List.map_cons, List.map_cons, ← hraw]
  rfl

/-- To take the next thing from the queue keeps a state nested. -/
theorem IsNested.next {r : Option Request} (hs : s.IsNested) (h : s.next = .ok (t, r)) :
    t.IsNested := by
  obtain ⟨queue, files, work⟩ := s
  match queue, files with
  | [], files =>
    obtain ⟨rfl, -⟩ := Prod.mk.inj (Except.ok.inj h)
    exact hs
  | .line l :: q, [] => nomatch hs
  | .close file :: q, [] => nomatch hs
  | .close file :: q, f :: fs =>
    obtain ⟨rfl, -⟩ := Prod.mk.inj (Except.ok.inj h)
    cases hs with
    | close rest => exact rest
  | .line l :: q, f :: fs =>
    rw [next_line] at h
    cases hw : work.process (f.logicalLine l q).2.1.branches (f.logicalLine l q).1 with
    | error e => rw [hw] at h; cases h
    | ok r =>
      rw [hw] at h
      obtain ⟨rfl, -⟩ := Prod.mk.inj (Except.ok.inj h)
      obtain ⟨-, -, -, -, hf, hrest⟩ := hs.exists_of_logicalLine
      rw [← hf] at hrest
      exact hrest

/-- The state behind the answer to a request: the file that it brings in, if any,
is opened. -/
def accepted (s : State) (a : Work × Option IncludedFile) : State :=
  match a.2 with
  | none => { s with work := a.1 }
  | some g => { s with work := a.1 }.openFile g.file g.text

/-- Where the queue has an end for each open file, an answer is taken in as the
names of the open files say. -/
theorem receive_eq (hs : s.depth = s.openNames.length) (r : Request) (answer : Resolution) :
    s.receive r answer = (s.work.accept s.openNames r answer).map s.accepted := by
  have hopen (file : String) : s.files.any (·.file = file) ↔ file ∈ s.openNames := by
    simp [openNames]
  unfold receive Work.accept
  cases answer with
  | broken e => rfl
  | failed e => rfl
  | found g =>
    simp only [hs, hopen, List.contains_iff_mem, ← Nat.not_le]
    repeat' split
    all_goals first | rfl | contradiction

/-- To take in the answer to a request keeps a state nested. -/
theorem IsNested.receive {r : Request} {answer : Resolution} (hs : s.IsNested)
    (h : s.receive r answer = .ok t) : t.IsNested := by
  rw [receive_eq hs.depth_eq] at h
  cases ha : s.work.accept s.openNames r answer with
  | error e => rw [ha] at h; cases h
  | ok a =>
    rw [ha] at h
    obtain rfl := Except.ok.inj h
    obtain ⟨w, g | g⟩ := a
    · exact hs
    · exact IsNested.openFile (s := { s with work := w }) hs g.file g.text

/-- **A step keeps a state nested.** -/
theorem IsNested.step (hs : s.IsNested) (h : s.step resolve = .ok t) : t.IsNested := by
  unfold State.step at h
  cases hn : s.next with
  | error e => rw [hn] at h; cases h
  | ok p =>
    obtain ⟨s', r⟩ := p
    rw [hn] at h
    have hs' := hs.next hn
    cases r with
    | none =>
      obtain rfl := Except.ok.inj h
      exact hs'
    | some r => exact hs'.receive h

/-- **Every state that a run comes to is nested.** -/
theorem Reaches.isNested (hs : s.IsNested) (h : Reaches resolve s t) : t.IsNested := by
  induction h with
  | refl => exact hs
  | tail _ hstep ih => exact ih.step hstep

end State
end DevicetreePrep
