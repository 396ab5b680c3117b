/-
# The queue comes to the same as reading files one inside the other

A run has one queue for all files and puts the lines of a file that is included
at its front.  `State.run_eq_readLines` says what the run does with the part of
the queue that belongs to the innermost file: it reads this file to its end as
`Work.readLines` does, and then goes on with the rest of the queue as if the file
had never been open.  The proof follows the recursion of `Work.readLines`.  The
queue being nested is what makes the two counts of open files agree.
-/

import DevicetreePrep.Proofs.Run.Nesting

namespace DevicetreePrep

/-- In the queue, a line is continued by what continues it in its file: the end of
the file stops it. -/
theorem OpenFile.continuation_map_append (f : OpenFile) (last : MaskedLine) (ls : List SourceLine)
    (file : String) (q : List Pending) :
    f.continuation last (ls.map .line ++ .close file :: q) =
      ((f.continuationOf last ls).1, (f.continuationOf last ls).2.1,
        (f.continuationOf last ls).2.2.map .line ++ .close file :: q) := by
  fun_induction OpenFile.continuationOf f last ls with
  | case1 => rfl
  | case2 f last l ls hc more f' rest hr ih =>
    rw [hr] at ih
    rw [List.map_cons, List.cons_append, OpenFile.continuation, if_pos hc, ih]
  | case3 f last l ls hc =>
    rw [List.map_cons, List.cons_append, OpenFile.continuation, if_neg hc]

/-- A logical line of the queue is a logical line of its file. -/
theorem OpenFile.logicalLine_map_append (f : OpenFile) (l : SourceLine) (ls : List SourceLine)
    (file : String) (q : List Pending) :
    f.logicalLine l (ls.map .line ++ .close file :: q) =
      ((f.logicalLineOf l ls).1, (f.logicalLineOf l ls).2.1,
        (f.logicalLineOf l ls).2.2.map .line ++ .close file :: q) := by
  simp only [OpenFile.logicalLine, OpenFile.continuation_map_append]
  rfl

/-- A logical line leaves the name of its file as it is. -/
theorem OpenFile.file_logicalLineOf (f : OpenFile) (l : SourceLine) (ls : List SourceLine) :
    (f.logicalLineOf l ls).2.1.file = f.file := by
  have key (g : OpenFile) (last : MaskedLine) (ls : List SourceLine) :
      (g.continuationOf last ls).2.1.file = g.file := by
    fun_induction OpenFile.continuationOf g last ls with
    | case1 => rfl
    | case2 g last l ls _ more g' rest hr ih => rw [hr] at ih; exact ih
    | case3 => rfl
  exact key (f.after l) (f.mask l) ls

namespace State

variable {resolve : Resolver}

/-- A run with a queue takes a step and goes on from there. -/
theorem run_eq_bind_step {s : State} (hs : s.queue ≠ []) :
    s.run resolve = (s.step resolve).bind (run resolve) := by
  rw [run, dif_neg hs]
  split <;> rename_i h <;> rw [h] <;> rfl

/-- A run without a queue is at its end. -/
theorem run_of_queue_eq_nil {s : State} (hs : s.queue = []) : s.run resolve = .ok s.result := by
  rw [run, dif_pos hs]

/-- Without a queue a step changes nothing. -/
theorem step_of_queue_eq_nil {s : State} (hs : s.queue = []) : s.step resolve = .ok s := by
  obtain ⟨queue, files, work⟩ := s
  obtain rfl : queue = [] := hs
  rfl

/-- The state in which the innermost file `f` goes on with the lines `ls`; the
files `fs` wait with the queue `q`. -/
def reading (f : OpenFile) (ls : List SourceLine) (fs : List OpenFile) (q : List Pending)
    (w : Work) : State :=
  ⟨ls.map .line ++ .close f.file :: q, f :: fs, w⟩

/-- While the innermost file is read there is one end more in the queue. -/
theorem depth_reading (f : OpenFile) (ls : List SourceLine) (fs : List OpenFile)
    (q : List Pending) (w : Work) :
    (reading f ls fs q w).depth = q.countP Pending.isClose + 1 := by
  have hls : (ls.map Pending.line).countP Pending.isClose = 0 := by
    rw [List.countP_map, List.countP_eq_zero]
    exact fun l _ => Bool.false_ne_true
  rw [reading, depth, List.countP_append, hls, List.countP_cons_of_pos (by rfl), Nat.zero_add]

/-- An open file has one end in the queue, whatever is left of its lines. -/
theorem countP_queue_reading (f : OpenFile) (ls : List SourceLine) (fs : List OpenFile)
    (q : List Pending) (w : Work) :
    (reading f ls fs q w).queue.countP Pending.isClose = q.countP Pending.isClose + 1 :=
  depth_reading f ls fs q w

/-- To open a file is to read it with the rest of the queue waiting. -/
theorem openFile_eq_reading (s : State) (file : String) (source : Text) :
    s.openFile file source =
      reading { file } (SourceLine.ofFile file source) s.files s.queue s.work := by
  rw [openFile, entries_eq, List.append_assoc, List.singleton_append]
  rfl

/-- A file that is brought in is read with the rest of the queue waiting. -/
theorem accepted_reading (f : OpenFile) (ls : List SourceLine) (fs : List OpenFile)
    (q : List Pending) (w w' : Work) (g : IncludedFile) :
    (reading f ls fs q w).accepted (w', some g) =
      reading { file := g.file } (SourceLine.ofFile g.file g.text) (f :: fs)
        (reading f ls fs q w).queue w' :=
  openFile_eq_reading _ g.file g.text

/-- A run has a step to take while a file is read. -/
theorem run_reading (f : OpenFile) (ls : List SourceLine) (fs : List OpenFile) (q : List Pending)
    (w : Work) :
    (reading f ls fs q w).run resolve =
      ((reading f ls fs q w).step resolve).bind (run resolve) :=
  run_eq_bind_step (List.append_ne_nil_of_right_ne_nil _ (List.cons_ne_nil _ _))

/-- The step at a line of the innermost file. -/
theorem step_reading_cons {fs : List OpenFile} {q : List Pending}
    (hq : q.countP Pending.isClose = fs.length) (f : OpenFile) (l : SourceLine)
    (ls : List SourceLine) (w : Work) :
    (reading f (l :: ls) fs q w).step resolve =
      (w.process (f.logicalLineOf l ls).2.1.branches (f.logicalLineOf l ls).1).bind
        fun (w, branches, request) =>
          let s := reading { (f.logicalLineOf l ls).2.1 with branches } (f.logicalLineOf l ls).2.2
            fs q w
          match request with
          | none => .ok s
          | some r =>
            (w.accept (f.file :: fs.map OpenFile.file) r (resolve r.inclusion)).map s.accepted := by
  rw [step, reading, List.map_cons, List.cons_append, next_line, OpenFile.logicalLine_map_append,
    ← f.file_logicalLineOf l ls]
  dsimp only
  cases w.process (f.logicalLineOf l ls).2.1.branches (f.logicalLineOf l ls).1 with
  | error e => rfl
  | ok p =>
    obtain ⟨w, branches, r | r⟩ := p
    · rfl
    · refine receive_eq (s := reading { (f.logicalLineOf l ls).2.1 with branches }
        (f.logicalLineOf l ls).2.2 fs q w) ?_ r (resolve r.inclusion)
      rw [depth_reading, hq]
      exact (congrArg (· + 1) (List.length_map _)).symm

/-- **A run reads the innermost file to its end and goes on behind it.**  Whatever
files it opens on the way are closed again by then. -/
theorem run_eq_readLines {fs : List OpenFile} {q : List Pending}
    (hq : q.countP Pending.isClose = fs.length) (f : OpenFile) (w : Work)
    (lines : List SourceLine) :
    (reading f lines fs q w).run resolve =
      (w.readLines resolve (fs.map OpenFile.file) f lines).bind fun w =>
        run resolve ⟨q, fs, w⟩ := by
  generalize houter : fs.map OpenFile.file = outer
  fun_induction Work.readLines resolve outer f w lines generalizing fs q with
  | case1 outer f w =>
    rw [run_reading]
    rfl
  | case2 outer f w l ls line stopped =>
    rename_i hw
    rw [run_reading, step_reading_cons hq, hw]
    rfl
  | case3 outer f w l ls line w' branches hw =>
    rename_i ih
    rw [run_reading, step_reading_cons hq, hw]
    exact ih hq houter
  | case4 outer f w l ls line w' branches r hw stopped =>
    rename_i ha
    rw [run_reading, step_reading_cons hq, hw, houter]
    dsimp only [Except.bind]
    rw [ha]
    rfl
  | case5 outer f w l ls line w' branches r hw w'' ha =>
    rename_i ih
    rw [run_reading, step_reading_cons hq, hw, houter]
    dsimp only [Except.bind]
    rw [ha]
    exact ih hq houter
  | case6 outer f w l ls line w' branches r hw w'' g ha stopped hg =>
    rename_i ih
    rw [run_reading, step_reading_cons hq, hw, houter]
    dsimp only [Except.bind]
    rw [ha, Except.map, accepted_reading]
    dsimp only
    rw [ih (by rw [countP_queue_reading, hq]; rfl)
      (by rw [List.map_cons, houter, f.file_logicalLineOf]), hg]
    rfl
  | case7 outer f w l ls line w' branches r hw w'' g ha v hg ihg =>
    rename_i ih
    rw [run_reading, step_reading_cons hq, hw, houter]
    dsimp only [Except.bind]
    rw [ha, Except.map, accepted_reading]
    dsimp only
    rw [ihg (by rw [countP_queue_reading, hq]; rfl)
      (by rw [List.map_cons, houter, f.file_logicalLineOf]), hg]
    exact ih hq houter

end State

/-- **The queue refines inclusion by recursion.**  A run gives the lines, the table,
the files and statements, the diagnostics and the counter that reading the files
one inside the other gives, or stops for the same reason.  In every state on its
way the ends in the queue are those of the open files, the innermost one first;
the lines before the first end are lines of the innermost file; and a continued
line takes lines of its own file only. -/
theorem preprocess_eq_preprocessNested (resolve : Resolver) (table : Table)
    (diagnostics : Diagnostics) (file : String) (source : Text) :
    preprocess resolve table diagnostics file source =
        preprocessNested resolve table diagnostics file source ∧
      ∀ s, State.Reaches resolve (State.start table diagnostics file source) s →
        s.queue.filterMap Pending.closed? = s.files.map OpenFile.file ∧
        (∀ l, .line l ∈ s.queue.takeWhile (fun p => !p.isClose) →
          ∃ f fs, s.files = f :: fs ∧ l.file = f.file) ∧
        ∀ l q f fs, s.queue = .line l :: q → s.files = f :: fs →
          ∃ ls : List SourceLine, q = ls.map .line ++ (f.logicalLine l q).2.2 ∧
            (f.logicalLine l q).1.parts.map MaskedLine.raw = (l :: ls).map SourceLine.text ∧
            ∀ m ∈ l :: ls, m.file = f.file := by
  constructor
  · rw [preprocess, State.start, State.openFile_eq_reading, preprocessNested]
    refine (State.run_eq_readLines rfl { file } { table, diagnostics } _).trans ?_
    rw [List.map_nil]
    cases Work.readLines resolve [] { file } { table, diagnostics } (SourceLine.ofFile file source)
      with
    | error e => rfl
    | ok w => exact State.run_of_queue_eq_nil rfl
  · intro s hs
    have hn := hs.isNested (State.isNested_start table diagnostics file source)
    obtain ⟨queue, files, work⟩ := s
    refine ⟨hn.filterMap_closed?, fun l hl => ?_, ?_⟩
    · match files, hn with
      | [], hn => cases hn with | nil => cases hl
      | f :: fs, hn => exact ⟨f, fs, rfl, hn.file_eq_of_mem hl⟩
    · rintro l q f fs rfl rfl
      obtain ⟨ls, hq, hraw, hfile, -⟩ := hn.exists_of_logicalLine
      exact ⟨ls, hq, hraw, hfile⟩

/-- A state with two open files is reached where the first line of `m` includes
`a.h`: the ends in its queue are those of the two files. -/
theorem reaches_two_open_files :
    ∃ s, State.Reaches (Resolver.ofList [("a.h", ['x'])])
        (State.start {} {} "m" "#include \"a.h\"\nz".toList) s ∧
      s.files.map OpenFile.file = ["a.h", "m"] ∧
      s.queue.filterMap Pending.closed? = s.files.map OpenFile.file := by
  have hstep : ∃ s, (State.start {} {} "m" "#include \"a.h\"\nz".toList).step
      (Resolver.ofList [("a.h", ['x'])]) = .ok s ∧ s.files.map OpenFile.file = ["a.h", "m"] :=
    ⟨_, rfl, rfl⟩
  obtain ⟨s, hs, hfiles⟩ := hstep
  have hreach : State.Reaches _ (State.start {} {} "m" "#include \"a.h\"\nz".toList) s :=
    .single hs
  exact ⟨s, hreach, hfiles, ((preprocess_eq_preprocessNested _ _ _ _ _).2 s hreach).1⟩

end DevicetreePrep
