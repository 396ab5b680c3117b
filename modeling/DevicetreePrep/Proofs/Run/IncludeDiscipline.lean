/-
# The discipline of inclusion

Whatever the resolver answers, a run keeps to the rules of inclusion.  No file is open
twice at the same time, and no more than so many are open at all.  A file that is marked
to be included once only is never opened again.  The list of included files and the
list of the statements that include them name the files that were opened, in the order
in which they were (`State.Opens`).  And an inclusion that brings in no file does
nothing but report (`State.step_of_refuses`).

All of this is read off one step.  It opens a file, and then the file is not open, not
marked and not one too many; or it opens none, and then nothing is recorded
(`State.Moves`).  What a logical line may do beside that is known from `Work.Effect`.
-/

import DevicetreePrep.Proofs.Run.Alike
import DevicetreePrep.Proofs.Run.Inclusion

namespace DevicetreePrep

/-- A logical line changes its file in the comment that is open, and in nothing else. -/
theorem OpenFile.logicalLine_eq (f : OpenFile) (l : SourceLine) (q : List Pending) :
    (f.logicalLine l q).2.1 =
      { f with
        inComment := (f.logicalLine l q).2.1.inComment
        commentLine := (f.logicalLine l q).2.1.commentLine } := by
  have key (g : OpenFile) (last : MaskedLine) (q : List Pending) :
      (g.continuation last q).2.1 =
        { g with
          inComment := (g.continuation last q).2.1.inComment
          commentLine := (g.continuation last q).2.1.commentLine } := by
    fun_induction OpenFile.continuation g last q with
    | case1 g last l queue _ more g' rest hr ih => rw [hr] at ih; exact ih
    | case2 => rfl
    | case3 => rfl
  exact key (f.after l) (f.mask l) q

/-- No logical line brings in a file, and none takes back a mark. -/
theorem Work.Effect.inclusions {w w' : Work} {bs bs' : Branches} {l : LogicalLine}
    {r : Option Request} (h : Effect w bs l (w', bs', r)) :
    w'.includes = w.includes ∧ w'.statements = w.statements ∧ w.once ⊆ w'.once := by
  cases h with
  | branches h | text _ h | table _ h | request _ h =>
    obtain ⟨n, ds, rfl⟩ := h
    exact ⟨rfl, rfl, List.Subset.refl _⟩
  | once =>
    refine ⟨rfl, rfl, ?_⟩
    dsimp only
    split
    · exact List.Subset.refl _
    · exact List.subset_cons_self _ _

/-- A logical line that makes up a directive is carried out as this directive. -/
theorem Work.process_eq_direct {l : LogicalLine} {d : Directive}
    (h : MaskedLine.directive? l.parts = some d) (w : Work) (bs : Branches) :
    w.process bs l = w.direct bs l d := by
  obtain ⟨d₀, hfirst, hline⟩ := Option.bind_eq_some_iff.1 h
  have hfirst : Directive.ofLine? l.first.masked = some d₀ := hfirst
  have hline : Directive.ofLine? l.masked = some d := hline
  rw [process, hfirst, hline]

namespace State

variable {resolve : Resolver} {s t u : State}

/-- The state behind the logical line at the front of the queue, if that line does
nothing: its physical lines are gone, and a comment may be open behind them. -/
def pastLine (s : State) : State :=
  match s.queue, s.files with
  | .line l :: q, f :: fs =>
    { s with
      queue := (f.logicalLine l q).2.2
      files :=
        { f with
          inComment := (f.logicalLine l q).2.1.inComment
          commentLine := (f.logicalLine l q).2.1.commentLine } :: fs }
  | _, _ => s

/-- Passing a line leaves the open files as they are. -/
theorem openNames_pastLine (s : State) : s.pastLine.openNames = s.openNames := by
  unfold pastLine
  split
  · rename_i hfiles
    rw [openNames, openNames, hfiles]
    rfl
  · rfl

/-- **To ask for a file is to go past the line and to report.** -/
theorem eq_pastLine_of_next {r : Request} (h : s.next = .ok (t, some r)) :
    t = { s.pastLine with work := t.work } ∧ s.work.Reports t.work := by
  obtain ⟨queue, files, w⟩ := s
  match queue, files with
  | [], _ => cases h
  | .line l :: q, [] => cases h
  | .close file :: q, [] => cases h
  | .close file :: q, f :: fs => cases h
  | .line l :: q, f :: fs =>
    rw [next_line] at h
    cases hw : w.process (f.logicalLine l q).2.1.branches (f.logicalLine l q).1 with
    | error e => rw [hw] at h; cases h
    | ok p =>
      rw [hw] at h
      obtain ⟨w', bs, r'⟩ := p
      obtain ⟨rfl, rfl⟩ := Prod.mk.inj (Except.ok.inj h)
      cases Work.effect_of_process hw with
      | request _ hreports =>
        refine ⟨?_, hreports⟩
        dsimp only [pastLine]
        rw [← f.logicalLine_eq]

/-- While a file is asked for, the same files are open. -/
theorem openNames_of_next {r : Request} (h : s.next = .ok (t, some r)) :
    t.openNames = s.openNames := by
  rw [(eq_pastLine_of_next h).1]
  exact s.openNames_pastLine

/-- In a nested state, the step at an inclusion is decided by the names of the open
files. -/
theorem step_eq_accept (hs : s.IsNested) {r : Request} (h : s.next = .ok (t, some r)) :
    s.step resolve =
      (t.work.accept t.openNames r (resolve r.inclusion)).map t.accepted := by
  rw [step, h]
  exact receive_eq (hs.next h).depth_eq r _

/-- The answer brings in no file: there is none, it is marked to be included once only,
it is open already, or too many files are open. -/
inductive Refuses (s : State) : Resolution → Prop
  | notFound (e : InclusionError) : Refuses s (.failed e)
  | marked {g : IncludedFile} (h : g.file ∈ s.work.once) : Refuses s (.found g)
  | circular {g : IncludedFile} (h : g.file ∈ s.openNames) : Refuses s (.found g)
  | tooDeep {g : IncludedFile} (h : openLimit ≤ s.openNames.length) : Refuses s (.found g)

/-- A refused answer is only reported, also behind the line that asks. -/
theorem Refuses.accept {a : Resolution} (h : s.Refuses a) (hnames : t.openNames = s.openNames)
    (hw : s.work.Reports t.work) (r : Request) :
    ∃ w, s.work.Reports w ∧ t.work.accept t.openNames r a = .ok (w, none) := by
  have honce : t.work.once = s.work.once := by
    obtain ⟨n, ds, hw⟩ := hw
    rw [hw]
  have hreport (p : Problem) : s.work.Reports (t.work.report r.inclusion.includer r.line p) :=
    hw.trans (Work.reports_push _ _)
  unfold Work.accept
  cases h with
  | notFound e => exact ⟨_, hreport _, rfl⟩
  | marked h => exact ⟨_, hw, if_pos (honce ▸ h)⟩
  | circular h =>
    dsimp only
    rw [hnames, if_pos h]
    split
    · exact ⟨_, hw, rfl⟩
    · exact ⟨_, hreport _, rfl⟩
  | tooDeep h =>
    dsimp only
    rw [hnames, if_pos h]
    split
    · exact ⟨_, hw, rfl⟩
    · split
      · exact ⟨_, hreport _, rfl⟩
      · exact ⟨_, hreport _, rfl⟩

/-- **An inclusion that brings in no file does nothing but report.** -/
theorem step_of_refuses (hs : s.IsNested) {r : Request} (hnext : s.next = .ok (t, some r))
    (h : s.Refuses (resolve r.inclusion)) :
    ∃ n ds, s.step resolve =
      .ok { s.pastLine with work := { s.work with counter := n, diagnostics := ds } } := by
  obtain ⟨hpast, hw⟩ := eq_pastLine_of_next hnext
  obtain ⟨w, ⟨n, ds, rfl⟩, haccept⟩ := h.accept (openNames_of_next hnext) hw r
  refine ⟨n, ds, ?_⟩
  rw [step_eq_accept hs hnext, haccept, Except.map, accepted, hpast]

/-- What a step does to the open files and to the record of inclusions. -/
inductive Moves (s t : State) : Prop
  /-- The innermost file goes on, or is closed. -/
  | stays (names : t.openNames = s.openNames ∨ t.openNames = s.openNames.tail)
      (includes : t.work.includes = s.work.includes)
      (statements : t.work.statements = s.work.statements)
  /-- A file is opened. -/
  | enters (i : IncludeStatement) (names : t.openNames = i.resolved :: s.openNames)
      (closed : i.resolved ∉ s.openNames) (unmarked : i.resolved ∉ s.work.once)
      (limit : s.openNames.length < openLimit)
      (includes : t.work.includes = i.resolved :: s.work.includes)
      (statements : t.work.statements = i :: s.work.statements)

/-- What comes next opens no file by itself. -/
theorem stays_of_next {r : Option Request} (h : s.next = .ok (t, r)) :
    (t.openNames = s.openNames ∨ t.openNames = s.openNames.tail) ∧
      t.work.includes = s.work.includes ∧ t.work.statements = s.work.statements ∧
      s.work.once ⊆ t.work.once := by
  obtain ⟨queue, files, w⟩ := s
  match queue, files with
  | [], _ =>
    obtain ⟨rfl, -⟩ := Prod.mk.inj (Except.ok.inj h)
    exact ⟨.inl rfl, rfl, rfl, List.Subset.refl _⟩
  | .line l :: q, [] =>
    obtain ⟨rfl, -⟩ := Prod.mk.inj (Except.ok.inj h)
    exact ⟨.inl rfl, rfl, rfl, List.Subset.refl _⟩
  | .close file :: q, [] =>
    obtain ⟨rfl, -⟩ := Prod.mk.inj (Except.ok.inj h)
    exact ⟨.inl rfl, rfl, rfl, List.Subset.refl _⟩
  | .close file :: q, f :: fs =>
    obtain ⟨rfl, -⟩ := Prod.mk.inj (Except.ok.inj h)
    obtain ⟨n, ds, hw⟩ := w.reports_reportEnd file f
    rw [hw]
    exact ⟨.inr rfl, rfl, rfl, List.Subset.refl _⟩
  | .line l :: q, f :: fs =>
    rw [next_line] at h
    cases hw : w.process (f.logicalLine l q).2.1.branches (f.logicalLine l q).1 with
    | error e => rw [hw] at h; cases h
    | ok p =>
      rw [hw] at h
      obtain ⟨rfl, -⟩ := Prod.mk.inj (Except.ok.inj h)
      refine ⟨.inl ?_, (Work.effect_of_process hw).inclusions⟩
      have hfile : (f.logicalLine l q).2.1.file = f.file := by rw [f.logicalLine_eq]
      exact congrArg (List.cons · (fs.map OpenFile.file)) hfile

/-- Behind the line that asks for it, a file is opened only if it is not open, not
marked, and not one too many. -/
theorem moves_of_accept {r : Request} {a : Resolution} {b : Work × Option IncludedFile}
    (hnames : u.openNames = s.openNames) (hw : s.work.Reports u.work)
    (h : u.work.accept u.openNames r a = .ok b) :
    s.Moves (u.accepted b) ∧ s.work.once ⊆ (u.accepted b).work.once := by
  obtain ⟨queue, files, w⟩ := u
  obtain ⟨n, ds, rfl⟩ := hw
  have hrefused (p : Problem) := Moves.stays (s := s)
    (t := ⟨queue, files, Work.report { s.work with counter := n, diagnostics := ds }
      r.inclusion.includer r.line p⟩) (.inl hnames) rfl rfl
  rw [hnames] at h
  unfold Work.accept at h
  cases a with
  | broken e => cases h
  | failed e =>
    obtain rfl := Except.ok.inj h
    exact ⟨hrefused _, List.Subset.refl _⟩
  | found g =>
    dsimp only at h
    split at h
    · obtain rfl := Except.ok.inj h
      exact ⟨.stays (.inl hnames) rfl rfl, List.Subset.refl _⟩
    · rename_i honce
      split at h
      · obtain rfl := Except.ok.inj h
        exact ⟨hrefused _, List.Subset.refl _⟩
      · rename_i hopen
        split at h
        · obtain rfl := Except.ok.inj h
          exact ⟨hrefused _, List.Subset.refl _⟩
        · rename_i hlimit
          obtain rfl := Except.ok.inj h
          let i : IncludeStatement :=
            { file := r.inclusion.includer, line := r.line, column := r.column
              target := r.inclusion.target, resolved := g.file }
          have hopened := congrArg (List.cons g.file) hnames
          exact ⟨.enters i hopened hopen honce (Nat.not_le.1 hlimit) rfl rfl, List.Subset.refl _⟩

/-- **A step opens a file as the rules allow, or it opens none and records none.**  No
mark is taken back. -/
theorem moves_of_step (hs : s.IsNested) (h : s.step resolve = .ok t) :
    s.Moves t ∧ s.work.once ⊆ t.work.once := by
  cases hnext : s.next with
  | error e => rw [step, hnext] at h; cases h
  | ok p =>
    obtain ⟨u, r | r⟩ := p
    · rw [step, hnext] at h
      obtain rfl := Except.ok.inj h
      obtain ⟨names, includes, statements, honce⟩ := stays_of_next hnext
      exact ⟨.stays names includes statements, honce⟩
    · rw [step_eq_accept hs hnext] at h
      cases haccept : u.work.accept u.openNames r (resolve r.inclusion) with
      | error e => rw [haccept] at h; cases h
      | ok b =>
        rw [haccept] at h
        obtain rfl := Except.ok.inj h
        exact moves_of_accept (openNames_of_next hnext) (eq_pastLine_of_next hnext).2 haccept

/-- The open files keep to the rules: none is open twice, and not too many are. -/
structure IsOrderly (s : State) : Prop where
  nested : s.IsNested
  nodup : s.openNames.Nodup
  limit : s.openNames.length ≤ openLimit

/-- A run starts by the rules for open files. -/
theorem isOrderly_start (table : Table) (diagnostics : Diagnostics) (file : String)
    (source : Text) : (start table diagnostics file source).IsOrderly where
  nested := isNested_start table diagnostics file source
  nodup := List.nodup_singleton file
  limit := by
    change 1 ≤ openLimit
    decide

/-- **A step keeps to the rules for open files.** -/
theorem IsOrderly.step (hs : s.IsOrderly) (h : s.step resolve = .ok t) : t.IsOrderly := by
  have hnested := hs.nested.step h
  cases (moves_of_step hs.nested h).1 with
  | stays names =>
    rcases names with names | names
    · exact ⟨hnested, names ▸ hs.nodup, names ▸ hs.limit⟩
    · refine ⟨hnested, names ▸ hs.nodup.tail, ?_⟩
      rw [names, List.length_tail]
      have := hs.limit
      omega
  | enters i names closed _ limit =>
    refine ⟨hnested, ?_, ?_⟩
    · rw [names]
      exact hs.nodup.cons closed
    · rw [names, List.length_cons]
      exact limit

/-- A run keeps to the rules for open files. -/
theorem Reaches.isOrderly (h : Reaches resolve s t) (hs : s.IsOrderly) : t.IsOrderly := by
  induction h with
  | refl => exact hs
  | tail _ hstep ih => exact ih.step hstep

/-- No mark is taken back in a run. -/
theorem Reaches.once_subset (h : Reaches resolve s t) (hs : s.IsNested) :
    s.work.once ⊆ t.work.once := by
  induction h with
  | refl => exact List.Subset.refl _
  | tail hreach hstep ih =>
    exact List.Subset.trans ih (moves_of_step (Reaches.isNested hs hreach) hstep).2

/-- The file that a step from `s` to `t` opens: the innermost one, if there is one more
than before. -/
def opened? (s t : State) : Option String :=
  if s.openNames.length < t.openNames.length then t.openNames.head? else none

/-- No file is opened where the innermost one goes on or is closed. -/
theorem opened?_eq_none (names : t.openNames = s.openNames ∨ t.openNames = s.openNames.tail) :
    opened? s t = none := by
  refine if_neg ?_
  rcases names with names | names
  · rw [names]
    omega
  · rw [names, List.length_tail]
    omega

theorem opened?_eq_some {file : String} (names : t.openNames = file :: s.openNames) :
    opened? s t = some file := by
  rw [opened?, names, List.length_cons, if_pos (Nat.lt_succ_self _), List.head?_cons]

/-- A file that is marked is not opened. -/
theorem notMem_once_of_opened? (hs : s.IsNested) (h : s.step resolve = .ok t) {file : String}
    (hfile : opened? s t = some file) : file ∉ s.work.once := by
  cases (moves_of_step hs h).1 with
  | stays names => rw [opened?_eq_none names] at hfile; cases hfile
  | enters i names _ unmarked =>
    rw [opened?_eq_some names] at hfile
    exact Option.some.inj hfile ▸ unmarked

/-- A run that starts in `s₀` comes to a state and opens these files on its way, in this
order. -/
inductive Opens (resolve : Resolver) (s₀ : State) : List String → State → Prop
  | start : Opens resolve s₀ [] s₀
  | step {names : List String} {s t : State} (h : Opens resolve s₀ names s)
      (hstep : s.step resolve = .ok t) : Opens resolve s₀ (names ++ (opened? s t).toList) t

/-- A run opens files on its way. -/
theorem Reaches.exists_opens (h : Reaches resolve s t) : ∃ names, Opens resolve s names t := by
  induction h with
  | refl => exact ⟨[], .start⟩
  | tail _ hstep ih =>
    obtain ⟨names, hnames⟩ := ih
    exact ⟨_, hnames.step hstep⟩

/-- What opens files on its way is a run. -/
theorem Opens.reaches {names : List String} (h : Opens resolve s names t) :
    Reaches resolve s t := by
  induction h with
  | start => exact .refl
  | step _ hstep ih => exact ih.tail hstep

/-- **The record of inclusions names the files that were opened**, the latest one
first. -/
theorem Opens.record {names : List String} (h : Opens resolve s names t) (hs : s.IsNested)
    (hincludes : s.work.includes = []) (hstatements : s.work.statements = []) :
    t.work.includes = names.reverse ∧
      t.work.statements.map IncludeStatement.resolved = names.reverse := by
  induction h with
  | start =>
    rw [hincludes, hstatements]
    exact ⟨rfl, rfl⟩
  | @step names u v hopens hstep ih =>
    obtain ⟨ihincludes, ihstatements⟩ := ih
    cases (moves_of_step (hopens.reaches.isNested hs) hstep).1 with
    | stays names includes statements =>
      rw [opened?_eq_none names, Option.toList_none, List.append_nil, includes, statements]
      exact ⟨ihincludes, ihstatements⟩
    | enters i names _ _ _ includes statements =>
      rw [opened?_eq_some names, Option.toList_some, List.reverse_append, includes,
        statements, List.map_cons, ihincludes, ihstatements]
      exact ⟨rfl, rfl⟩

/-- The line at the front of the queue marks the file that it stands in, which goes by
this name, and the place is active. -/
def MarksOnce (s : State) (file : String) : Prop :=
  ∃ l q f fs operand, s.queue = .line l :: q ∧ s.files = f :: fs ∧ f.file = file ∧
    Branches.active f.branches = true ∧
    MaskedLine.directive? (f.logicalLine l q).1.parts = some (.pragma operand) ∧
    Text.trim operand = "once".toList

/-- A file is marked behind the line that marks it. -/
theorem MarksOnce.mem_once {file : String} (h : s.MarksOnce file) (hs : s.IsNested)
    (hstep : s.step resolve = .ok t) : file ∈ t.work.once := by
  obtain ⟨queue, files, w⟩ := s
  obtain ⟨l, q, f, fs, operand, rfl, rfl, rfl, hactive, hdirective, honce⟩ := h
  obtain ⟨ls, -, -, hfile, -⟩ := hs.exists_of_logicalLine
  have hbranches : (f.logicalLine l q).2.1.branches = f.branches := by rw [f.logicalLine_eq]
  have hprocess : w.process (f.logicalLine l q).2.1.branches (f.logicalLine l q).1 =
      .ok (w.pragma (f.logicalLine l q).1 operand, f.branches, none) := by
    rw [Work.process_eq_direct hdirective, Work.direct_of_not_isConditional rfl, hbranches,
      if_pos hactive]
    rfl
  rw [step, next_line, hprocess] at hstep
  obtain rfl := Except.ok.inj hstep
  dsimp only [Work.pragma]
  rw [if_pos honce]
  have hl : (f.logicalLine l q).1.file = f.file := hfile l (List.mem_cons_self ..)
  dsimp only
  split
  · rename_i hmem
    rw [← hl]
    exact List.contains_iff_mem.1 hmem
  · rw [← hl]
    exact List.mem_cons_self ..

end State

/-- **The discipline of inclusion**, in every run and for every resolver.  In every state
the open files have different names, and there are at most so many.  However the run came
to the state, the list of included files and the statements name the files that were
opened on the way, one entry for each, in their order.  A file that was marked is not
opened from then on.  And a step at an inclusion that brings in no file leaves the output,
the table, the open files, the rest of the queue, the files and the statements as they
were: the line is gone, and only the counter and the diagnostics may differ. -/
theorem inclusion_discipline (resolve : Resolver) (table : Table) (diagnostics : Diagnostics)
    (file : String) (source : Text) :
    (∀ s, State.Reaches resolve (State.start table diagnostics file source) s →
        s.openNames.Nodup ∧ s.openNames.length ≤ openLimit ∧
        (∃ names, State.Opens resolve (State.start table diagnostics file source) names s) ∧
        ∀ names, State.Opens resolve (State.start table diagnostics file source) names s →
          s.result.includes = names ∧
          s.result.statements.map IncludeStatement.resolved = names) ∧
      (∀ s t u v marked, State.Reaches resolve (State.start table diagnostics file source) s →
        s.MarksOnce marked → s.step resolve = .ok t → State.Reaches resolve t u →
        u.step resolve = .ok v → State.opened? u v ≠ some marked) ∧
      ∀ s t r, State.Reaches resolve (State.start table diagnostics file source) s →
        s.next = .ok (t, some r) → s.Refuses (resolve r.inclusion) →
        ∃ n ds, s.step resolve =
          .ok { s.pastLine with work := { s.work with counter := n, diagnostics := ds } } := by
  have hstart := State.isOrderly_start table diagnostics file source
  refine ⟨fun s hs => ?_, fun s t u v marked hs hmarks hst htu huv hopened => ?_,
    fun s t r hs hnext hrefuses => ?_⟩
  · have horderly := hs.isOrderly hstart
    refine ⟨horderly.nodup, horderly.limit, hs.exists_opens, fun names hnames => ?_⟩
    obtain ⟨hincludes, hstatements⟩ := hnames.record hstart.nested rfl rfl
    dsimp only [State.result]
    rw [List.map_reverse, hincludes, hstatements, List.reverse_reverse]
    exact ⟨rfl, rfl⟩
  · have hnested := hs.isNested hstart.nested
    have ht := hnested.step hst
    have hmem := htu.once_subset ht (hmarks.mem_once hnested hst)
    exact State.notMem_once_of_opened? (htu.isNested ht) huv hopened hmem
  · exact State.step_of_refuses (hs.isNested hstart.nested) hnext hrefuses

/-- A file that marks itself is included twice.  The first time it is opened inside of
`m`; the second time it is passed over. -/
theorem inclusion_discipline_marked_file :
    ∃ s t u v, State.Reaches (.ofList [("a.h", "#pragma once".toList)])
        (.start {} {} "m" "#include \"a.h\"\n#include \"a.h\"".toList) s ∧
      s.openNames = ["a.h", "m"] ∧ s.openNames.Nodup ∧ s.MarksOnce "a.h" ∧
      s.step (.ofList [("a.h", "#pragma once".toList)]) = .ok t ∧
      State.Reaches (.ofList [("a.h", "#pragma once".toList)]) t u ∧
      u.step (.ofList [("a.h", "#pragma once".toList)]) = .ok v ∧
      State.opened? u v ≠ some "a.h" ∧ v.result.includes = ["a.h"] ∧
      ∃ n ds, v = { u.pastLine with work := { u.work with counter := n, diagnostics := ds } } := by
  let resolve : Resolver := .ofList [("a.h", "#pragma once".toList)]
  let start : State := .start {} {} "m" "#include \"a.h\"\n#include \"a.h\"".toList
  let w : Work :=
    { table := {}, includes := ["a.h"], statements := [⟨"m", 1, 1, "a.h", "a.h"⟩] }
  let rest (n : Nat) : List SourceLine :=
    (SourceLine.ofFile "m" "#include \"a.h\"\n#include \"a.h\"".toList).drop n
  let inside (ls : List SourceLine) (w : Work) : State :=
    .reading { file := "a.h" } ls [{ file := "m" }] ((rest 1).map .line ++ [.close "m"]) w
  let outside (n : Nat) : State := .reading { file := "m" } (rest n) [] [] { w with once := ["a.h"] }
  let s : State := inside [⟨"#pragma once".toList, "a.h", 1⟩] w
  let t : State := inside [] { w with once := ["a.h"] }
  let request : Request := ⟨⟨"a.h", false, "m"⟩, 2, 1⟩
  have hs : State.Opens resolve start ["a.h"] s := .step (s := start) (t := s) .start rfl
  have ht : State.Opens resolve start ["a.h"] t := .step (s := s) (t := t) hs rfl
  have hu : State.Opens resolve start ["a.h"] (outside 1) := .step (s := t) (t := outside 1) ht rfl
  have hv : State.Opens resolve start ["a.h"] (outside 2) :=
    .step (s := outside 1) (t := outside 2) hu rfl
  have hmarks : s.MarksOnce "a.h" := ⟨_, _, _, _, " once".toList, rfl, rfl, rfl, rfl, rfl, rfl⟩
  have hnext : (outside 1).next = .ok (outside 2, some request) := rfl
  have hrefuses : (outside 1).Refuses (resolve request.inclusion) :=
    .marked (List.mem_singleton_self _)
  obtain ⟨hall, hmarked, hrefused⟩ := inclusion_discipline resolve {} {} "m"
    "#include \"a.h\"\n#include \"a.h\"".toList
  have htu : State.Reaches resolve t (outside 1) := .single rfl
  have hstep : (outside 1).step resolve = .ok (outside 2) := rfl
  obtain ⟨n, ds, hpast⟩ := hrefused (outside 1) (outside 2) request hu.reaches hnext hrefuses
  refine ⟨s, t, outside 1, outside 2, hs.reaches, rfl, (hall s hs.reaches).1, hmarks, rfl, htu, rfl,
    hmarked s t (outside 1) (outside 2) "a.h" hs.reaches hmarks rfl htu rfl,
    ((hall _ hv.reaches).2.2.2 _ hv).1, n, ds, ?_⟩
  exact Except.ok.inj (hstep.symm.trans hpast)

end DevicetreePrep
