/-
# Reading files one inside the other

The plain account of inclusion.  A file is read line by line, with its own
conditionals and its own comments.  Where a line asks for another file, that file
is read from its first line to its end, what it leaves open is reported, and only
then does the file around it go on, with its own conditionals and comments as
they were.  There is no queue: the files around the current one wait in the
recursion, and of them no more than the names are known, because a file cannot be
read inside of itself and because only so many files may be open.
-/

import DevicetreePrep.Run

namespace DevicetreePrep

/-- The lines of a file in their order. -/
def SourceLine.ofFile (file : String) (source : Text) : List SourceLine :=
  (PhysicalLine.split source).mapIdx fun n text => ⟨text, file, n + 1⟩

/-- The lines of a file are in the file. -/
theorem SourceLine.file_of_mem_ofFile {file : String} {source : Text} {l : SourceLine}
    (h : l ∈ SourceLine.ofFile file source) : l.file = file := by
  obtain ⟨n, hn, rfl⟩ := List.mem_mapIdx.1 h
  rfl

namespace OpenFile

/-- The lines of a file that continue a line of it, the file behind them and the
lines that are left. -/
def continuationOf (f : OpenFile) (last : MaskedLine) :
    List SourceLine → List MaskedLine × OpenFile × List SourceLine
  | [] => ([], f, [])
  | l :: ls =>
    if PhysicalLine.isContinued last.masked then
      let (more, f', rest) := (f.after l).continuationOf (f.mask l) ls
      (f.mask l :: more, f', rest)
    else ([], f, l :: ls)

/-- The logical line at the front of the lines `l :: ls` of a file, the file behind
it and the lines that are left. -/
def logicalLineOf (f : OpenFile) (l : SourceLine) (ls : List SourceLine) :
    LogicalLine × OpenFile × List SourceLine :=
  let first := f.mask l
  let (more, f, rest) := (f.after l).continuationOf first ls
  ({ file := l.file, number := l.number, first, more }, f, rest)

/-- There are no more lines left than there were. -/
theorem length_continuationOf_le (f : OpenFile) (last : MaskedLine) (ls : List SourceLine) :
    (f.continuationOf last ls).2.2.length ≤ ls.length := by
  fun_induction continuationOf f last ls with
  | case1 => exact Nat.le_refl _
  | case2 f last l ls _ more f' rest hr ih =>
    rw [hr] at ih
    exact Nat.le_succ_of_le ih
  | case3 => exact Nat.le_refl _

end OpenFile

namespace Work

/-- What becomes of a request while the files `opened` are open: the file that is
to be read now, or none where it is not to be included again, is open already, or
too many files are open. -/
def accept (w : Work) (opened : List String) (r : Request) (answer : Resolution) :
    Except Stopped (Work × Option IncludedFile) :=
  let refuse (e : InclusionError) : Work × Option IncludedFile :=
    (w.report r.inclusion.includer r.line e.problem, none)
  match answer with
  | .broken e => .error ⟨.system e, w.diagnostics⟩
  | .failed e => .ok (refuse e)
  | .found g =>
    if g.file ∈ w.once then .ok (w, none)
    else if g.file ∈ opened then .ok (refuse (.circular g.file))
    else if openLimit ≤ opened.length then .ok (refuse .nestedTooDeeply)
    else
      let statement : IncludeStatement :=
        { file := r.inclusion.includer, line := r.line, column := r.column
          target := r.inclusion.target, resolved := g.file }
      .ok ({ w with includes := g.file :: w.includes, statements := statement :: w.statements },
        some g)

/-- A file is read only if not too many files are open. -/
theorem length_lt_of_accept {w w' : Work} {opened : List String} {r : Request} {answer : Resolution}
    {g : IncludedFile} (h : w.accept opened r answer = .ok (w', some g)) :
    opened.length < openLimit := by
  unfold accept at h
  simp only at h
  repeat' split at h
  all_goals first | cases h; done | omega

/-- Reads the lines of the file `f` to its end, inside of the files `outer`, the
innermost one first. -/
def readLines (resolve : Resolver) (outer : List String) (f : OpenFile) (w : Work)
    (lines : List SourceLine) : Except Stopped Work :=
  match lines with
  | [] => .ok (w.reportEnd f.file f)
  | l :: ls =>
    let line := f.logicalLineOf l ls
    match w.process line.2.1.branches line.1 with
    | .error stopped => .error stopped
    | .ok (w, branches, none) =>
      readLines resolve outer { line.2.1 with branches } w line.2.2
    | .ok (w, branches, some r) =>
      match _h : w.accept (f.file :: outer) r (resolve r.inclusion) with
      | .error stopped => .error stopped
      | .ok (w, none) => readLines resolve outer { line.2.1 with branches } w line.2.2
      | .ok (w, some g) =>
        -- the file that is included is read to its end before the next line of this one
        match readLines resolve (f.file :: outer) { file := g.file } w
            (SourceLine.ofFile g.file g.text) with
        | .error stopped => .error stopped
        | .ok w => readLines resolve outer { line.2.1 with branches } w line.2.2
termination_by (openLimit - outer.length, lines.length)
decreasing_by
  · exact Prod.Lex.right _ (Nat.lt_succ_of_le (OpenFile.length_continuationOf_le ..))
  · exact Prod.Lex.right _ (Nat.lt_succ_of_le (OpenFile.length_continuationOf_le ..))
  · have := length_lt_of_accept ‹_›
    simp only [List.length_cons] at this ⊢
    exact Prod.Lex.left _ _ (by omega)
  · exact Prod.Lex.right _ (Nat.lt_succ_of_le (OpenFile.length_continuationOf_le ..))

/-- What the work has brought about. -/
def result (w : Work) : Result where
  lines := w.output.reverse
  table := w.table
  includes := w.includes.reverse
  statements := w.statements.reverse
  diagnostics := w.diagnostics
  counter := w.counter

end Work

/-- Works through a file by reading the files one inside the other. -/
def preprocessNested (resolve : Resolver) (table : Table) (diagnostics : Diagnostics)
    (file : String) (source : Text) : Except Stopped Result :=
  (Work.readLines resolve [] { file } { table, diagnostics }
    (SourceLine.ofFile file source)).map Work.result

end DevicetreePrep
