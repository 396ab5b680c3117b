/-
# The state of a run

A run works through one queue of physical lines.  Where a file is included, its
lines go to the front of the queue, with the mark of its end behind them; so the
lines of the including file wait behind that mark.  For every file that is open
there is a record of its open conditionals and comments, the innermost file
first.
-/

import DevicetreePrep.Branch
import DevicetreePrep.Comment
import DevicetreePrep.Definition.Table
import DevicetreePrep.Diagnostic
import DevicetreePrep.Inclusion
import DevicetreePrep.PhysicalLine
import DevicetreePrep.Substitution

namespace DevicetreePrep

/-- A physical line with its place. -/
structure SourceLine where
  text : Text
  file : String
  number : Nat
  deriving DecidableEq, Repr

/-- What is still to be worked through. -/
inductive Pending
  | line (l : SourceLine)
  /-- The end of a file. -/
  | close (file : String)
  deriving DecidableEq, Repr

/-- Whether an entry of the queue is the end of a file. -/
def Pending.isClose : Pending → Bool
  | close _ => true
  | line _ => false

/-- A file that is open. -/
structure OpenFile where
  file : String
  branches : Branches := []
  /-- Whether the next line starts inside of a comment. -/
  inComment : Bool := false
  /-- The line that a comment was last left open in which started outside of
  one. -/
  commentLine : Option Nat := none
  deriving DecidableEq, Repr

/-- An inclusion that brought in a file. -/
structure IncludeStatement where
  file : String
  line : Nat
  column : Nat
  target : String
  resolved : String
  deriving DecidableEq, Repr

/-- What a run has brought about so far. -/
structure Work where
  table : Table
  counter : Nat := 0
  /-- The lines of output, the latest one first. -/
  output : List Line := []
  /-- The files brought in, the latest one first. -/
  includes : List String := []
  /-- The inclusions that brought them in, the latest one first. -/
  statements : List IncludeStatement := []
  /-- The files that are not to be included again. -/
  once : List String := []
  diagnostics : Diagnostics := {}

/-- The state of a run. -/
structure State where
  queue : List Pending
  files : List OpenFile
  work : Work

namespace Work

/-- Adds a diagnostic. -/
def push (w : Work) (d : Diagnostic) : Work :=
  { w with diagnostics := w.diagnostics.push d }

/-- Reports a problem of a line as a whole. -/
def report (w : Work) (file : String) (number : Nat) (p : Problem) : Work :=
  w.push { stage := Stage.preprocessing.name, file, message := p.message, line := some number,
           column := some 1, code := some p.code.text, severity := p.severity }

/-- Reports a problem where it stands in a line. -/
def reportAt (w : Work) (stage : Stage) (file : String) (number : Nat) (p : Problem) : Work :=
  w.push { stage := stage.name, file, message := p.message, line := some number,
           column := some (match p.offset with
             | some o => o + 1
             | none => 1)
           code := some p.code.text, severity := p.severity }

/-- Reports the end of a file: the conditionals and the comment left open. -/
def reportEnd (w : Work) (file : String) (f : OpenFile) : Work :=
  let w := (Branches.unterminated f.branches).foldl (fun w b => w.push {
      stage := Stage.preprocessing.name, file, message := "Unterminated conditional block"
      line := b.line, column := some 1, code := some Code.unterminatedConditional.text }) w
  if f.inComment then
    w.push { stage := Stage.lexical.name, file, message := "Unterminated block comment"
             line := f.commentLine.map Int.ofNat, column := some 1
             code := some Code.unterminatedText.text }
  else w

end Work

/-- How many files may be open. -/
def openLimit : Nat := 200

namespace State

/-- The number of open files: those whose end is still to come. -/
def depth (s : State) : Nat :=
  s.queue.countP Pending.isClose

/-- The lines of a file, and its end. -/
def entries (file : String) (source : Text) : List Pending :=
  (PhysicalLine.split source).mapIdx (fun n text => Pending.line ⟨text, file, n + 1⟩) ++
    [.close file]

/-- Opens a file. -/
def openFile (s : State) (file : String) (source : Text) : State :=
  { s with queue := entries file source ++ s.queue, files := { file } :: s.files }

/-- The state in which a run starts. -/
def start (table : Table) (diagnostics : Diagnostics) (file : String) (source : Text) : State :=
  openFile { queue := [], files := [], work := { table, diagnostics } } file source

end State
end DevicetreePrep
