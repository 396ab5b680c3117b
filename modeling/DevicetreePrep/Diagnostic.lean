/-
# Diagnostics

A diagnostic says what was found where.  A collection keeps them by file: the
files in the order in which each got its first diagnostic, and the diagnostics
of a file in the order in which they were added.
-/

import DevicetreePrep.Problem

namespace DevicetreePrep

/-- The stage of the work that a diagnostic comes from. -/
inductive Stage
  | lexical
  | preprocessing
  deriving DecidableEq, Repr

/-- The word for a stage. -/
def Stage.name : Stage → String
  | lexical => "lex"
  | preprocessing => "pp"

/-- A diagnostic. -/
structure Diagnostic where
  stage : String
  file : String
  message : String
  line : Option Int := none
  column : Option Int := none
  code : Option String := none
  severity : Severity := .error
  endColumn : Option Int := none
  deriving DecidableEq, Repr

namespace Diagnostic

/-- A diagnostic in one line.  The place is given only if both the line and the
column are known. -/
def render (d : Diagnostic) : String :=
  match d.line, d.column with
  | some line, some column =>
    d.file ++ ":" ++ toString line ++ ":" ++ toString column ++ ": " ++ d.stage ++ ": " ++ d.message
  | _, _ => d.file ++ ": " ++ d.stage ++ ": " ++ d.message

end Diagnostic

/-- The diagnostics of one file. -/
structure FileDiagnostics where
  file : String
  items : List Diagnostic
  deriving DecidableEq, Repr

/-- Diagnostics by file, in the order in which the files came in. -/
structure Diagnostics where
  files : List FileDiagnostics := []
  deriving DecidableEq, Repr

namespace Diagnostics

/-- Adds a diagnostic to its file, or starts that file at the end. -/
def place (d : Diagnostic) : List FileDiagnostics → List FileDiagnostics
  | [] => [⟨d.file, [d]⟩]
  | f :: fs => if f.file = d.file then { f with items := f.items ++ [d] } :: fs else f :: place d fs

/-- The collection with one more diagnostic. -/
def push (s : Diagnostics) (d : Diagnostic) : Diagnostics :=
  ⟨place d s.files⟩

/-- The diagnostics, file by file. -/
def toList (s : Diagnostics) : List Diagnostic :=
  s.files.flatMap FileDiagnostics.items

/-- The collection of the given diagnostics. -/
def ofList (ds : List Diagnostic) : Diagnostics :=
  ds.foldl push {}

/-- The collection with all diagnostics of another one. -/
def merge (s other : Diagnostics) : Diagnostics :=
  other.toList.foldl push s

/-- The diagnostics of a file. -/
def forFile (s : Diagnostics) (file : String) : List Diagnostic :=
  match s.files.find? (·.file = file) with
  | some f => f.items
  | none => []

/-- The files that have diagnostics. -/
def fileNames (s : Diagnostics) : List String :=
  s.files.map FileDiagnostics.file

/-- The errors among the diagnostics. -/
def errors (s : Diagnostics) : List Diagnostic :=
  s.toList.filter (·.severity = .error)

/-- The number of diagnostics. -/
def size (s : Diagnostics) : Nat :=
  s.toList.length

end Diagnostics
end DevicetreePrep
