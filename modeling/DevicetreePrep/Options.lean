/-
# Options of a run

What a run is told before it starts: directories to search, definitions to make
and to drop, and how diagnostics are written.  Options are checked when they are
made.
-/

import DevicetreePrep.Definition.Reading
import DevicetreePrep.Definition.Table
import DevicetreePrep.Text.Identifier

namespace DevicetreePrep

/-- How diagnostics are written. -/
inductive DiagnosticFormat
  | human
  | json
  deriving DecidableEq, Repr

namespace DiagnosticFormat

/-- The word for a format. -/
def name : DiagnosticFormat → String
  | human => "human"
  | json => "json"

/-- All formats. -/
def all : List DiagnosticFormat :=
  [human, json]

/-- The format that a word stands for. -/
def ofName? (s : String) : Option DiagnosticFormat :=
  all.find? (·.name = s)

end DiagnosticFormat

/-- The options of a run. -/
structure Options where
  includeDirs : List String := []
  /-- Definitions in the form of the command line. -/
  defines : List Text := []
  /-- Names to drop. -/
  undefs : List Text := []
  builtins : Bool := true
  format : DiagnosticFormat := .human
  deriving DecidableEq, Repr

/-- Why options are refused. -/
inductive OptionsError
  | badFormat (word : String)
  | badDefinition (text : Text)
  | badName (text : Text)
  deriving DecidableEq, Repr

/-- The wording of the error. -/
def OptionsError.message : OptionsError → String
  | badFormat word => "Unsupported diagnostic format: " ++ word
  | badDefinition text => "Invalid macro definition: " ++ String.ofList text
  | badName text => "Invalid macro name: " ++ String.ofList text

namespace Options

/-- Makes options, unless the format, a definition or a name is refused, looked at
in this order. -/
def make (includeDirs : List String) (defines undefs : List Text) (builtins : Bool)
    (format : String) : Except OptionsError Options :=
  match DiagnosticFormat.ofName? format with
  | none => .error (.badFormat format)
  | some format =>
    match defines.find? fun d => !(Definition.readAssignment d).isOk with
    | some d => .error (.badDefinition d)
    | none =>
      match undefs.find? fun n => !isIdentifier n with
      | some n => .error (.badName n)
      | none => .ok { includeDirs, defines, undefs, builtins, format }

/-- The definitions that a run starts with: the builtins, then those that are
made, without those that are dropped. -/
def table (o : Options) : Table :=
  let start := if o.builtins then Table.ofList Definition.builtins else Table.empty
  let made := o.defines.filterMap fun d => (Definition.readAssignment d).toOption
  o.undefs.foldl Table.erase (made.foldl Table.insert start)

end Options
end DevicetreePrep
