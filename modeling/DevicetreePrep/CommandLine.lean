/-
# The command line

From arguments to output: the invocation is read and its options are checked,
the source is read and worked through, and diagnostics, dumps or the lines of
output are written.  Here files are those of a given file system.
-/

import DevicetreePrep.CommandLine.Invocation
import DevicetreePrep.Diagnostic.Json
import DevicetreePrep.FileSystem
import DevicetreePrep.Run

namespace DevicetreePrep

/-- How the program ends: its exit code and what it writes. -/
structure Exit where
  code : Nat
  stdout : String := ""
  stderr : String := ""
  deriving DecidableEq, Repr

namespace CommandLine

/-- The short description of the command line. -/
def usage : String :=
  "usage: dtpp [-h] [-I INCLUDE_DIRS] [-D DEFINES] [-U UNDEFS] [--no-builtins]\n" ++
  "            [--diag-format \x7bhuman,json\x7d] [--dump-lines] [--dump-macro-table]\n" ++
  "            [--dump-includes] [-v]\n" ++
  "            input\n"

/-- The description of the command line. -/
def helpText : String :=
  usage ++ "\n" ++
  "Preprocess devicetree sources and C headers.\n\n" ++
  "positional arguments:\n" ++
  "  input                 path to a source file, or - to read from stdin\n\n" ++
  "options:\n" ++
  "  -h, --help            show this help message and exit\n" ++
  "  -I INCLUDE_DIRS       include path\n" ++
  "  -D DEFINES            define macro\n" ++
  "  -U UNDEFS             undefine macro\n" ++
  "  --no-builtins         do not predefine __FILE__, __LINE__ and __COUNTER__\n" ++
  "  --diag-format \x7bhuman,json\x7d\n" ++
  "                        diagnostic output format\n" ++
  "  --dump-lines          print each output line with its source location and\n" ++
  "                        substitutions\n" ++
  "  --dump-macro-table    print final macro table\n" ++
  "  --dump-includes       print resolved includes\n" ++
  "  -v, --verbose         enable debug logging\n"

/-- Lines, each with its end. -/
def unlines (lines : List String) : String :=
  String.join (lines.map (· ++ "\n"))

/-- The end of a program that is not to run. -/
def exitWithout : NoInvocation → Exit
  | .help => { code := 0, stdout := helpText }
  | .refused e =>
    { code := 2, stderr := usage ++ "dtpp: error: " ++ String.ofList e.message ++ "\n" }

/-- Why the program ends at once, without an exit of its own. -/
inductive Crash
  | run (reason : Abort)
  /-- The value of this switch was dropped, and it is needed. -/
  | dropped (s : Switch)
  deriving DecidableEq, Repr

/-- The wording of the reason. -/
def Crash.message : Crash → String
  | run reason => reason.message
  | dropped s => "the value of " ++ String.ofList s.label ++ " is missing"

/-- The end of a program whose options are refused. -/
def exitRefused (e : OptionsError) : Exit :=
  { code := 2, stderr := "dtpp: error: " ++ e.message ++ "\n" }

/-- The end of a program that failed at a file. -/
def exitFailed (e : SystemError) : Exit :=
  { code := 1, stderr := "dtpp: I/O error: " ++ e.message ++ "\n" }

/-- A diagnostic in a format. -/
def showDiagnostic (format : DiagnosticFormat) (d : Diagnostic) : String :=
  match format with
  | .human => d.render ++ " [" ++ d.severity.name ++ "]"
  | .json => d.toJson

/-- A line of output with its place and its substitutions. -/
def showLine (l : Line) : String :=
  let subs := l.subs.map fun s => String.ofList s.definition.name ++ "@" ++ toString s.start
  l.file ++ ":" ++ toString l.number ++ ": " ++ String.ofList l.text ++
    (if subs.isEmpty then "" else " [" ++ ", ".intercalate subs ++ "]")

/-- An inclusion with its place and its file. -/
def showStatement (s : IncludeStatement) : String :=
  s.file ++ ":" ++ toString s.line ++ ": #include " ++ s.target ++ " -> " ++ s.resolved

/-- The lines that an invocation prints of a result: the dumps it asks for, or the
output itself. -/
def report (i : Invocation) (r : Result) : List String :=
  if i.dumpLines || i.dumpIncludes || i.dumpTable then
    (if i.dumpLines then r.lines.map showLine else []) ++
      (if i.dumpIncludes then r.statements.map showStatement else []) ++
      (if i.dumpTable then r.table.dump.map String.ofList else [])
  else r.lines.map fun l => String.ofList l.text

/-- The end of a program that has a result.  It is a failure if there are
errors. -/
def exitWith (i : Invocation) (r : Result) : Exit where
  code := if r.diagnostics.errors.isEmpty then 0 else 1
  stdout := unlines (report i r)
  stderr := unlines (r.diagnostics.toList.map (showDiagnostic (i.format.getD .human)))

/-- Whether a failure is one of files, which the program reports; any other ends
it at once. -/
def exitStopped (reason : Abort) : Except Crash Exit :=
  match reason with
  | .system .nullInPath | .system .pathMissing => .error (.run reason)
  | .system e => .ok (exitFailed e)
  | _ => .error (.run reason)

/-- What comes of the arguments. -/
inductive Plan
  /-- There is something to run. -/
  | run (i : Invocation) (o : Options)
  /-- The program ends with this. -/
  | done (e : Exit)
  | crash (c : Crash)

/-- What comes of the arguments. -/
def prepare (arguments : List Text) : Plan :=
  match Invocation.ofArguments arguments with
  | .error e => .done (exitWithout e)
  | .ok i =>
    match i.options with
    | .error (.dropped s) => .crash (.dropped s)
    | .error (.refused e) => .done (exitRefused e)
    | .ok o => .run i o

/-- The input of an invocation. -/
def inputOf (i : Invocation) : String :=
  String.ofList (i.input.getD [])

/-- Whether a directory to search was dropped. -/
def lacksDirectory (i : Invocation) : Bool :=
  Invocation.isDropped i.includeDirs

/-- Runs the program on a file system. -/
def execute (fs : FileSystem) (stdin : Text) (arguments : List Text) : Except Crash Exit :=
  match prepare arguments with
  | .crash c => .error c
  | .done e => .ok e
  | .run i o =>
    match Source.read fs stdin (inputOf i) with
    | .error e => exitStopped (.system e)
    | .ok source =>
      let resolve := if lacksDirectory i then Resolver.pathMissing else fs.resolver o.includeDirs
      match preprocess resolve o.table {} source.file source.text with
      | .ok r => .ok (exitWith i r)
      | .error stopped => exitStopped stopped.reason

end CommandLine
end DevicetreePrep
