/-
# The program

Takes the arguments, reads the source and the files that it includes, and writes
what the library makes of them.
-/

import DevicetreePrep.CommandLine

namespace DevicetreePrep
namespace Program

/-- The number of an error, which some calls give with a minus sign. -/
def errorNumber (n : UInt32) : Nat :=
  if n.toNat < 0x80000000 then n.toNat else 0x100000000 - n.toNat

/-- Why the system refuses a file. -/
def fileError : IO.Error → FileError
  | .alreadyExists _ n text | .interrupted _ n text | .noFileOrDirectory _ n text
  | .invalidArgument _ n text | .permissionDenied _ n text | .resourceExhausted _ n text
  | .inappropriateType _ n text | .noSuchThing _ n text | .otherError n text
  | .resourceBusy n text | .resourceVanished n text | .unsupportedOperation n text
  | .hardwareFault n text | .unsatisfiedConstraints n text | .illegalOperation n text
  | .protocolError n text | .timeExpired n text => .ofNumber (errorNumber n) text
  | .unexpectedEof => .ofNumber 5 "Input/output error"
  | .userError text => .ofNumber 5 text

/-- Reads the file of a path. -/
def readBytes (path : Text) : IO (Except SystemError (List UInt8)) := do
  if path.contains '\x00' then return .error .nullInPath
  match ← (IO.FS.readBinFile (String.ofList path)).toBaseIO with
  | .ok bytes => return .ok bytes.toList
  | .error e => return .error (.file (fileError e) path)

/-- The path from the root to the file of a path, if there is a file. -/
def fileAt? (path : Text) : IO (Except SystemError (Option Text)) := do
  match ← (IO.FS.realPath (String.ofList path)).toBaseIO with
  | .ok place =>
    match ← place.metadata.toBaseIO with
    | .ok data => return .ok (if data.type == .file then some place.toString.toList else none)
    | .error e => return .error (.file (fileError e) path)
  | .error _ =>
    match ← readBytes path with
    | .error (.file e path) => return if e.isAbsence then .ok none else .error (.file e path)
    | _ => return .ok none

/-- Finds the file for an inclusion. -/
def resolve (includeDirs : List String) (i : Inclusion) : IO Resolution := do
  for candidate in i.candidates includeDirs do
    match ← fileAt? candidate.toText with
    | .error e => return .broken e
    | .ok none => continue
    | .ok (some place) =>
      match ← readBytes place with
      | .ok bytes => return i.resolution (String.ofList place) bytes
      | .error e => return .failed (.unreadable i.target e.message)
  return .failed (.notFound i)

/-- Reads a source by its path; a dash stands for the standard input. -/
def readSource (path : String) : IO (Except SystemError Source) := do
  if path = "-" then
    let bytes ← (← IO.getStdin).readBinToEnd
    return (FileSystem.textOf bytes.toList).map (⟨"<stdin>", ·⟩)
  else
    let p := (Path.ofText path.toList).toText
    match ← readBytes p with
    | .ok bytes => return (FileSystem.textOf bytes).map (⟨String.ofList p, ·⟩)
    | .error e => return .error e

/-- Takes steps until the queue is empty. -/
partial def run (find : Inclusion → IO Resolution) (s : State) : IO (Except Stopped Result) := do
  if s.queue.isEmpty then return .ok s.result
  match s.next with
  | .error stopped => return .error stopped
  | .ok (s, none) => run find s
  | .ok (s, some r) =>
    match s.receive r (← find r.inclusion) with
    | .error stopped => return .error stopped
    | .ok s => run find s

/-- Runs the program. -/
def execute (arguments : List Text) : IO (Except CommandLine.Crash Exit) := do
  match CommandLine.prepare arguments with
  | .crash c => return .error c
  | .done e => return .ok e
  | .run i o =>
    match ← readSource (CommandLine.inputOf i) with
    | .error e => return CommandLine.exitStopped (.system e)
    | .ok source =>
      let find (r : Inclusion) : IO Resolution :=
        if CommandLine.lacksDirectory i then return Resolver.pathMissing r
        else resolve o.includeDirs r
      match ← run find (State.start o.table {} source.file source.text) with
      | .ok r => return .ok (CommandLine.exitWith i r)
      | .error stopped => return CommandLine.exitStopped stopped.reason

end Program
end DevicetreePrep

def main (arguments : List String) : IO UInt32 := do
  match ← DevicetreePrep.Program.execute (arguments.map String.toList) with
  | .ok e =>
    IO.print e.stdout
    IO.eprint e.stderr
    return e.code.toUInt32
  | .error c =>
    IO.eprintln ("dtpp: " ++ c.message)
    return 1
