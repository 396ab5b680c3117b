/-
# File systems

A file system is a working directory, what is in it, and what stands elsewhere.
It has no links.  A path is walked name by name, so a double dot behind a file, or
behind a name that is missing, is an error.
-/

import DevicetreePrep.FileSystem.Path
import DevicetreePrep.Inclusion

namespace DevicetreePrep

/-- What stands at a place of a file system. -/
inductive Node
  | directory
  | file (bytes : List UInt8)
  deriving DecidableEq, Repr

/-- A file system.  A directory that holds something need not be listed. -/
structure FileSystem where
  /-- The working directory, by the names on the way from the root. -/
  home : List Text
  /-- What is in it, by the names on the way from there. -/
  entries : List (List Text × Node)
  /-- What stands elsewhere, by the names on the way from the root. -/
  elsewhere : List (List Text × Node) := []
  deriving DecidableEq, Repr

namespace FileSystem

/-- How many bytes a name may have. -/
def nameLimit : Nat := 255

/-- How many bytes a path may not have. -/
def pathLimit : Nat := 4096

/-- The number of bytes of a text. -/
def byteSize (t : Text) : Nat :=
  (String.ofList t).utf8ByteSize

/-- All that is listed, by the names on the way from the root. -/
def listed (fs : FileSystem) : List (List Text × Node) :=
  (fs.entries.map fun (inner, n) => (fs.home ++ inner, n)) ++ fs.elsewhere

/-- What stands at a place: what is listed there, or a directory on the way to the
working directory or to something listed. -/
def node? (fs : FileSystem) (place : List Text) : Option Node :=
  if place.isPrefixOf fs.home then some .directory
  else match fs.listed.lookup place with
    | some n => some n
    | none => if fs.listed.any fun e => place.isPrefixOf e.1 then some .directory else none

/-- Walks on from a place that is a directory, along the names. -/
def walkFrom (fs : FileSystem) (place : List Text) : List Text → Except FileError (List Text × Node)
  | [] => .ok (place, .directory)
  | name :: names =>
    if name = ['.', '.'] then walkFrom fs place.dropLast names
    else if nameLimit < byteSize name then .error .nameTooLong
    else
      let place := place ++ [name]
      match fs.node? place, names with
      | none, _ => .error .notFound
      | some .directory, names => walkFrom fs place names
      | some (.file bytes), [] => .ok (place, .file bytes)
      | some (.file _), _ :: _ => .error .notDirectory

/-- The place that a path leads to, and what stands there. -/
def walk (fs : FileSystem) (p : Path) : Except FileError (List Text × Node) :=
  if pathLimit ≤ byteSize p.toText then .error .nameTooLong
  else walkFrom fs (if p.isAbsolute then [] else fs.home) p.names

/-- The text of a file. -/
def textOf (bytes : List UInt8) : Except SystemError Text :=
  match Utf8.decode bytes with
  | .ok t => .ok (Text.unifyLineEnds t)
  | .error f => .error (.encoding f)

/-- Reads the file of a path. -/
def read (fs : FileSystem) (p : Path) : Except SystemError Text :=
  if p.toText.contains '\x00' then .error .nullInPath
  else match fs.walk p with
    | .ok (_, .file bytes) => textOf bytes
    | .ok (_, .directory) => .error (.file .isDirectory p.toText)
    | .error e => .error (.file e p.toText)

/-- The place of a file, if a path leads to one. -/
def fileAt? (fs : FileSystem) (p : Path) : Except SystemError (Option (List Text × List UInt8)) :=
  if p.toText.contains '\x00' then .ok none
  else match fs.walk p with
    | .ok (place, .file bytes) => .ok (some (place, bytes))
    | .ok (_, .directory) => .ok none
    | .error e => if e.isAbsence then .ok none else .error (.file e p.toText)

end FileSystem

namespace Inclusion

/-- Whether the directory of the including file is searched: for a name in double
quotes, unless the text comes from no file. -/
def isLocal (i : Inclusion) : Bool :=
  !i.angled && i.includer ≠ "" && i.includer.toList.head? ≠ some '<'

/-- The directories in which a file is searched, in order. -/
def searchRoots (i : Inclusion) (includeDirs : List String) : List Path :=
  (if i.isLocal then [(Path.ofText i.includer.toList).parent] else []) ++
    includeDirs.map fun d => Path.ofText d.toList

/-- The paths at which a file is searched, in order. -/
def candidates (i : Inclusion) (includeDirs : List String) : List Path :=
  (i.searchRoots includeDirs).map fun root => root.append (Path.ofText i.target.toList)

/-- The answer to an inclusion whose file goes by a name and holds these bytes. -/
def resolution (i : Inclusion) (file : String) (bytes : List UInt8) : Resolution :=
  match FileSystem.textOf bytes with
  | .ok text => .found ⟨file, text⟩
  | .error e => .failed (.unreadable i.target e.message)

end Inclusion

namespace FileSystem

/-- The first file among candidates. -/
def firstFile? (fs : FileSystem) : List Path → Except SystemError (Option (List Text × List UInt8))
  | [] => .ok none
  | p :: ps => do
    match ← fs.fileAt? p with
    | some found => return some found
    | none => fs.firstFile? ps

/-- Resolves inclusions by the files of a file system.  A file goes by the path to
it from the root. -/
def resolver (fs : FileSystem) (includeDirs : List String) : Resolver := fun i =>
  match fs.firstFile? (i.candidates includeDirs) with
  | .error e => .broken e
  | .ok none => .failed (.notFound i)
  | .ok (some (place, bytes)) =>
    i.resolution (String.ofList (Path.ofNames place).toText) bytes

end FileSystem

/-- A source to be worked through: the name it goes by, and its text. -/
structure Source where
  file : String
  text : Text
  deriving DecidableEq, Repr

/-- Reads a source by its path; a dash stands for the standard input. -/
def Source.read (fs : FileSystem) (stdin : Text) (path : String) : Except SystemError Source :=
  if path = "-" then .ok ⟨"<stdin>", stdin⟩
  else do
    let p := Path.ofText path.toList
    return ⟨String.ofList p.toText, ← fs.read p⟩

end DevicetreePrep
