/-
# Switches

The switches of the command line, and how an argument is taken for one.  A long
switch may be cut short as long as it is clear which one is meant, and has its
value behind an equals sign.  A short one has its value behind it at once, or
other short switches.
-/

import DevicetreePrep.Options
import DevicetreePrep.Text.Quoted

namespace DevicetreePrep

/-- The switches. -/
inductive Switch
  | help
  | includeDir
  | define
  | undefine
  | noBuiltins
  | format
  | dumpLines
  | dumpTable
  | dumpIncludes
  | verbose
  deriving DecidableEq, Repr

namespace Switch

/-- The spellings of a switch. -/
def spellings : Switch → List Text
  | help => ["-h".toList, "--help".toList]
  | includeDir => ["-I".toList]
  | define => ["-D".toList]
  | undefine => ["-U".toList]
  | noBuiltins => ["--no-builtins".toList]
  | format => ["--diag-format".toList]
  | dumpLines => ["--dump-lines".toList]
  | dumpTable => ["--dump-macro-table".toList]
  | dumpIncludes => ["--dump-includes".toList]
  | verbose => ["-v".toList, "--verbose".toList]

/-- All switches, in the order in which they are listed. -/
def all : List Switch :=
  [help, includeDir, define, undefine, noBuiltins, format, dumpLines, dumpTable, dumpIncludes,
    verbose]

/-- All spellings with their switches. -/
def table : List (Text × Switch) :=
  all.flatMap fun s => s.spellings.map (·, s)

/-- Whether a switch has a value. -/
def takesValue : Switch → Bool
  | includeDir | define | undefine | format => true
  | _ => false

/-- A switch as it is named in a message. -/
def label (s : Switch) : Text :=
  Text.joinWith ['/'] s.spellings

end Switch

/-- Why a command line is refused. -/
inductive UsageError
  /-- The argument may stand for any of these switches. -/
  | ambiguous (argument : Text) (spellings : List Text)
  | valueMissing (s : Switch)
  /-- The switch has this value and takes none. -/
  | valueIgnored (s : Switch) (value : Text)
  | badFormat (value : Text)
  | inputMissing
  | unrecognized (arguments : List Text)
  deriving DecidableEq, Repr

/-- The wording of the error. -/
def UsageError.message (e : UsageError) : Text :=
  let about (s : Switch) (rest : Text) : Text :=
    "argument ".toList ++ s.label ++ ':' :: ' ' :: rest
  match e with
  | ambiguous argument spellings =>
    "ambiguous option: ".toList ++ argument ++ " could match ".toList ++
      Text.joinWith [',', ' '] spellings
  | valueMissing s => about s "expected one argument".toList
  | valueIgnored s value => about s ("ignored explicit argument ".toList ++ Text.quoted value)
  | badFormat value =>
    let choices := DiagnosticFormat.all.map fun f => Text.quoted f.name.toList
    about .format ("invalid choice: ".toList ++ Text.quoted value ++ " (choose from ".toList ++
      Text.joinWith [',', ' '] choices ++ [')'])
  | inputMissing => "the following arguments are required: input".toList
  | unrecognized arguments => "unrecognized arguments: ".toList ++ Text.joinWith [' '] arguments

/-- A switch that an argument is taken for. -/
structure SwitchUse where
  switch : Switch
  /-- Whether it is spelled with two dashes. -/
  isLong : Bool
  /-- What the argument gives behind the switch, an equals sign apart. -/
  value : Option Text
  deriving DecidableEq, Repr

/-- What an argument is taken for. -/
inductive ArgumentKind
  /-- Something that is no switch. -/
  | plain
  /-- The two dashes behind which there are no switches. -/
  | divider
  | switch (u : SwitchUse)
  /-- Something that looks like a switch and is none. -/
  | unknown
  deriving DecidableEq, Repr

namespace ArgumentKind

/-- Whether an argument looks like a negative number. -/
def isNegativeNumber (argument : Text) : Bool :=
  match argument with
  | '-' :: rest =>
    let rest := if rest.getLast? = some '\n' then rest.dropLast else rest
    let behind := rest.dropWhile isDecimal
    match behind with
    | [] => !rest.isEmpty
    | '.' :: places => !places.isEmpty && places.all isDecimal
    | _ => false
  | _ => false

/-- Whether a spelling has two dashes. -/
def isLong (spelling : Text) : Bool :=
  (spelling.drop 1).head? = some '-'

/-- The switches that an argument may stand for, with their spellings. -/
def matching (argument : Text) : List (Text × SwitchUse) :=
  match argument with
  | '-' :: '-' :: _ =>
    let (name, value?) := Text.cut '=' argument
    Switch.table.filterMap fun (spelling, s) =>
      if name.isPrefixOf spelling then
        some (spelling, ⟨s, isLong spelling, value?⟩)
      else none
  | '-' :: c :: value =>
    Switch.table.filterMap fun (spelling, s) =>
      if spelling = ['-', c] then some (spelling, ⟨s, false, some value⟩)
      else if argument.isPrefixOf spelling then some (spelling, ⟨s, isLong spelling, none⟩)
      else none
  | _ => []

/-- What an argument is taken for, if no divider comes before it. -/
def of (argument : Text) : Except UsageError ArgumentKind :=
  if argument = ['-', '-'] then .ok .divider
  else if argument.head? ≠ some '-' then .ok .plain
  else match Switch.table.lookup argument with
    | some s => .ok (.switch ⟨s, isLong argument, none⟩)
    | none =>
      if argument.length = 1 then .ok .plain
      else
        let (name, value?) := Text.cut '=' argument
        match value?, Switch.table.lookup name with
        | some value, some s => .ok (.switch ⟨s, isLong name, some value⟩)
        | _, _ =>
          match matching argument with
          | [(_, u)] => .ok (.switch u)
          | [] =>
            if isNegativeNumber argument || argument.contains ' ' then .ok .plain
            else .ok .unknown
          | several => .error (.ambiguous argument (several.map Prod.fst))

end ArgumentKind

/-- The arguments with what they are taken for. -/
def classify : List Text → Except UsageError (List (Text × ArgumentKind))
  | [] => .ok []
  | a :: as => do
    match ← ArgumentKind.of a with
    | .divider => return (a, .divider) :: as.map (·, .plain)
    | kind => return (a, kind) :: (← classify as)

end DevicetreePrep
