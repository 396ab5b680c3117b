/-
# Invocations

An invocation is what the command line asks for.  The arguments are taken in
order: a switch with its value, the first argument that is no switch as the
input, and all others as arguments that are not recognized.  Behind two dashes
there are no switches.  Two dashes that are given as a value, in the argument of
the switch itself, are dropped like any divider; the switch is then set to
nothing.
-/

import DevicetreePrep.CommandLine.Switch

namespace DevicetreePrep

/-- What the command line asks for. -/
structure Invocation where
  input : Option Text := none
  /-- The directories to search, the definitions to make and the names to drop.  A
  value that was dropped is missing. -/
  includeDirs : List (Option Text) := []
  defines : List (Option Text) := []
  undefs : List (Option Text) := []
  builtins : Bool := true
  /-- The format of diagnostics, unless its name was dropped. -/
  format : Option DiagnosticFormat := some .human
  dumpLines : Bool := false
  dumpTable : Bool := false
  dumpIncludes : Bool := false
  verbose : Bool := false
  /-- The arguments that are not recognized. -/
  extra : List Text := []
  deriving DecidableEq, Repr

/-- Why there is nothing to run. -/
inductive NoInvocation
  /-- The help is asked for. -/
  | help
  | refused (e : UsageError)
  deriving DecidableEq, Repr

/-- Why an invocation has no options. -/
inductive NoOptions
  /-- The value of this switch was dropped. -/
  | dropped (s : Switch)
  | refused (e : OptionsError)
  deriving DecidableEq, Repr

/-- A switch with its value.  There is none for a switch that takes none, and for
one whose value was dropped. -/
structure SwitchSetting where
  switch : Switch
  value : Option Text := none
  deriving DecidableEq, Repr

/-- A switch with a value from its own argument, where a divider is dropped. -/
def SwitchSetting.ofGiven (s : Switch) (value : Text) : SwitchSetting :=
  { switch := s, value := if value = ['-', '-'] then none else some value }

/-- What the argument of a switch amounts to. -/
structure SwitchGroup where
  /-- The switches that are complete. -/
  settings : List SwitchSetting := []
  /-- The last switch, if its value is the next argument. -/
  waiting : Option Switch := none
  deriving DecidableEq, Repr

namespace SwitchGroup

/-- A switch that is given no value in its own argument. -/
def bare (s : Switch) : SwitchGroup :=
  if s.takesValue then { waiting := some s } else { settings := [{ switch := s }] }

/-- The group with one more switch in front. -/
def after (s : Switch) (g : SwitchGroup) : SwitchGroup :=
  { g with settings := { switch := s } :: g.settings }

/-- Reads a short switch with the text behind it, which is its value or spells
further short switches, a character each. -/
def ofShort (s : Switch) (text : Text) : Except UsageError SwitchGroup :=
  if s.takesValue then .ok { settings := [.ofGiven s text] }
  else match text with
    | [] => .error (.valueIgnored s [])
    | c :: rest =>
      match Switch.table.lookup ['-', c] with
      | none => .error (.valueIgnored s (c :: rest))
      | some next =>
        if rest.isEmpty then .ok (after s (bare next)) else (ofShort next rest).map (after s)

/-- The switches in an argument. -/
def ofUse (u : SwitchUse) : Except UsageError SwitchGroup :=
  match u.value with
  | none => .ok (bare u.switch)
  | some value =>
    if u.isLong then
      if u.switch.takesValue then .ok { settings := [.ofGiven u.switch value] }
      else .error (.valueIgnored u.switch value)
    else ofShort u.switch value

end SwitchGroup

namespace Invocation

/-- Carries out a switch. -/
def set (i : Invocation) (s : SwitchSetting) : Except NoInvocation Invocation :=
  match s.switch with
  | .help => .error .help
  | .includeDir => .ok { i with includeDirs := i.includeDirs ++ [s.value] }
  | .define => .ok { i with defines := i.defines ++ [s.value] }
  | .undefine => .ok { i with undefs := i.undefs ++ [s.value] }
  | .noBuiltins => .ok { i with builtins := false }
  | .format =>
    match s.value with
    | none => .ok { i with format := none }
    | some name =>
      match DiagnosticFormat.ofName? (String.ofList name) with
      | some format => .ok { i with format := some format }
      | none => .error (.refused (.badFormat name))
  | .dumpLines => .ok { i with dumpLines := true }
  | .dumpTable => .ok { i with dumpTable := true }
  | .dumpIncludes => .ok { i with dumpIncludes := true }
  | .verbose => .ok { i with verbose := true }

/-- Leaves arguments unrecognized. -/
def leave (i : Invocation) (arguments : List Text) : Invocation :=
  { i with extra := i.extra ++ arguments }

/-- Whether an argument is a switch or looks like one. -/
def isSwitchLike (a : Text × ArgumentKind) : Bool :=
  match a.2 with
  | .switch _ | .unknown => true
  | _ => false

/-- The input at the front of the arguments, if it is still to come, and how many
arguments it takes up: a divider beside it goes with it. -/
def inputAt? (i : Invocation) (arguments : List (Text × ArgumentKind)) : Option (Text × Nat) :=
  if i.input.isSome then none
  else match arguments with
    | (_, .divider) :: (a, .plain) :: _ => some (a, 2)
    | (a, .plain) :: (_, .divider) :: _ => some (a, 2)
    | (a, .plain) :: _ => some (a, 1)
    | _ => none

/-- Takes the arguments in order. -/
def takeAll (i : Invocation) (arguments : List (Text × ArgumentKind)) :
    Except NoInvocation Invocation :=
  match arguments with
  | [] => .ok i
  | (a, .unknown) :: rest => takeAll (i.leave [a]) rest
  | (_, .switch u) :: rest =>
    match SwitchGroup.ofUse u with
    | .error e => .error (.refused e)
    | .ok group =>
      match group.waiting, rest with
      | none, rest => do takeAll (← group.settings.foldlM set i) rest
      | some s, (value, .plain) :: rest => do
        let settings := group.settings ++ [{ switch := s, value := some value }]
        takeAll (← settings.foldlM set i) rest
      | some s, _ => .error (.refused (.valueMissing s))
  | a :: rest =>
    match i.inputAt? (a :: rest) with
    | some (input, n) => takeAll { i with input := some input } (rest.drop (n - 1))
    | none =>
      if rest.any isSwitchLike then
        takeAll (i.leave (a.1 :: (rest.takeWhile (!isSwitchLike ·)).map Prod.fst))
          (rest.dropWhile (!isSwitchLike ·))
      else .ok (i.leave (a.1 :: rest.map Prod.fst))
termination_by arguments.length
decreasing_by
  all_goals simp only [List.length_cons, List.length_drop]
  all_goals have := (List.dropWhile_sublist (l := rest) (!isSwitchLike ·)).length_le
  all_goals omega

/-- The invocation that arguments spell. -/
def ofArguments (arguments : List Text) : Except NoInvocation Invocation :=
  match classify arguments with
  | .error e => .error (.refused e)
  | .ok arguments => do
    let i ← takeAll {} arguments
    if i.input.isNone then .error (.refused .inputMissing)
    else if !i.extra.isEmpty then .error (.refused (.unrecognized i.extra))
    else return i

/-- The values up to the first one that was dropped. -/
def given (values : List (Option Text)) : List Text :=
  (values.takeWhile Option.isSome).filterMap id

/-- Whether a value was dropped. -/
def isDropped (values : List (Option Text)) : Bool :=
  values.any Option.isNone

/-- The options that an invocation asks for.  The format, the definitions and the
names are looked at in this order; there are none if a value was dropped. -/
def options (i : Invocation) : Except NoOptions Options :=
  match i.format with
  | none => .error (.dropped .format)
  | some format =>
    let undefs := if isDropped i.defines then [] else given i.undefs
    match Options.make ((i.includeDirs.filterMap id).map String.ofList) (given i.defines) undefs
        i.builtins format.name with
    | .error e => .error (.refused e)
    | .ok o =>
      if isDropped i.defines then .error (.dropped .define)
      else if isDropped i.undefs then .error (.dropped .undefine)
      else .ok o

end Invocation
end DevicetreePrep
