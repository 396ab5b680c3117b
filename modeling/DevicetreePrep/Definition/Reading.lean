/-
# Reading definitions

The operand of a defining directive is a name, at once followed by an opening
bracket if the definition takes arguments, and then the replacement:

    NAME replacement
    NAME(a, b) replacement
    NAME(a, ...) replacement
    NAME(a, rest...) replacement

The command line writes `NAME=replacement`, and a bare `NAME` stands for `NAME=1`.
-/

import DevicetreePrep.Definition
import DevicetreePrep.Token.Lexer

namespace DevicetreePrep

/-- Why a definition cannot be read. -/
inductive DefinitionError
  /-- No name stands at its front. -/
  | noName
  /-- The parameter list of this name is not closed. -/
  | unclosedParameters (name : Text)
  /-- Parameters follow a rest. -/
  | restNotLast
  /-- This is no parameter. -/
  | badParameter (text : Text)
  /-- This parameter is declared twice. -/
  | repeatedParameter (name : Text)
  /-- This is no definition in the form of the command line. -/
  | badAssignment (text : Text)
  deriving DecidableEq, Repr

/-- The wording of the error. -/
def DefinitionError.message : DefinitionError → String
  | noName => "Invalid define syntax"
  | unclosedParameters name => "Missing ')' in parameter list of macro " ++ String.ofList name
  | restNotLast => "Variadic parameter must be the last parameter"
  | badParameter [] => "Invalid macro parameter: <empty>"
  | badParameter text => "Invalid macro parameter: " ++ String.ofList text
  | repeatedParameter name => "Duplicate macro parameter: " ++ String.ofList name
  | badAssignment text => "Invalid macro definition: " ++ String.ofList text

/-- The error as it is reported. -/
def DefinitionError.problem (e : DefinitionError) : Problem :=
  { message := e.message, code := .badDefinition }

namespace Definition

/-- The three dots of a rest. -/
def dots : Text :=
  ['.', '.', '.']

/-- Reads the declared parameters behind those in `seen`, which are in reverse
order. -/
def readParameters (seen : List Text) : List Text → Except DefinitionError (List Text × Rest)
  | [] => .ok (seen.reverse, .none)
  | item :: items =>
    if item = dots then
      if items.isEmpty then .ok (seen.reverse, .anonymous) else .error .restNotLast
    else if dots.isSuffixOf item && items.isEmpty then
      let name := Text.trimRight (item.take (item.length - dots.length))
      if !Text.isName name || seen.contains name then .error (.badParameter item)
      else if name = restName then .ok ((name :: seen).reverse, .anonymous)
      else .ok (seen.reverse, .named name)
    else if !Text.isName item then .error (.badParameter item)
    else if seen.contains item then .error (.repeatedParameter item)
    else readParameters (item :: seen) items

/-- The parameters that stand between the brackets of a declaration. -/
def parametersOf (inner : Text) : Except DefinitionError (List Text × Rest) :=
  let inner := Text.trim inner
  if inner.isEmpty then .ok ([], .none)
  else readParameters [] ((Text.split ',' inner).map Text.trim)

/-- The replacement that a text spells. -/
def bodyOf (replacement : Text) : List Token :=
  trimWhite (tokenize (Text.trim replacement))

/-- Reads the operand of a defining directive. -/
def read (operand : Text) (file : Option String := none) (line : Option Int := none) :
    Except DefinitionError Definition :=
  match Text.name? (Text.trimLeft operand) with
  | none => .error .noName
  | some (name, '(' :: tail) =>
    match Text.cut ')' tail with
    | (_, none) => .error (.unclosedParameters name)
    | (inner, some replacement) => do
      let (fixed, rest) ← parametersOf inner
      return { name, shape := .function fixed rest, body := bodyOf replacement, file, line }
  | some (name, replacement) => .ok { name, body := bodyOf replacement, file, line }

/-- Reads a definition in the form of the command line. -/
def readAssignment (text : Text) : Except DefinitionError Definition :=
  let (head, replacement?) := Text.cut '=' text
  if Text.isName (Text.cut '(' head).1 then read (head ++ ' ' :: replacement?.getD ['1'])
  else .error (.badAssignment text)

end Definition
end DevicetreePrep
