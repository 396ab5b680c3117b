/-
# Directives

A line is a directive if its first visible character is a hash sign, except
where the hash sign starts the name of a devicetree property, as in
`#address-cells = <1>;`.  A directive has a name, which may be missing, and the
rest of the line as its operand.
-/

import DevicetreePrep.Problem
import DevicetreePrep.Text.Basic

namespace DevicetreePrep

/-- A directive with its operand. -/
inductive Directive
  | ifHolds (operand : Text)
  | ifDefined (operand : Text)
  | ifUndefined (operand : Text)
  | elseIf (operand : Text)
  | otherwise
  | endIf
  | define (operand : Text)
  | undefine (operand : Text)
  | inclusion (operand : Text)
  | pragma (operand : Text)
  | error (operand : Text)
  | warning (operand : Text)
  /-- A hash sign without a name. -/
  | nameless (operand : Text)
  | unknown (name : Text)
  deriving DecidableEq, Repr

namespace Directive

/-- The directive of a name. -/
def ofName (name operand : Text) : Directive :=
  if name = "if".toList then .ifHolds operand
  else if name = "ifdef".toList then .ifDefined operand
  else if name = "ifndef".toList then .ifUndefined operand
  else if name = "elif".toList then .elseIf operand
  else if name = "else".toList then .otherwise
  else if name = "endif".toList then .endIf
  else if name = "define".toList then .define operand
  else if name = "undef".toList then .undefine operand
  else if name = "include".toList then .inclusion operand
  else if name = "pragma".toList then .pragma operand
  else if name = "error".toList then .error operand
  else if name = "warning".toList then .warning operand
  else .unknown name

/-- What may follow the first character of the name of a property. -/
def isPropertyPart (c : Char) : Bool :=
  isWordChar c || c = ',' || c = '.' || c = '+' || c = '?' || c = '#' || c = '-'

/-- Whether the text behind a hash sign makes it a property: a name, followed by
an equals sign or a semicolon. -/
def isProperty : Text → Bool
  | [] => false
  | c :: cs =>
    isNameStart c &&
      match Text.trimLeft (cs.dropWhile isPropertyPart) with
      | d :: _ => d = '=' || d = ';'
      | [] => false

/-- The directive that a line is, if it is one. -/
def ofLine? (line : Text) : Option Directive :=
  match Text.trimLeft line with
  | '#' :: cs =>
    if isProperty cs then none
    else match Text.name? (Text.trimLeft cs) with
      | some (name, operand) => some (ofName name operand)
      | none => some (.nameless (Text.trimLeft cs))
  | _ => none

end Directive

/-- What is wrong with a directive, or what it says. -/
inductive DirectiveError
  /-- No name is given to the directive of this name. -/
  | nameMissing (directive : String)
  /-- What is given to the directive of this name is no name. -/
  | nameInvalid (directive : String)
  | conditionMissing
  /-- Something follows a hash sign that is no name. -/
  | malformed
  | unknown (name : Text)
  | badInclude
  /-- The source reports an error. -/
  | userError (message : Text)
  /-- The source gives a warning. -/
  | userWarning (message : Text)
  | unknownPragma (pragma : Text)
  /-- A definition took the place of another one, which stood here. -/
  | redefined (name : Text) (previous : Option (String × Int))
  deriving DecidableEq, Repr

namespace DirectiveError

/-- The wording of the error. -/
def message : DirectiveError → String
  | nameMissing directive => "Macro name missing in #" ++ directive
  | nameInvalid directive => "Macro names must be identifiers in #" ++ directive
  | conditionMissing => "Conditional directive without an expression"
  | malformed => "Invalid preprocessing directive"
  | unknown name => "Unknown preprocessor directive: #" ++ String.ofList name
  | badInclude => "#include expects \"FILENAME\" or <FILENAME>"
  | userError [] => "#error"
  | userError message => String.ofList message
  | userWarning [] => "#warning"
  | userWarning message => String.ofList message
  | unknownPragma [] => "Unsupported #pragma"
  | unknownPragma pragma => "Unsupported #pragma " ++ String.ofList pragma
  | redefined name none => "Macro " ++ String.ofList name ++ " redefined"
  | redefined name (some (file, line)) =>
    "Macro " ++ String.ofList name ++ " redefined (previous definition at " ++ file ++ ":" ++
      toString line ++ ")"

/-- The error as it is reported. -/
def problem (e : DirectiveError) : Problem :=
  match e with
  | unknown _ => { message := e.message, code := .unknownDirective }
  | userError _ => { message := e.message, code := .userMessage }
  | userWarning _ => { message := e.message, code := .userMessage, severity := .warning }
  | unknownPragma _ => { message := e.message, code := .unknownDirective, severity := .warning }
  | redefined _ _ => { message := e.message, code := .redefinition, severity := .warning }
  | _ => { message := e.message, code := .badDirective }

end DirectiveError

namespace Directive

/-- The name that a directive applies to.  What follows the name does not
count. -/
def requireName (directive : String) (operand : Text) : Except DirectiveError Text :=
  match Text.trim operand with
  | [] => .error (.nameMissing directive)
  | text =>
    match Text.name? text with
    | some (name, _) => .ok name
    | none => .error (.nameInvalid directive)

end Directive
end DevicetreePrep
