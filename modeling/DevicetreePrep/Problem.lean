/-
# Problems

Whatever is wrong with a source comes down to a message, a code for its kind, a
severity and, if it has a place in a line, an offset.
-/

namespace DevicetreePrep

/-- How grave a diagnostic is. -/
inductive Severity
  | error
  | warning
  | information
  | hint
  deriving DecidableEq, Repr

namespace Severity

/-- The word for a severity. -/
def name : Severity → String
  | error => "error"
  | warning => "warning"
  | information => "information"
  | hint => "hint"

/-- The severity that a word stands for. -/
def ofName? (s : String) : Option Severity :=
  [error, warning, information, hint].find? (·.name = s)

end Severity

/-- The code of a diagnostic: what kind of thing went wrong. -/
inductive Code
  | unknownDirective
  | includeNotFound
  | badCondition
  | badDirective
  | unterminatedConditional
  | userMessage
  | badDefinition
  | redefinition
  | badPaste
  | expansionLimit
  | includeUnreadable
  | includeCycle
  | unterminatedText
  deriving DecidableEq, Repr

/-- The code as it is written. -/
def Code.text : Code → String
  | unknownDirective => "DTPP-PP-0101"
  | includeNotFound => "DTPP-PP-0102"
  | badCondition => "DTPP-PP-0103"
  | badDirective => "DTPP-PP-0104"
  | unterminatedConditional => "DTPP-PP-0105"
  | userMessage => "DTPP-PP-0106"
  | badDefinition => "DTPP-PP-0201"
  | redefinition => "DTPP-PP-0202"
  | badPaste => "DTPP-PP-0203"
  | expansionLimit => "DTPP-PP-0204"
  | includeUnreadable => "DTPP-PP-0301"
  | includeCycle => "DTPP-PP-0302"
  | unterminatedText => "DTPP-LEX-0001"

/-- What is wrong, in the form in which it is reported. -/
structure Problem where
  message : String
  code : Code
  severity : Severity := .error
  offset : Option Nat := none
  deriving DecidableEq, Repr

end DevicetreePrep
