/-
# Errors of expansion

What can go wrong while a line is expanded.  None of it stops the expansion:
the tokens concerned stay as they are and the error is put on record.
-/

import DevicetreePrep.Problem
import DevicetreePrep.Text.Basic

namespace DevicetreePrep
namespace Expansion

/-- What went wrong. -/
inductive Cause
  /-- Arguments of arguments, too many levels of them. -/
  | nestedTooDeeply
  /-- One line asks for more replacements than are allowed. -/
  | tooManyReplacements
  /-- The argument list behind this name is not closed. -/
  | unclosedCall (name : Text)
  /-- The function of this name does not take so many arguments. -/
  | wrongCount (name : Text) (needed given : Nat)
  /-- The operator `##` lacks an operand. -/
  | looseOperator
  /-- These two spellings do not make up a token. -/
  | badPaste (left right : Text)
  deriving DecidableEq, Repr

namespace Cause

/-- The wording of the error. -/
def message : Cause → String
  | nestedTooDeeply => "Macro arguments nested too deeply"
  | tooManyReplacements => "Macro expansion limit exceeded"
  | unclosedCall name => "Unterminated argument list invoking macro " ++ String.ofList name
  | wrongCount name needed given =>
    "Macro " ++ String.ofList name ++ " requires " ++ toString needed ++ " argument" ++
      (if needed = 1 then "" else "s") ++ ", but " ++ toString given ++ " given"
  | looseOperator => "'##' cannot appear at either end of a macro expansion"
  | badPaste left right =>
    "Pasting \"" ++ String.ofList left ++ "\" and \"" ++ String.ofList right ++
      "\" does not give a valid preprocessing token"

/-- The code for the error. -/
def code : Cause → Code
  | nestedTooDeeply | tooManyReplacements => .expansionLimit
  | badPaste _ _ => .badPaste
  | _ => .badDefinition

end Cause

/-- An error, and the number of the token of the line that it belongs to. -/
structure Report where
  cause : Cause
  site : Option Nat
  deriving DecidableEq, Repr

end Expansion

/-- An error of expansion, with the offset in the line that it belongs to. -/
structure ExpansionError where
  cause : Expansion.Cause
  offset : Option Nat
  deriving DecidableEq, Repr

/-- The error as it is reported. -/
def ExpansionError.problem (e : ExpansionError) : Problem :=
  { message := e.cause.message, code := e.cause.code, offset := e.offset }

end DevicetreePrep
