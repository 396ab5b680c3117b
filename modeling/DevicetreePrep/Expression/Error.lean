/-
# Errors of expressions

An expression without a value has an error at one of its tokens.  Two failures
are beyond the language of expressions: a decimal constant with too many digits
to be read, and an integer that is too large to meet a double.  They end the
run.
-/

import DevicetreePrep.Problem
import DevicetreePrep.Text.Basic

namespace DevicetreePrep

/-- Why an expression has no value. -/
inductive ExpressionCause
  /-- No name follows `defined`. -/
  | noName
  | empty
  | unexpected (text : Text)
  | unexpectedEnd
  | expected (text : Text) (got : Text)
  | expectedAtEnd (text : Text)
  | unresolved (name : Text)
  | badOctal (text : Text)
  | badNumber (text : Text)
  | badCharacter (text : Text)
  /-- A double for an operator that takes integers. -/
  | badOperands (operator : Text)
  | badComplement
  | divisionByZero
  | negativeShift
  | shiftTooLarge
  deriving DecidableEq, Repr

/-- The wording of the error. -/
def ExpressionCause.message : ExpressionCause → String
  | noName => "Macro name expected after 'defined'"
  | empty => "Empty expression"
  | unexpected text => "Unexpected token '" ++ String.ofList text ++ "'"
  | unexpectedEnd => "Unexpected end of expression"
  | expected text got =>
    "Expected '" ++ String.ofList text ++ "', got '" ++ String.ofList got ++ "'"
  | expectedAtEnd text => "Expected '" ++ String.ofList text ++ "' before end of expression"
  | unresolved name => "Unresolved identifier '" ++ String.ofList name ++ "'"
  | badOctal text => "Invalid octal constant '" ++ String.ofList text ++ "'"
  | badNumber text => "Invalid number '" ++ String.ofList text ++ "'"
  | badCharacter text => "Invalid character constant " ++ String.ofList text
  | badOperands operator => "Invalid operands to binary '" ++ String.ofList operator ++ "'"
  | badComplement => "Invalid operand to unary '~'"
  | divisionByZero => "Division by zero"
  | negativeShift => "Negative shift count"
  | shiftTooLarge => "Shift count too large"

/-- An error of an expression and the offset of its token. -/
structure ExpressionError where
  cause : ExpressionCause
  offset : Option Nat := none
  deriving DecidableEq, Repr

/-- The error as it is reported. -/
def ExpressionError.problem (e : ExpressionError) : Problem :=
  { message := e.cause.message, code := .badCondition, offset := e.offset }

/-- A number that cannot be handled. -/
inductive NumberOverrun
  /-- A decimal constant with so many digits. -/
  | digits (count : Nat)
  /-- An integer that is no double. -/
  | float
  deriving DecidableEq, Repr

/-- How many digits a decimal constant may have. -/
def digitLimit : Nat := 4300

/-- The wording of the failure. -/
def NumberOverrun.message : NumberOverrun → String
  | digits count =>
    "Exceeds the limit (" ++ toString digitLimit ++ " digits) for integer string conversion: " ++
      "value has " ++ toString count ++
      " digits; use sys.set_int_max_str_digits() to increase the limit"
  | float => "int too large to convert to float"

/-- Why evaluation came to an end without a value. -/
inductive EvaluationFailure
  | error (e : ExpressionError)
  | overrun (o : NumberOverrun)
  deriving DecidableEq, Repr

end DevicetreePrep
