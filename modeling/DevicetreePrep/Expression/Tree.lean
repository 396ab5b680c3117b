/-
# Expression trees

An expression is evaluated from left to right.  The operand that `&&`, `||` and
`?:` do not need is evaluated too, but its value is discarded, and there a
division by zero or a shift by a bad amount is zero and no error.

A malformed expression is a tree as well: where it cannot be read on, the tree
has a fault.  Evaluation stops at the first fault it comes to, of whichever
kind, so errors are found in the order of the source.
-/

import DevicetreePrep.Expression.Error
import DevicetreePrep.Expression.Value

namespace DevicetreePrep

/-- The operators with one operand. -/
inductive UnaryOp
  | not
  | complement
  | minus
  | plus
  deriving DecidableEq, Repr

/-- The operators with two operands. -/
inductive BinaryOp
  | or
  | and
  | bitOr
  | bitXor
  | bitAnd
  | eq
  | ne
  | lt
  | le
  | gt
  | ge
  | shiftLeft
  | shiftRight
  | add
  | sub
  | mul
  | div
  | rem
  deriving DecidableEq, Repr

namespace UnaryOp

/-- The spelling of the operator. -/
def spelling : UnaryOp → Text
  | not => ['!']
  | complement => ['~']
  | minus => ['-']
  | plus => ['+']

/-- All operators with one operand. -/
def all : List UnaryOp :=
  [not, complement, minus, plus]

end UnaryOp

namespace BinaryOp

/-- The spelling of the operator. -/
def spelling : BinaryOp → Text
  | or => ['|', '|']
  | and => ['&', '&']
  | bitOr => ['|']
  | bitXor => ['^']
  | bitAnd => ['&']
  | eq => ['=', '=']
  | ne => ['!', '=']
  | lt => ['<']
  | le => ['<', '=']
  | gt => ['>']
  | ge => ['>', '=']
  | shiftLeft => ['<', '<']
  | shiftRight => ['>', '>']
  | add => ['+']
  | sub => ['-']
  | mul => ['*']
  | div => ['/']
  | rem => ['%']

/-- How tightly the operator binds: more tightly on a higher level. -/
def level : BinaryOp → Nat
  | or => 0
  | and => 1
  | bitOr => 2
  | bitXor => 3
  | bitAnd => 4
  | eq | ne => 5
  | lt | le | gt | ge => 6
  | shiftLeft | shiftRight => 7
  | add | sub => 8
  | mul | div | rem => 9

/-- All operators with two operands. -/
def all : List BinaryOp :=
  [or, and, bitOr, bitXor, bitAnd, eq, ne, lt, le, gt, ge, shiftLeft, shiftRight, add, sub, mul,
    div, rem]

end BinaryOp

/-- An expression. -/
inductive Expr
  | literal (v : Value)
  /-- What stands where no operand can be read. -/
  | fault (f : EvaluationFailure)
  /-- An expression behind which it cannot be read on. -/
  | broken (e : Expr) (f : EvaluationFailure)
  | unary (op : UnaryOp) (offset : Nat) (e : Expr)
  | binary (op : BinaryOp) (offset : Nat) (l r : Expr)
  | conditional (c t e : Expr)

namespace BinaryOp

/-- A failure at the operator. -/
def fail (offset : Nat) (cause : ExpressionCause) : Except EvaluationFailure Value :=
  .error (.error ⟨cause, some offset⟩)

/-- Where the value is discarded, zero in place of an error. -/
def failUnless (discarded : Bool) (offset : Nat) (cause : ExpressionCause) :
    Except EvaluationFailure Value :=
  if discarded then .ok (.int 0) else fail offset cause

/-- Applies an operation of doubles to two numbers. -/
def onFloats (f : Float → Float → Float) (a b : Number) : Except EvaluationFailure Value :=
  match a.toFloat?, b.toFloat? with
  | some x, some y => .ok (.float (f x y))
  | _, _ => .error (.overrun .float)

/-- Applies an operation that integers and doubles have. -/
def arithmetic (onInts : Int → Int → Int) (f : Float → Float → Float) (a b : Number) :
    Except EvaluationFailure Value :=
  match a, b with
  | .int i, .int j => .ok (.int (onInts i j))
  | _, _ => onFloats f a b

/-- Applies an operation that only integers have. -/
def onInts (op : BinaryOp) (offset : Nat) (f : Int → Int → Except EvaluationFailure Value)
    (a b : Number) : Except EvaluationFailure Value :=
  match a, b with
  | .int i, .int j => f i j
  | _, _ => fail offset (.badOperands op.spelling)

/-- The amounts by which an integer can be shifted: below this. -/
def shiftWidth : Int := 64

/-- Applies a shift by an amount that is checked. -/
def shift (discarded : Bool) (offset : Nat) (f : Int → Nat → Int) (i amount : Int) :
    Except EvaluationFailure Value :=
  if amount < 0 then failUnless discarded offset .negativeShift
  else if shiftWidth ≤ amount then failUnless discarded offset .shiftTooLarge
  else .ok (.int (f i amount.toNat))

/-- Applies an operator to the values of its operands. -/
def apply (discarded : Bool) (op : BinaryOp) (offset : Nat) (l r : Value) :
    Except EvaluationFailure Value :=
  let a := l.number
  let b := r.number
  let order := a.compare? b
  match op with
  | or => .ok (.bool (l.truth || r.truth))
  | and => .ok (.bool (l.truth && r.truth))
  | eq => .ok (.bool (order = some .eq))
  | ne => .ok (.bool (order ≠ some .eq))
  | lt => .ok (.bool (order = some .lt))
  | le => .ok (.bool (order = some .lt || order = some .eq))
  | gt => .ok (.bool (order = some .gt))
  | ge => .ok (.bool (order = some .gt || order = some .eq))
  | bitOr => onInts op offset (fun i j => .ok (.int (Bits.either i j))) a b
  | bitXor => onInts op offset (fun i j => .ok (.int (Bits.oneOf i j))) a b
  | bitAnd => onInts op offset (fun i j => .ok (.int (Bits.both i j))) a b
  | shiftLeft => onInts op offset (shift discarded offset fun i n => i * Double.pow2 n) a b
  | shiftRight => onInts op offset (shift discarded offset fun i n => i / Double.pow2 n) a b
  | add => arithmetic (· + ·) (· + ·) a b
  | sub => arithmetic (· - ·) (· - ·) a b
  | mul => arithmetic (· * ·) (· * ·) a b
  | div =>
    if b.isZero then failUnless discarded offset .divisionByZero
    else arithmetic Int.tdiv (· / ·) a b
  | rem =>
    onInts op offset (fun i j =>
      if j = 0 then failUnless discarded offset .divisionByZero else .ok (.int (Int.tmod i j))) a b

end BinaryOp

/-- Applies an operator to the value of its operand. -/
def UnaryOp.apply (op : UnaryOp) (offset : Nat) (v : Value) : Except EvaluationFailure Value :=
  match op, v.number with
  | .not, _ => .ok (.bool !v.truth)
  | .minus, .int i => .ok (.int (-i))
  | .minus, .float x => .ok (.float (-x))
  | .plus, n => .ok n.value
  | .complement, .int i => .ok (.int (-i - 1))
  | .complement, .float _ => .error (.error ⟨.badComplement, some offset⟩)

/-- The value of an expression; `discarded` says that it is not needed. -/
def Expr.eval (discarded : Bool) : Expr → Except EvaluationFailure Value
  | literal v => .ok v
  | fault f => .error f
  | broken e f => do
    let _ ← eval discarded e
    .error f
  | unary op offset e => do
    op.apply offset (← eval discarded e)
  | binary op offset l r => do
    let a ← eval discarded l
    let needless := match op with
      | .or => a.truth
      | .and => !a.truth
      | _ => false
    let b ← eval (discarded || needless) r
    op.apply discarded offset a b
  | conditional c t e => do
    let chosen := (← eval discarded c).truth
    let a ← eval (discarded || !chosen) t
    let b ← eval (discarded || chosen) e
    return if chosen then a else b

end DevicetreePrep
