/-
# The grammar of expressions

    conditional  =  level 0  |  level 0 ? conditional : conditional
    level n      =  level (n + 1)  |  level n  (operator of level n)  level (n + 1)
    level 10     =  primary  |  ! level 10  |  ~ level 10  |  - level 10  |  + level 10
    primary      =  number  |  character  |  ( conditional )

The reader goes forward through the tokens.  Each of its functions gives back
the tokens it left, which are never more than it was given; on a level that is
what makes it end.  Where it cannot go on it leaves no tokens and puts a fault
in the tree.

Brackets, signs and conditionals may be nested to any depth.  A limit on the depth
of recursion, such as interpreters have, is not modelled.
-/

import DevicetreePrep.Expression.Literal
import DevicetreePrep.Expression.Tree

namespace DevicetreePrep
namespace Expr

/-- A tree that was read and the tokens that are left, `bound` at most. -/
structure Reading (bound : Nat) where
  tree : Expr
  rest : List Token
  bounded : rest.length ≤ bound

/-- The same reading where more tokens were allowed to be left. -/
def Reading.weaken {m n : Nat} (r : Reading m) (h : m ≤ n) : Reading n :=
  { r with bounded := Nat.le_trans r.bounded h }

/-- A reading that ends in a fault. -/
def Reading.stopped {n : Nat} (tree : Expr) : Reading n :=
  ⟨tree, [], Nat.zero_le n⟩

/-- An error of an expression as a failure. -/
def failure (cause : ExpressionCause) (offset : Option Nat := none) : EvaluationFailure :=
  .error ⟨cause, offset⟩

/-- The operator of a level that a token is. -/
def operatorAt? (level : Nat) (t : Token) : Option BinaryOp :=
  BinaryOp.all.find? fun op => op.level = level && t.isPunct op.spelling

/-- The operator in front of an operand that a token is. -/
def unaryOperator? (t : Token) : Option UnaryOp :=
  UnaryOp.all.find? fun op => t.isPunct op.spelling

/-- The failure at the front of `ts`, where the punctuator `s` should stand. -/
def missing (s : Text) : List Token → EvaluationFailure
  | [] => failure (.expectedAtEnd s)
  | t :: _ => failure (.expected s t.text) (some t.offset)

/-- The conditional behind whose first choice a colon should stand, at the front of
`ts`. -/
def withoutColon (c t : Expr) (ts : List Token) : Expr :=
  .conditional c (.broken t (missing [':'] ts)) (.fault (missing [':'] ts))

/-- The tree of a token that is an operand by itself. -/
def operandOf (t : Token) : Expr :=
  match t.kind with
  | .number => either (Literal.number t)
  | .charConst => either (Literal.character t)
  | .ident => .fault (failure (.unresolved t.text) (some t.offset))
  | _ => .fault (failure (.unexpected t.text) (some t.offset))
where
  /-- A constant, or the fault of one that cannot be read. -/
  either : Except EvaluationFailure Value → Expr
    | .ok v => .literal v
    | .error f => .fault f

/-- With no more tokens and a lower rank there is less to do. -/
theorem lex_of_le {m n i j : Nat} (h : m ≤ n) (hij : i < j) :
    Prod.Lex (· < ·) (· < ·) (m, i) (n, j) := by
  rcases Nat.lt_or_eq_of_le h with h | rfl
  · exact .left _ _ h
  · exact .right _ hij

/-- The number of levels of operators with two operands. -/
def levels : Nat := 10

mutual

/-- Reads a conditional. -/
def readConditional (ts : List Token) : Reading ts.length :=
  let c := readLevel 0 ts
  match _h : c.rest with
  | [] => c
  | q :: afterQ =>
    if q.isPunct ['?'] then
      have : afterQ.length < ts.length := by
        have := c.bounded
        rw [_h, List.length_cons] at this
        omega
      let t := readConditional afterQ
      match _h : t.rest with
      | [] => .stopped (withoutColon c.tree t.tree [])
      | s :: afterS =>
        if s.isPunct [':'] then
          have : afterS.length < ts.length := by
            have := t.bounded
            rw [_h, List.length_cons] at this
            omega
          let e := readConditional afterS
          ⟨.conditional c.tree t.tree e.tree, e.rest, by have := e.bounded; omega⟩
        else
          .stopped (withoutColon c.tree t.tree [s])
    else c
termination_by (ts.length, levels + 2)

/-- Reads the operators of a level and of all higher ones. -/
def readLevel (level : Nat) (ts : List Token) : Reading ts.length :=
  if level < levels then
    let l := readLevel (level + 1) ts
    have := l.bounded
    (readChain level l.tree l.rest).weaken l.bounded
  else readUnary ts
termination_by (ts.length, levels - level + 1)
decreasing_by
  · exact lex_of_le (Nat.le_refl _) (by omega)
  · exact lex_of_le ‹_› (by omega)
  · exact lex_of_le (Nat.le_refl _) (by omega)

/-- Reads on behind an operand of a level. -/
def readChain (level : Nat) (left : Expr) (ts : List Token) : Reading ts.length :=
  match ts with
  | [] => ⟨left, [], by simp⟩
  | t :: rest =>
    match operatorAt? level t with
    | none => ⟨left, t :: rest, by simp⟩
    | some op =>
      let r := readLevel (level + 1) rest
      have := r.bounded
      (readChain level (.binary op t.offset left r.tree) r.rest).weaken (by simp; omega)
termination_by (ts.length, 0)
decreasing_by
  · exact .left _ _ (Nat.lt_succ_self _)
  · exact .left _ _ (Nat.lt_succ_of_le ‹_›)

/-- Reads an operand with the operators in front of it. -/
def readUnary (ts : List Token) : Reading ts.length :=
  match ts with
  | [] => .stopped (.fault (failure .unexpectedEnd))
  | t :: rest =>
    match unaryOperator? t with
    | some op =>
      let e := readUnary rest
      ⟨.unary op t.offset e.tree, e.rest, by have := e.bounded; simp; omega⟩
    | none =>
      if t.isPunct ['('] then
        let e := readConditional rest
        match _h : e.rest with
        | [] => .stopped (.broken e.tree (missing [')'] []))
        | c :: afterC =>
          if c.isPunct [')'] then
            ⟨e.tree, afterC, by
              have := e.bounded
              rw [_h, List.length_cons] at this
              rw [List.length_cons]
              omega⟩
          else .stopped (.broken e.tree (missing [')'] [c]))
      else
        match operandOf t with
        | .fault f => .stopped (.fault f)
        | e => ⟨e, rest, by simp⟩
termination_by (ts.length, 0)

end

/-- Reads an expression from tokens without white space. -/
def read (ts : List Token) : Expr :=
  if ts.isEmpty then .fault (failure .empty)
  else
    let r := readConditional ts
    match r.rest with
    | [] => r.tree
    | t :: _ => .broken r.tree (failure (.unexpected t.text) (some t.offset))

end Expr
end DevicetreePrep
