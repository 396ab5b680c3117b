/-
# Expressions

The operand of a condition is evaluated in four steps: `defined NAME` and
`defined(NAME)` are replaced by 1 or 0, the rest is expanded, white space is
dropped, and what remains is read as an expression and evaluated.
-/

import DevicetreePrep.Expansion
import DevicetreePrep.Expression.Grammar

namespace DevicetreePrep
namespace Expression

/-- The name that `defined` asks for, with or without brackets around it, and the
tokens behind it. -/
def definedName? (ts : List Token) : Option (Text × List Token) :=
  match ts.dropWhile Token.isWhite with
  | [] => none
  | t :: rest =>
    if t.isIdent then some (t.text, rest)
    else if t.text = ['('] then
      match rest.dropWhile Token.isWhite with
      | [] => none
      | n :: rest =>
        if n.isIdent then
          match rest.dropWhile Token.isWhite with
          | [] => none
          | c :: rest => if c.text = [')'] then some (n.text, rest) else none
        else none
    else none

/-- What follows the first member that is kept is shorter than the whole. -/
theorem length_lt_of_dropWhile {α : Type} {p : α → Bool} {xs rest : List α} {x : α}
    (h : xs.dropWhile p = x :: rest) : rest.length < xs.length := by
  have := (List.dropWhile_sublist p (l := xs)).length_le
  rw [h, List.length_cons] at this
  exact this

/-- What follows the name is shorter than what followed `defined`. -/
theorem length_lt_of_definedName? {ts rest : List Token} {name : Text}
    (h : definedName? ts = some (name, rest)) : rest.length < ts.length := by
  unfold definedName? at h
  repeat' split at h
  all_goals try contradiction
  · simp only [Option.some.injEq, Prod.mk.injEq] at h
    rw [← h.2]
    exact length_lt_of_dropWhile ‹_›
  · simp only [Option.some.injEq, Prod.mk.injEq] at h
    rename_i h₁ _ _ _ _ _ h₂ _ _ _ _ h₃ _
    have := length_lt_of_dropWhile h₁
    have := length_lt_of_dropWhile h₂
    have := length_lt_of_dropWhile h₃
    rw [← h.2]
    omega

/-- Replaces every question whether a name is defined by its answer. -/
def answerDefined (table : Table) (ts : List Token) : Except ExpressionError (List Token) :=
  match ts with
  | [] => .ok []
  | t :: rest =>
    if t.isIdent && t.text = "defined".toList then
      match _h : definedName? rest with
      | none => .error ⟨.noName, some t.offset⟩
      | some (name, rest') => do
        let text := if table.contains name then ['1'] else ['0']
        return { kind := .number, text, offset := t.offset } :: (← answerDefined table rest')
    else do
      return t :: (← answerDefined table rest)
termination_by ts.length
decreasing_by
  · have := length_lt_of_definedName? ‹_›
    simp only [List.length_cons]
    omega
  · simp

/-- An expression after evaluation.  Expansion has its effects also where there
is no value. -/
structure Evaluated where
  result : Except EvaluationFailure Value
  counter : Nat
  errors : List ExpansionError := []

/-- The value, if there is one: an expression with an error has none. -/
def Evaluated.value? (r : Evaluated) : Except NumberOverrun (Option Value) :=
  match r.result with
  | .ok v => .ok (some v)
  | .error (.error _) => .ok none
  | .error (.overrun o) => .error o

/-- Evaluates an expression. -/
def evaluate (ctx : Expansion.Context) (counter : Nat) (ts : List Token) : Evaluated :=
  match answerDefined ctx.table ts with
  | .error e => { result := .error (.error e), counter }
  | .ok ts =>
    let r := expandTokens ctx counter ts
    { result := (Expr.read (r.tokens.filter fun t => !t.isWhite)).eval false
      counter := r.counter
      errors := r.errors }

end Expression
end DevicetreePrep
