/-
# Formulas over the integers

A formula is an expression without faults whose constants are integers.  Two things
are said about formulas here, with no reader in mind: which tokens spell one
(`Formula.Spells`), and which value it has (`Formula.value`).

The grammar is given by a table of operators, from those that bind most loosely to
those that bind most tightly (`precedence`).  On every row operators group to the
left; the conditional, which binds more loosely than all of them, groups to the right.

The value is found without looking at operands that do not count: behind a true left
side of `||`, behind a false left side of `&&`, and on the side of a conditional that
is not chosen.  Only three things can go wrong (`Formula.Fault`).
-/

import Mathlib.Data.Int.Bitwise
import DevicetreePrep.Expression.Grammar

namespace DevicetreePrep

/-- An expression of integer constants.  An operator with two operands keeps the
offset of its token. -/
inductive Formula
  | constant (i : Int)
  | unary (op : UnaryOp) (offset : Nat) (f : Formula)
  | binary (op : BinaryOp) (offset : Nat) (l r : Formula)
  | conditional (c t e : Formula)

namespace Formula

/-- The operators with one operand. -/
def signs : List (String × UnaryOp) :=
  [("!", .not), ("~", .complement), ("-", .minus), ("+", .plus)]

/-- The operators with two operands, the loosest ones first. -/
def precedence : List (List (String × BinaryOp)) :=
  [[("||", .or)],
   [("&&", .and)],
   [("|", .bitOr)],
   [("^", .bitXor)],
   [("&", .bitAnd)],
   [("==", .eq), ("!=", .ne)],
   [("<", .lt), ("<=", .le), (">", .gt), (">=", .ge)],
   [("<<", .shiftLeft), (">>", .shiftRight)],
   [("+", .add), ("-", .sub)],
   [("*", .mul), ("/", .div), ("%", .rem)]]

/-- What a stretch of tokens can stand for: anything, or an operand on a row of
operators.  Below the last row there are operands with signs in front of them. -/
inductive Rank
  | any
  | row (n : Nat)
  deriving DecidableEq

/-- The tokens spell the formula, at a place where a formula of this rank may stand. -/
inductive Spells : Rank → List Token → Formula → Prop
  | number {t : Token} {i : Int} (hkind : t.kind = .number)
      (hvalue : Literal.number t = .ok (.int i)) : Spells (.row 10) [t] (.constant i)
  | character {t : Token} {i : Int} (hkind : t.kind = .charConst)
      (hvalue : Literal.character t = .ok (.int i)) : Spells (.row 10) [t] (.constant i)
  | group {left right : Token} {ts : List Token} {f : Formula} (hleft : left.isPunct ['('])
      (h : Spells .any ts f) (hright : right.isPunct [')']) :
      Spells (.row 10) (left :: ts ++ [right]) f
  | signed {t : Token} {s : String} {op : UnaryOp} {ts : List Token} {f : Formula}
      (hsign : (s, op) ∈ signs) (ht : t.isPunct s.toList) (h : Spells (.row 10) ts f) :
      Spells (.row 10) (t :: ts) (.unary op t.offset f)
  | tighter {n : Nat} {ts : List Token} {f : Formula} (hn : n < 10)
      (h : Spells (.row (n + 1)) ts f) : Spells (.row n) ts f
  | operation {n : Nat} {row : List (String × BinaryOp)} {s : String} {op : BinaryOp} {t : Token}
      {ls rs : List Token} {l r : Formula} (hrow : precedence[n]? = some row) (hop : (s, op) ∈ row)
      (ht : t.isPunct s.toList) (hl : Spells (.row n) ls l) (hr : Spells (.row (n + 1)) rs r) :
      Spells (.row n) (ls ++ t :: rs) (.binary op t.offset l r)
  | loosest {ts : List Token} {f : Formula} (h : Spells (.row 0) ts f) : Spells .any ts f
  | choice {mark colon : Token} {cs ts es : List Token} {c t e : Formula} (hc : Spells (.row 0) cs c)
      (hmark : mark.isPunct ['?']) (ht : Spells .any ts t) (hcolon : colon.isPunct [':'])
      (he : Spells .any es e) :
      Spells .any (cs ++ mark :: ts ++ colon :: es) (.conditional c t e)

/-- All constants among the tokens are integers that can be read. -/
def HasIntegers (ts : List Token) : Prop :=
  ∀ t ∈ ts, (t.kind = .number → ∃ i, Literal.number t = .ok (.int i)) ∧
    (t.kind = .charConst → ∃ i, Literal.character t = .ok (.int i))

theorem HasIntegers.of_append {ls rs : List Token} (h : HasIntegers (ls ++ rs)) : HasIntegers rs :=
  fun t ht => h t (List.mem_append_right _ ht)

theorem HasIntegers.tail {t : Token} {ts : List Token} (h : HasIntegers (t :: ts)) : HasIntegers ts :=
  fun u hu => h u (List.mem_cons_of_mem _ hu)

/-- The value of a formula. -/
inductive Outcome
  | truth (b : Bool)
  | number (i : Int)
  deriving DecidableEq, Repr

namespace Outcome

/-- A truth value counts as 0 or 1. -/
def toInt : Outcome → Int
  | truth b => if b then 1 else 0
  | number i => i

/-- Everything but 0 counts as true. -/
def holds (v : Outcome) : Bool :=
  v.toInt ≠ 0

end Outcome

/-- What can go wrong in a formula. -/
inductive Fault
  | divisionByZero
  | negativeShift
  | shiftTooLarge
  deriving DecidableEq, Repr

/-- The wording of the fault. -/
def Fault.message : Fault → String
  | divisionByZero => "Division by zero"
  | negativeShift => "Negative shift count"
  | shiftTooLarge => "Shift count too large"

/-- The result of an operator with one operand. -/
def signed : UnaryOp → Outcome → Outcome
  | .not, v => .truth (v.toInt = 0)
  | .complement, v => .number (~~~v.toInt)
  | .minus, v => .number (-v.toInt)
  | .plus, v => .number v.toInt

/-- A shift by 0 to 63 places. -/
def shifted (f : Nat → Int) (count : Int) : Except Fault Outcome :=
  if count < 0 then .error .negativeShift
  else if count ≤ 63 then .ok (.number (f count.toNat))
  else .error .shiftTooLarge

/-- The result of an operator with two operands, both of which count. -/
def operated (op : BinaryOp) (a b : Int) : Except Fault Outcome :=
  match op with
  | .or => .ok (.truth (a ≠ 0 ∨ b ≠ 0))
  | .and => .ok (.truth (a ≠ 0 ∧ b ≠ 0))
  | .bitOr => .ok (.number (a.lor b))
  | .bitXor => .ok (.number (a.xor b))
  | .bitAnd => .ok (.number (a.land b))
  | .eq => .ok (.truth (a = b))
  | .ne => .ok (.truth (a ≠ b))
  | .lt => .ok (.truth (a < b))
  | .le => .ok (.truth (a ≤ b))
  | .gt => .ok (.truth (a > b))
  | .ge => .ok (.truth (a ≥ b))
  | .shiftLeft => shifted (fun n => a * 2 ^ n) b
  | .shiftRight => shifted (fun n => a >>> n) b
  | .add => .ok (.number (a + b))
  | .sub => .ok (.number (a - b))
  | .mul => .ok (.number (a * b))
  | .div => if b = 0 then .error .divisionByZero else .ok (.number (a.tdiv b))
  | .rem => if b = 0 then .error .divisionByZero else .ok (.number (a - b * a.tdiv b))

/-- The result that the left operand settles by itself. -/
def settled? (op : BinaryOp) (a : Outcome) : Option Outcome :=
  match op with
  | .or => if a.holds then some (.truth true) else none
  | .and => if a.holds then none else some (.truth false)
  | _ => none

/-- The value of a formula, or a fault and the offset of the operator at which it
occurs. -/
def value : Formula → Except (Fault × Nat) Outcome
  | constant i => .ok (.number i)
  | unary op _ f => do
    return signed op (← f.value)
  | binary op offset l r => do
    let a ← l.value
    match settled? op a with
    | some v => return v
    | none =>
      let b ← r.value
      (operated op a.toInt b.toInt).mapError (·, offset)
  | conditional c t e => do
    if (← c.value).holds then t.value else e.value

end Formula
end DevicetreePrep
