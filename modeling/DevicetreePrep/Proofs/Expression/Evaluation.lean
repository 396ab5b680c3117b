/-
# Evaluation of formulas

An expression is evaluated with a mark that says whether its value is needed.  The
evaluator goes through operands that do not count as well, with the mark set, and
there nothing goes wrong: `eval_toExpr_discarded`.  Where the mark is not set it
gives the value of the formula, or its fault at the offset of the operator:
`eval_toExpr`.  Both rest on what a single operator does to integers
(`apply_eq_operated`).  An operand with a fault in it, on the other hand, is found
out also where it does not count (`Expr.Fails`).
-/

import DevicetreePrep.Proofs.Expression.Formula

namespace DevicetreePrep

namespace Bits

/-- The bits of one number without those of another, as the library has them. -/
theorem without_eq_ldiff (m n : Nat) : without m n = Nat.ldiff m n := by
  refine Nat.eq_of_testBit_eq fun k => ?_
  rw [without, Nat.testBit_xor, Nat.testBit_and, Nat.testBit_ldiff]
  cases m.testBit k <;> cases n.testBit k <;> rfl

/-- The bits set in both integers, as the library has them. -/
theorem both_eq_land : ∀ a b : Int, both a b = a.land b
  | .ofNat _, .ofNat _ => rfl
  | .ofNat m, .negSucc n => congrArg Int.ofNat (without_eq_ldiff m n)
  | .negSucc m, .ofNat n => congrArg Int.ofNat (without_eq_ldiff n m)
  | .negSucc _, .negSucc _ => rfl

/-- The bits set in either integer, as the library has them. -/
theorem either_eq_lor : ∀ a b : Int, either a b = a.lor b
  | .ofNat _, .ofNat _ => rfl
  | .ofNat m, .negSucc n => congrArg Int.negSucc (without_eq_ldiff n m)
  | .negSucc m, .ofNat n => congrArg Int.negSucc (without_eq_ldiff m n)
  | .negSucc _, .negSucc _ => rfl

theorem oneOf_eq_xor (a b : Int) : oneOf a b = a.xor b := by
  cases a <;> cases b <;> rfl

end Bits

namespace Formula

/-- The expression that the formula is. -/
def toExpr : Formula → Expr
  | constant i => .literal (.int i)
  | unary op offset f => .unary op offset f.toExpr
  | binary op offset l r => .binary op offset l.toExpr r.toExpr
  | conditional c t e => .conditional c.toExpr t.toExpr e.toExpr

/-- The value of a formula as the value of an expression. -/
def Outcome.toValue : Outcome → Value
  | truth b => .bool b
  | number i => .int i

/-- The fault of a formula as the cause of an error. -/
def Fault.cause : Fault → ExpressionCause
  | divisionByZero => .divisionByZero
  | negativeShift => .negativeShift
  | shiftTooLarge => .shiftTooLarge

theorem Fault.message_cause (e : Fault) : e.cause.message = e.message := by
  cases e <;> rfl

/-- What comes of a formula as what comes of an expression. -/
def result : Except (Fault × Nat) Outcome → Except EvaluationFailure Value
  | .ok v => .ok v.toValue
  | .error (e, offset) => .error (.error ⟨e.cause, some offset⟩)

namespace Outcome

/-- The outcome of a formula in arithmetic is its integer. -/
theorem number_toValue (v : Outcome) : v.toValue.number = .int v.toInt := by
  cases v with
  | truth b => cases b <;> rfl
  | number i => rfl

/-- The truth of the outcome of a formula. -/
theorem truth_toValue (v : Outcome) : v.toValue.truth = v.holds := by
  cases v with
  | truth b => cases b <;> rfl
  | number i => rfl

end Outcome

/-- An operator with one operand. -/
theorem apply_eq_signed (op : UnaryOp) (offset : Nat) (v : Outcome) :
    op.apply offset v.toValue = .ok (signed op v).toValue := by
  cases op with
  | not =>
    show Except.ok (Value.bool !v.toValue.truth) = .ok (.bool (decide (v.toInt = 0)))
    rw [Outcome.truth_toValue, Outcome.holds]
    simp
  | complement =>
    have hnot (a : Int) : -a - 1 = ~~~a := by
      cases a with
      | ofNat n => show -(n : Int) - 1 = Int.negSucc n; omega
      | negSucc n => show -Int.negSucc n - 1 = (n : Int); omega
    simp only [UnaryOp.apply, Outcome.number_toValue]
    exact congrArg (fun i => Except.ok (Value.int i)) (hnot v.toInt)
  | minus =>
    simp only [UnaryOp.apply, Outcome.number_toValue]
    rfl
  | plus =>
    simp only [UnaryOp.apply, Outcome.number_toValue]
    rfl

/-- What comes of an operator; where the value is discarded, zero in place of a
fault. -/
def resultIn (discarded : Bool) (offset : Nat) : Except Fault Outcome → Except EvaluationFailure Value
  | .ok v => .ok v.toValue
  | .error e => BinaryOp.failUnless discarded offset e.cause

theorem resultIn_false (offset : Nat) (r : Except Fault Outcome) :
    resultIn false offset r = result (r.mapError (·, offset)) := by
  cases r <;> rfl

/-- Where the value is discarded, every operator has a result. -/
theorem exists_resultIn_true (offset : Nat) (r : Except Fault Outcome) :
    ∃ v : Outcome, resultIn true offset r = .ok v.toValue := by
  cases r with
  | ok v => exact ⟨v, rfl⟩
  | error e => exact ⟨.number 0, rfl⟩

variable (discarded : Bool) (offset : Nat)

/-- A shift of an integer. -/
theorem shift_eq_shifted (f : Int → Nat → Int) (i count : Int) :
    BinaryOp.shift discarded offset f i count = resultIn discarded offset (shifted (f i) count) := by
  unfold BinaryOp.shift shifted
  split
  · rfl
  · by_cases hcount : count ≤ 63
    · rw [if_pos hcount, if_neg (by rw [BinaryOp.shiftWidth]; omega)]
      rfl
    · rw [if_neg hcount, if_pos (by rw [BinaryOp.shiftWidth]; omega)]
      rfl

/-- **An operator with two operands, both of which count**, gives what its formula
says. -/
theorem apply_eq_operated (op : BinaryOp) (a b : Outcome) :
    op.apply discarded offset a.toValue b.toValue =
      resultIn discarded offset (operated op a.toInt b.toInt) := by
  have hpow (n : Nat) : ((Double.pow2 n : Nat) : Int) = 2 ^ n := by
    rw [Double.pow2]
    exact Int.natCast_pow 2 n
  unfold BinaryOp.apply
  simp only [Outcome.number_toValue, Outcome.truth_toValue, Number.compare?, Outcome.holds]
  generalize a.toInt = i
  generalize b.toInt = j
  have hlt : compare i j = .lt ↔ i < j := Std.compare_eq_lt
  have hgt : compare i j = .gt ↔ j < i := Std.compare_eq_gt
  have heq : compare i j = .eq ↔ i = j := Std.compare_eq_iff_eq
  cases op with
  | or => simp [operated, resultIn, Outcome.toValue]
  | and => simp [operated, resultIn, Outcome.toValue]
  | bitOr => rw [operated, ← Bits.either_eq_lor]; rfl
  | bitXor => rw [operated, ← Bits.oneOf_eq_xor]; rfl
  | bitAnd => rw [operated, ← Bits.both_eq_land]; rfl
  | eq => simp [operated, resultIn, Outcome.toValue, heq]
  | ne => simp [operated, resultIn, Outcome.toValue, heq]
  | lt => simp [operated, resultIn, Outcome.toValue, hlt]
  | le =>
    have hle : i < j ∨ i = j ↔ i ≤ j := by omega
    simp [operated, resultIn, Outcome.toValue, hlt, heq, ← Bool.decide_or, hle]
  | gt => simp [operated, resultIn, Outcome.toValue, hgt]
  | ge =>
    have hge : j < i ∨ i = j ↔ j ≤ i := by omega
    simp [operated, resultIn, Outcome.toValue, hgt, heq, ← Bool.decide_or, hge]
  | shiftLeft =>
    show BinaryOp.shift discarded offset (fun i n => i * Double.pow2 n) i j = _
    simp only [hpow]
    exact shift_eq_shifted discarded offset (fun i n => i * 2 ^ n) i j
  | shiftRight =>
    have hshift (n : Nat) : i >>> n = i / Double.pow2 n := Int.shiftRight_eq_div_pow i n
    simp only [operated, hshift]
    exact shift_eq_shifted discarded offset (fun i n => i / Double.pow2 n) i j
  | add => rfl
  | sub => rfl
  | mul => rfl
  | div =>
    by_cases hj : j = 0
    · simp [operated, resultIn, Fault.cause, Number.isZero, hj]
    · simp [operated, resultIn, Outcome.toValue, Number.isZero, hj, BinaryOp.arithmetic]
  | rem =>
    by_cases hj : j = 0
    · simp [operated, resultIn, Fault.cause, hj, BinaryOp.onInts]
    · simp [operated, resultIn, Outcome.toValue, hj, BinaryOp.onInts, Int.tmod_def]

/-- Whether the right operand of an operator does not count. -/
def needless (op : BinaryOp) (a : Outcome) : Bool :=
  (settled? op a).isSome

/-- The steps of the evaluation of an operator with two operands. -/
theorem eval_binary {d : Bool} {op : BinaryOp} {l r : Expr} {a : Outcome}
    (ha : l.eval d = .ok a.toValue) :
    (Expr.binary op offset l r).eval d =
      (r.eval (d || needless op a) >>= fun b => op.apply d offset a.toValue b) := by
  rw [Expr.eval, ha]
  simp only [bind, Except.bind, Outcome.truth_toValue]
  cases op with
  | or =>
    simp only [needless, settled?]
    cases a.holds <;> rfl
  | and =>
    simp only [needless, settled?]
    cases a.holds <;> rfl
  | _ => rfl

/-- Where the left operand settles the result, the right one does not change it. -/
theorem apply_of_settled {op : BinaryOp} {a v : Outcome} (h : settled? op a = some v) (b : Outcome) :
    op.apply false offset a.toValue b.toValue = .ok v.toValue := by
  cases op with
  | or =>
    cases ha : a.holds with
    | true =>
      rw [settled?, ha, if_pos rfl] at h
      rw [BinaryOp.apply, Outcome.truth_toValue, ha, ← Option.some.inj h]
      rfl
    | false =>
      rw [settled?, ha] at h
      cases h
  | and =>
    cases ha : a.holds with
    | true =>
      rw [settled?, ha] at h
      cases h
    | false =>
      rw [settled?, ha, if_neg Bool.false_ne_true] at h
      rw [BinaryOp.apply, Outcome.truth_toValue, ha, ← Option.some.inj h]
      rfl
  | _ => cases h

/-- **Nothing goes wrong where the value is discarded.** -/
theorem eval_toExpr_discarded (f : Formula) :
    ∃ v : Outcome, f.toExpr.eval true = .ok v.toValue := by
  induction f with
  | constant i => exact ⟨.number i, rfl⟩
  | unary op offset f ih =>
    obtain ⟨v, hv⟩ := ih
    refine ⟨signed op v, ?_⟩
    rw [toExpr, Expr.eval, hv]
    exact apply_eq_signed op offset v
  | binary op offset l r ihl ihr =>
    obtain ⟨a, ha⟩ := ihl
    obtain ⟨b, hb⟩ := ihr
    rw [toExpr, eval_binary offset ha, Bool.true_or, hb]
    show ∃ v : Outcome, op.apply true offset a.toValue b.toValue = _
    rw [apply_eq_operated]
    exact exists_resultIn_true ..
  | conditional c t e ihc iht ihe =>
    obtain ⟨u, hu⟩ := ihc
    obtain ⟨v, hv⟩ := iht
    obtain ⟨w, hw⟩ := ihe
    refine ⟨if u.holds then v else w, ?_⟩
    rw [toExpr, Expr.eval, hu]
    simp only [bind, Except.bind, Bool.true_or, hv, hw, Outcome.truth_toValue]
    cases u.holds <;> rfl

/-- **The evaluator gives the value of a formula**, or its fault. -/
theorem eval_toExpr (f : Formula) : f.toExpr.eval false = result f.value := by
  induction f with
  | constant i => rfl
  | unary op offset f ih =>
    rw [toExpr, Expr.eval, ih, value]
    cases f.value with
    | error e => rfl
    | ok v => exact apply_eq_signed op offset v
  | binary op offset l r ihl ihr =>
    rw [toExpr, value]
    cases hl : l.value with
    | error e =>
      rw [Expr.eval, ihl, hl]
      rfl
    | ok a =>
      rw [hl] at ihl
      rw [eval_binary offset ihl, Bool.false_or, needless]
      simp only [bind, Except.bind]
      -- the right operand is evaluated in any case, but one that does not count has no fault
      cases hs : settled? op a with
      | some v =>
        obtain ⟨b, hb⟩ := eval_toExpr_discarded r
        rw [Option.isSome_some, hb]
        exact apply_of_settled offset hs b
      | none =>
        rw [Option.isSome_none, ihr]
        cases r.value with
        | error e => rfl
        | ok b =>
          show op.apply false offset a.toValue b.toValue = _
          rw [apply_eq_operated, resultIn_false]
  | conditional c t e ihc iht ihe =>
    rw [toExpr, Expr.eval, ihc, value]
    cases c.value with
    | error e => rfl
    | ok u =>
      obtain ⟨v, hv⟩ := eval_toExpr_discarded t
      obtain ⟨w, hw⟩ := eval_toExpr_discarded e
      simp only [result, bind, Except.bind, Outcome.truth_toValue]
      cases u.holds with
      | true =>
        simp only [Bool.not_true, Bool.or_self, Bool.or_true, iht, hw]
        cases t.value <;> rfl
      | false =>
        simp only [Bool.not_false, Bool.or_self, Bool.or_true, ihe, hv]
        cases e.value <;> rfl

end Formula

/-! Expressions with a fault in them. -/

/-- Evaluation comes to an error of the expression. -/
def IsError (x : Except EvaluationFailure Value) : Prop :=
  ∃ e, x = .error (.error e)

/-- Behind an error there is an error. -/
theorem IsError.bind {x : Except EvaluationFailure Value} (h : IsError x)
    (next : Value → Except EvaluationFailure Value) : IsError (x >>= next) := by
  obtain ⟨e, rfl⟩ := h
  exact ⟨e, rfl⟩

/-- An error behind a formula comes out, unless the formula has one itself. -/
theorem Formula.isError_bind (f : Formula) (d : Bool)
    {next : Value → Except EvaluationFailure Value} (h : ∀ v, IsError (next v)) :
    IsError (f.toExpr.eval d >>= next) := by
  cases d with
  | true =>
    obtain ⟨v, hv⟩ := eval_toExpr_discarded f
    rw [hv]
    exact h v.toValue
  | false =>
    rw [eval_toExpr]
    cases f.value with
    | ok v => exact h v.toValue
    | error e => exact ⟨_, rfl⟩

namespace Expr

/-- The expression has an error, whether its value is needed or not. -/
def Fails (e : Expr) : Prop :=
  ∀ d, IsError (e.eval d)

theorem fails_fault (cause : ExpressionCause) (offset : Option Nat) :
    Fails (.fault (failure cause offset)) :=
  fun _ => ⟨_, rfl⟩

/-- A formula behind which it cannot be read on fails. -/
theorem fails_broken (f : Formula) (cause : ExpressionCause) (offset : Option Nat) :
    Fails (.broken f.toExpr (failure cause offset)) := by
  intro d
  rw [eval]
  exact f.isError_bind d fun _ => ⟨_, rfl⟩

namespace Fails

variable {e : Expr} (h : Fails e)
include h

/-- What is broken behind a failing expression fails. -/
theorem broken (failure : EvaluationFailure) : Fails (.broken e failure) := by
  intro d
  rw [eval]
  exact (h d).bind _

/-- An operator fails on a failing operand. -/
theorem unary (op : UnaryOp) (offset : Nat) : Fails (.unary op offset e) := by
  intro d
  rw [eval]
  exact (h d).bind _

/-- An operator fails on a failing left operand. -/
theorem left (op : BinaryOp) (offset : Nat) (r : Expr) : Fails (.binary op offset e r) := by
  intro d
  rw [eval]
  exact (h d).bind _

/-- An operator fails on a failing right operand, behind a formula. -/
theorem right (op : BinaryOp) (offset : Nat) (f : Formula) :
    Fails (.binary op offset f.toExpr e) := by
  intro d
  rw [eval]
  exact f.isError_bind d fun _ => (h _).bind _

/-- A conditional fails with its condition. -/
theorem condition (t r : Expr) : Fails (.conditional e t r) := by
  intro d
  rw [eval]
  exact (h d).bind _

/-- A conditional fails with its first choice, behind a formula. -/
theorem choice (f : Formula) (r : Expr) : Fails (.conditional f.toExpr e r) := by
  intro d
  rw [eval]
  exact f.isError_bind d fun _ => (h _).bind _

/-- A conditional fails with its other choice, behind two formulas. -/
theorem other (f g : Formula) : Fails (.conditional f.toExpr g.toExpr e) := by
  intro d
  rw [eval]
  exact f.isError_bind d fun _ => g.isError_bind _ fun _ => (h _).bind _

end Fails
end Expr
end DevicetreePrep
