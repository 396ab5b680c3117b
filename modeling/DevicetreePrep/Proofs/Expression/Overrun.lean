/-
# Numbers that end evaluation

Where an expression cannot be read or has no value there is an error, and that is reported.
Two kinds of numbers are beyond this.  A decimal constant may have too many digits
(`Token.IsDecimal`), and an integer beyond the doubles may meet a double in arithmetic
(`Expr.MeetsDouble`).  `Expr.eval_read_eq_overrun_iff` says that evaluation is ended by a
number exactly if it comes to one of these two.

On the tokens alone: without a decimal constant that is too long, and without a floating
constant, no number ends evaluation (`Expr.exists_number_of_overrun`).
-/

import DevicetreePrep.Proofs.Expression.DoubleRange
import DevicetreePrep.Proofs.Expression.Failure

namespace DevicetreePrep

/-! ### Operators -/

/-- One of the two numbers is a double, and the other one an integer beyond the doubles. -/
def Number.Clashes : Number → Number → Prop
  | .int i, .float _ => Double.intLimit ≤ i.natAbs
  | .float _, .int j => Double.intLimit ≤ j.natAbs
  | _, _ => False

/-- Such a pair has a double in it. -/
theorem Number.Clashes.exists_float {a b : Number} (h : a.Clashes b) :
    (∃ x, a = .float x) ∨ ∃ x, b = .float x := by
  match a, b, h with
  | .int _, .float y, _ => exact .inr ⟨y, rfl⟩
  | .float x, .int _, _ => exact .inl ⟨x, rfl⟩

/-- The operator takes doubles: it is one of the four of arithmetic, and does not divide
by zero. -/
def BinaryOp.TakesDoubles (op : BinaryOp) (r : Number) : Prop :=
  op = .add ∨ op = .sub ∨ op = .mul ∨ op = .div ∧ r.isZero = false

/-- An operator with one operand handles every number. -/
theorem UnaryOp.apply_ne_overrun (op : UnaryOp) (offset : Nat) (v : Value) (o : NumberOverrun) :
    op.apply offset v ≠ .error (.overrun o) := by
  cases op <;> cases hv : v.number <;> simp [apply, hv]

/-- A double is the result of an operator only if it is one of a double. -/
theorem UnaryOp.float_of_apply {op : UnaryOp} {offset : Nat} {a v : Value} {x : Float}
    (h : op.apply offset a = .ok v) (hx : v.number = .float x) : ∃ y, a.number = .float y := by
  cases ha : a.number with
  | float y => exact ⟨y, rfl⟩
  | int i =>
    cases op <;> simp only [apply, ha] at h <;> obtain rfl := Except.ok.inj h <;> cases hx

namespace BinaryOp

variable {o : NumberOverrun} {offset : Nat} {d : Bool} {a b : Number}

/-- An error at an operator is one of the expression. -/
theorem failUnless_ne_overrun (cause : ExpressionCause) :
    failUnless d offset cause ≠ .error (.overrun o) := by
  cases d <;> simp [failUnless, fail]

/-- An operation that only integers have does not turn them into doubles. -/
theorem onInts_ne_overrun (op : BinaryOp) {f : Int → Int → Except EvaluationFailure Value}
    (hf : ∀ i j, f i j ≠ .error (.overrun o)) : onInts op offset f a b ≠ .error (.overrun o) := by
  unfold onInts
  split
  · exact hf _ _
  · simp [fail]

/-- A shift has a result, or an error of the expression. -/
theorem shift_ne_overrun (f : Int → Nat → Int) (i amount : Int) :
    shift d offset f i amount ≠ .error (.overrun o) := by
  unfold shift
  split
  · exact failUnless_ne_overrun _
  · split
    · exact failUnless_ne_overrun _
    · simp

/-- An operation that integers and doubles have turns an integer into a double where it
meets one. -/
theorem arithmetic_eq_overrun_iff {onInts : Int → Int → Int} {f : Float → Float → Float} :
    arithmetic onInts f a b = .error (.overrun o) ↔ o = .float ∧ a.Clashes b := by
  have hnone (i : Int) : Double.ofInt? i = none ↔ Double.intLimit ≤ i.natAbs :=
    Double.ofInt?_eq_none_iff i
  cases a with
  | int i =>
    cases b with
    | int j => simp [arithmetic, Number.Clashes]
    | float y =>
      rw [Number.Clashes, ← hnone]
      cases h : Double.ofInt? i <;> simp [arithmetic, onFloats, Number.toFloat?, h, eq_comm]
  | float x =>
    cases b with
    | int j =>
      rw [Number.Clashes, ← hnone]
      cases h : Double.ofInt? j <;> simp [arithmetic, onFloats, Number.toFloat?, h, eq_comm]
    | float y => simp [arithmetic, onFloats, Number.toFloat?, Number.Clashes]

/-- **An operator overruns where it takes doubles and one operand is an integer beyond
them.** -/
theorem apply_eq_overrun_iff {op : BinaryOp} {l r : Value} :
    op.apply d offset l r = .error (.overrun o) ↔
      o = .float ∧ op.TakesDoubles r.number ∧ l.number.Clashes r.number := by
  unfold TakesDoubles
  cases op with
  | add | sub | mul => simp [apply, arithmetic_eq_overrun_iff]
  | div =>
    rw [apply]
    cases hzero : r.number.isZero with
    | true => simp [failUnless_ne_overrun]
    | false => simp [arithmetic_eq_overrun_iff]
  | bitOr | bitXor | bitAnd => simp [apply, onInts_ne_overrun]
  | shiftLeft | shiftRight => simp [apply, onInts_ne_overrun, shift_ne_overrun]
  | rem =>
    have hrem (i j : Int) :
        (if j = 0 then failUnless d offset .divisionByZero else .ok (.int (i.tmod j))) ≠
          .error (.overrun o) := by
      split
      · exact failUnless_ne_overrun _
      · simp
    simp [apply, onInts_ne_overrun _ hrem]
  | _ => simp [apply]

/-- Where an error is replaced, it is by zero. -/
theorem failUnless_eq_ok {cause : ExpressionCause} {v : Value}
    (h : failUnless d offset cause = .ok v) : v = .int 0 := by
  cases d with
  | true => exact (Except.ok.inj h).symm
  | false => cases h

/-- A shifted integer is an integer. -/
theorem int_of_shift {f : Int → Nat → Int} {i amount : Int} {v : Value}
    (h : shift d offset f i amount = .ok v) : ∃ k, v = .int k := by
  unfold shift at h
  split at h
  · exact ⟨0, failUnless_eq_ok h⟩
  · split at h
    · exact ⟨0, failUnless_eq_ok h⟩
    · exact ⟨_, (Except.ok.inj h).symm⟩

/-- Of two integers no operator makes a double. -/
theorem int_of_apply {op : BinaryOp} {l r v : Value} {i j : Int}
    (h : op.apply d offset l r = .ok v) (hl : l.number = .int i) (hr : r.number = .int j) :
    ∃ k, v.number = .int k := by
  have hint (h : ∃ k, v = .int k) : ∃ k, v.number = .int k := by
    obtain ⟨k, rfl⟩ := h
    exact ⟨k, rfl⟩
  cases op with
  | add | sub | mul | bitOr | bitXor | bitAnd =>
    simp only [apply, arithmetic, onInts, hl, hr] at h
    exact hint ⟨_, (Except.ok.inj h).symm⟩
  | shiftLeft | shiftRight =>
    simp only [apply, onInts, hl, hr] at h
    exact hint (int_of_shift h)
  | div | rem =>
    simp only [apply, arithmetic, onInts, hl, hr] at h
    split at h
    · exact hint ⟨0, failUnless_eq_ok h⟩
    · exact hint ⟨_, (Except.ok.inj h).symm⟩
  | _ =>
    obtain rfl := Except.ok.inj h
    exact ⟨_, rfl⟩

/-- A double is the result of an operator only if it is one of a double. -/
theorem float_of_apply {op : BinaryOp} {l r v : Value} {x : Float}
    (h : op.apply d offset l r = .ok v) (hx : v.number = .float x) :
    (∃ y, l.number = .float y) ∨ ∃ y, r.number = .float y := by
  cases hl : l.number with
  | float y => exact .inl ⟨y, rfl⟩
  | int i =>
    cases hr : r.number with
    | float y => exact .inr ⟨y, rfl⟩
    | int j =>
      obtain ⟨k, hk⟩ := int_of_apply h hl hr
      cases hk.symm.trans hx

end BinaryOp

/-! ### Tokens -/

/-- The token is a decimal constant of `n` digits: the first of them is a zero only if it is
the only one, and a suffix may follow. -/
def Token.IsDecimal (t : Token) (n : Nat) : Prop :=
  t.kind = .number ∧ 0 < n ∧ ∃ digits suffix, t.text = digits ++ String.toList suffix ∧
    suffix ∈ Literal.integerSuffixes ∧ digits.length = n ∧ (∀ c ∈ digits, c.isDigit = true) ∧
    (digits.head? = some '0' → n = 1)

namespace Literal

/-- No suffix starts with a digit, or with the mark of a base. -/
theorem head_integerSuffixes {suffix : String} (h : suffix ∈ integerSuffixes) :
    ∀ c ∈ suffix.toList.head?, c.isDigit = false ∧ c ∉ ['x', 'X', 'b', 'B'] := by
  have hall : ∀ s ∈ integerSuffixes,
      s.toList.head?.all (fun c => !c.isDigit && !"xXbB".toList.contains c) = true := by
    decide
  intro c hc
  simpa using (Option.all_eq_true _ _).1 (hall suffix h) c hc

/-- Decimal digits, and a suffix behind them. -/
theorem digitsOf?_eq_some_iff {text digits : Text} :
    digitsOf? Char.isDigit text = some digits ↔
      digits ≠ [] ∧ (∀ c ∈ digits, c.isDigit = true) ∧
        ∃ suffix ∈ integerSuffixes, text = digits ++ suffix.toList := by
  unfold digitsOf?
  dsimp only
  constructor
  · intro h
    split at h
    · cases h
    · rename_i hkept
      obtain rfl := Option.some.inj h
      simp only [Bool.or_eq_true, List.isEmpty_iff, Bool.not_eq_true', not_or,
        Bool.not_eq_false] at hkept
      refine ⟨hkept.1, List.all_eq_true.1 List.all_takeWhile, _,
        List.contains_iff_mem.1 hkept.2, ?_⟩
      rw [String.toList_ofList, List.takeWhile_append_dropWhile]
  · rintro ⟨hne, hdigits, suffix, hsuffix, rfl⟩
    have hhead := head_integerSuffixes hsuffix
    have hstop : suffix.toList.takeWhile Char.isDigit = [] ∧
        suffix.toList.dropWhile Char.isDigit = suffix.toList := by
      cases hlist : suffix.toList with
      | nil => exact ⟨rfl, rfl⟩
      | cons c cs =>
        rw [hlist] at hhead
        have hc : ¬c.isDigit = true := by simp [(hhead c rfl).1]
        exact ⟨List.takeWhile_cons_of_neg hc, List.dropWhile_cons_of_neg hc⟩
    rw [List.takeWhile_append_of_pos hdigits, List.dropWhile_append_of_pos hdigits, hstop.1,
      hstop.2, List.append_nil, String.ofList_toList, if_neg]
    simp [hne, hsuffix]

/-- **A decimal constant** has digits that start with a zero only if there is no other. -/
theorem integer?_eq_decimal_iff {text digits : Text} :
    integer? text = some (10, digits) ↔ digitsOf? Char.isDigit text = some digits ∧
      (digits.head? = some '0' → digits.length = 1) := by
  have hmark {c : Char} {rest : Text} (hc : c ∈ ['x', 'X', 'b', 'B']) :
      ¬(digitsOf? Char.isDigit ('0' :: c :: rest) = some digits ∧
        (digits.head? = some '0' → digits.length = 1)) := by
    rintro ⟨hdigits, hzero⟩
    obtain ⟨hne, hall, suffix, hsuffix, htext⟩ := digitsOf?_eq_some_iff.1 hdigits
    obtain ⟨d, ds, rfl⟩ := List.exists_cons_of_ne_nil hne
    obtain ⟨rfl, hrest⟩ := List.cons.inj htext
    obtain rfl : ds = [] := List.eq_nil_of_length_eq_zero (Nat.succ.inj (hzero rfl))
    have hlist : suffix.toList = c :: rest := hrest.symm
    exact (head_integerSuffixes hsuffix c (by rw [hlist]; rfl)).2 hc
  unfold integer?
  split
  · exact iff_of_false (by simp) (hmark (by decide))
  · exact iff_of_false (by simp) (hmark (by decide))
  · exact iff_of_false (by simp) (hmark (by decide))
  · exact iff_of_false (by simp) (hmark (by decide))
  · rw [Option.map_eq_some_iff]
    constructor
    · rintro ⟨digits', hdigits, h⟩
      obtain ⟨hbase, rfl⟩ := Prod.mk.inj h
      refine ⟨hdigits, fun hzero => ?_⟩
      have hne := (digitsOf?_eq_some_iff.1 hdigits).1
      have hpos := List.length_pos_iff.2 hne
      split at hbase
      · cases hbase
      · rename_i hone
        simp only [hzero, Bool.and_eq_true, decide_eq_true_eq, decide_true, and_true] at hone
        omega
    · rintro ⟨hdigits, hzero⟩
      refine ⟨digits, hdigits, ?_⟩
      rw [if_neg]
      simp only [Bool.and_eq_true, decide_eq_true_eq, not_and]
      intro hlong hhead
      have := hzero hhead
      omega

end Literal

/-- What reads as a decimal constant is one. -/
theorem Token.isDecimal_iff {t : Token} {n : Nat} :
    t.IsDecimal n ↔ t.kind = .number ∧
      ∃ digits, Literal.integer? t.text = some (10, digits) ∧ digits.length = n := by
  constructor
  · rintro ⟨hkind, hpos, digits, suffix, htext, hsuffix, rfl, hdigits, hzero⟩
    exact ⟨hkind, digits, Literal.integer?_eq_decimal_iff.2 ⟨Literal.digitsOf?_eq_some_iff.2
      ⟨List.length_pos_iff.1 hpos, hdigits, suffix, hsuffix, htext⟩, hzero⟩, rfl⟩
  · rintro ⟨hkind, digits, h, rfl⟩
    obtain ⟨h, hzero⟩ := Literal.integer?_eq_decimal_iff.1 h
    obtain ⟨hne, hdigits, suffix, hsuffix, htext⟩ := Literal.digitsOf?_eq_some_iff.1 h
    exact ⟨hkind, List.length_pos_iff.2 hne, digits, suffix, htext, hsuffix, rfl, hdigits, hzero⟩

namespace Expr

/-- The number that a token is cannot be handled exactly if it is a decimal constant with too
many digits. -/
theorem operandOf_eq_overrun_iff {t : Token} {o : NumberOverrun} :
    operandOf t = .fault (.overrun o) ↔ ∃ n, t.IsDecimal n ∧ digitLimit < n ∧ o = .digits n := by
  simp only [Token.isDecimal_iff]
  unfold operandOf
  cases hkind : t.kind with
  | number =>
    dsimp only
    unfold Literal.number
    split
    · rename_i digits hinteger
      split <;> simp [operandOf.either, hinteger]
    · rename_i digits hinteger
      split <;> rename_i hlong <;> simp [operandOf.either, hinteger, hlong, eq_comm]
    · rename_i base digits height hten hinteger
      have hbase : base ≠ 10 := hten
      simp [operandOf.either, hinteger, hbase]
    · rename_i hinteger
      split <;> simp [operandOf.either, hinteger]
  | charConst =>
    dsimp only
    unfold Literal.character
    split <;> simp [operandOf.either]
  | _ => simp [failure]

variable {ts : List Token}

/-- The expression is an operation that takes doubles, on a double and an integer beyond
them. -/
def MeetsDouble (d : Bool) (p : Expr) : Prop :=
  ∃ op offset l r a b, p = .binary op offset l r ∧ l.eval d = .ok a ∧ r.eval d = .ok b ∧
    op.TakesDoubles b.number ∧ a.number.Clashes b.number

/-- Both operands of an operator that takes doubles count. -/
theorem isNeedless_of_takesDoubles {op : BinaryOp} {r : Number} (h : op.TakesDoubles r)
    (a : Value) : op.isNeedless a = false := by
  rcases h with rfl | rfl | rfl | ⟨rfl, -⟩ <;> rfl

/-- **Evaluation is ended by a number** where it comes to a decimal constant with too many
digits, or to an operation on a double and an integer beyond the doubles. -/
theorem eval_read_eq_overrun_iff {o : NumberOverrun} :
    (read ts).eval false = .error (.overrun o) ↔
      (∃ t ∈ ts, ∃ n d, t.IsDecimal n ∧ digitLimit < n ∧ o = .digits n ∧
          Comes false (read ts) d (operandOf t)) ∨
        o = .float ∧ ∃ d p, Comes false (read ts) d p ∧ p.MeetsDouble d := by
  constructor
  · intro h
    -- the part where evaluation stops is a token or an operation: a missing token is an error
    obtain ⟨d, p, hp, hfails⟩ := eval_eq_error_iff.1 h
    have hmade := (madeOf_read ts).of_comes hp
    cases hfails with
    | fault =>
      rcases hmade with ⟨t, ht, hfault⟩ | ⟨e, he⟩
      · obtain ⟨n, hdecimal, hlong, rfl⟩ := operandOf_eq_overrun_iff.1 hfault
        exact .inl ⟨t, ht, n, d, hdecimal, hlong, rfl, hfault ▸ hp⟩
      · cases he
    | broken _ =>
      obtain ⟨-, e, he⟩ := hmade
      cases he
    | unary _ hop => exact absurd hop (UnaryOp.apply_ne_overrun _ _ _ _)
    | binary hl hr hop =>
      obtain ⟨rfl, htakes, hclash⟩ := BinaryOp.apply_eq_overrun_iff.1 hop
      rw [isNeedless_of_takesDoubles htakes, Bool.or_false] at hr
      exact .inr ⟨rfl, d, _, hp, _, _, _, _, _, _, rfl, hl, hr, htakes, hclash⟩
  · rintro (⟨t, -, n, d, hdecimal, hlong, rfl, hp⟩ | ⟨rfl, d, p, hp, hmeets⟩)
    · refine hp.eval_eq_error ?_
      rw [operandOf_eq_overrun_iff.2 ⟨n, hdecimal, hlong, rfl⟩]
      rfl
    · obtain ⟨op, offset, l, r, a, b, rfl, hl, hr, htakes, hclash⟩ := hmeets
      have hr : r.eval (d || op.isNeedless a) = .ok b := by
        rwa [isNeedless_of_takesDoubles htakes, Bool.or_false]
      exact hp.eval_eq_error (FailsHere.binary hl hr
        (BinaryOp.apply_eq_overrun_iff.2 ⟨rfl, htakes, hclash⟩)).eval_eq_error

/-- A double is the value of an expression only if a floating constant is in it. -/
theorem exists_float_of_eval {d : Bool} {e : Expr} {v : Value} {x : Float} (h : e.MadeOf ts)
    (hv : e.eval d = .ok v) (hx : v.number = .float x) :
    ∃ t ∈ ts, ∃ y, operandOf t = .literal (.float y) := by
  induction e generalizing d v x with
  | literal u =>
    obtain rfl : u = v := Except.ok.inj hv
    obtain ⟨t, ht, hu⟩ := h
    cases u with
    | float y => exact ⟨t, ht, y, hu⟩
    | _ => cases hx
  | fault => cases hv
  | broken e f ih =>
    rw [eval] at hv
    obtain ⟨a, -, ha⟩ := bind_eq_ok_iff.1 hv
    cases ha
  | unary op offset e ih =>
    rw [eval] at hv
    obtain ⟨a, ha, hop⟩ := bind_eq_ok_iff.1 hv
    obtain ⟨y, hy⟩ := UnaryOp.float_of_apply hop hx
    exact ih h ha hy
  | binary op offset l r ihl ihr =>
    rw [eval_binary] at hv
    obtain ⟨a, ha, hv⟩ := bind_eq_ok_iff.1 hv
    obtain ⟨b, hb, hop⟩ := bind_eq_ok_iff.1 hv
    rcases BinaryOp.float_of_apply hop hx with ⟨y, hy⟩ | ⟨y, hy⟩
    · exact ihl h.1 ha hy
    · exact ihr h.2 hb hy
  | conditional c t e ihc iht ihe =>
    rw [eval] at hv
    obtain ⟨u, -, hv⟩ := bind_eq_ok_iff.1 hv
    obtain ⟨a, ha, hv⟩ := bind_eq_ok_iff.1 hv
    obtain ⟨b, hb, hv⟩ := bind_eq_ok_iff.1 hv
    obtain rfl := Except.ok.inj hv
    split at hx
    · exact iht h.2.1 ha hx
    · exact ihe h.2.2 hb hx

/-- **Without a decimal constant that is too long, and without a floating constant**, no
number ends evaluation. -/
theorem exists_number_of_overrun {o : NumberOverrun}
    (h : (read ts).eval false = .error (.overrun o)) :
    ∃ t ∈ ts, (∃ n, t.IsDecimal n ∧ digitLimit < n) ∨ ∃ x, operandOf t = .literal (.float x) := by
  rcases eval_read_eq_overrun_iff.1 h with ⟨t, ht, n, -, hdecimal, hlong, -⟩ | ⟨-, d, p, hp, hmeets⟩
  · exact ⟨t, ht, .inl ⟨n, hdecimal, hlong⟩⟩
  · obtain ⟨op, offset, l, r, a, b, rfl, hl, hr, -, hclash⟩ := hmeets
    obtain ⟨hmadel, hmader⟩ := (madeOf_read ts).of_comes hp
    rcases hclash.exists_float with ⟨x, hx⟩ | ⟨x, hx⟩
    · obtain ⟨t, ht, hfloat⟩ := exists_float_of_eval hmadel hl hx
      exact ⟨t, ht, .inr hfloat⟩
    · obtain ⟨t, ht, hfloat⟩ := exists_float_of_eval hmader hr hx
      exact ⟨t, ht, .inr hfloat⟩

end Expr
end DevicetreePrep
