/-
# Where an expression fails

A failure of an expression has one place.  Evaluation goes from left to right, comes to a
part of the tree (`Expr.Comes`) and stops there, because the part is a fault or its operator
fails on the values of its operands (`Expr.FailsHere`).  That is all that can happen:
`Expr.eval_eq_error_iff`.

A tree that was read is made of the tokens (`Expr.madeOf_read`): each constant in it is one
of them, and of its faults only the tokens themselves can be other than errors of the
expression.
-/

import DevicetreePrep.Proofs.Expression.Rules

namespace DevicetreePrep

/-! ### Where evaluation stops -/

/-- Whether the right operand does not count behind this value of the left one. -/
def BinaryOp.isNeedless (op : BinaryOp) (a : Value) : Bool :=
  match op with
  | .or => a.truth
  | .and => !a.truth
  | _ => false

/-- Two steps fail where the first one does, or else the second. -/
theorem bind_eq_error_iff {ε α β : Type} {x : Except ε α} {next : α → Except ε β} {f : ε} :
    (x >>= next) = .error f ↔ x = .error f ∨ ∃ a, x = .ok a ∧ next a = .error f := by
  cases x with
  | error g => simp [bind, Except.bind]
  | ok a => simp [bind, Except.bind]

/-- Two steps have a value where both have one. -/
theorem bind_eq_ok_iff {ε α β : Type} {x : Except ε α} {next : α → Except ε β} {v : β} :
    (x >>= next) = .ok v ↔ ∃ a, x = .ok a ∧ next a = .ok v := by
  cases x with
  | error g => simp [bind, Except.bind]
  | ok a => simp [bind, Except.bind]

namespace Expr

/-- The steps of the evaluation of an operation. -/
theorem eval_binary (d : Bool) (op : BinaryOp) (offset : Nat) (l r : Expr) :
    (binary op offset l r).eval d =
      (l.eval d >>= fun a => r.eval (d || op.isNeedless a) >>= fun b => op.apply d offset a b) := by
  rw [eval]
  cases op <;> rfl

/-- **Evaluation comes to a part of an expression**: all that is evaluated before it has a
value.  With each of the two goes whether its value is discarded. -/
inductive Comes : Bool → Expr → Bool → Expr → Prop
  | here {d e} : Comes d e d e
  | broken {d e f d' p} : Comes d e d' p → Comes d (.broken e f) d' p
  | unary {d op offset e d' p} : Comes d e d' p → Comes d (.unary op offset e) d' p
  | left {d op offset l r d' p} : Comes d l d' p → Comes d (.binary op offset l r) d' p
  | right {d op offset l r a d' p} : l.eval d = .ok a → Comes (d || op.isNeedless a) r d' p →
      Comes d (.binary op offset l r) d' p
  | condition {d c t e d' p} : Comes d c d' p → Comes d (.conditional c t e) d' p
  | choice {d c t e a d' p} : c.eval d = .ok a → Comes (d || !a.truth) t d' p →
      Comes d (.conditional c t e) d' p
  | other {d c t e a b d' p} : c.eval d = .ok a → t.eval (d || !a.truth) = .ok b →
      Comes (d || a.truth) e d' p → Comes d (.conditional c t e) d' p

/-- **Evaluation stops at an expression** all parts of which have values. -/
inductive FailsHere (d : Bool) : Expr → EvaluationFailure → Prop
  | fault {f} : FailsHere d (.fault f) f
  | broken {e f v} : e.eval d = .ok v → FailsHere d (.broken e f) f
  | unary {op offset e v f} : e.eval d = .ok v → op.apply offset v = .error f →
      FailsHere d (.unary op offset e) f
  | binary {op offset l r a b f} : l.eval d = .ok a → r.eval (d || op.isNeedless a) = .ok b →
      op.apply d offset a b = .error f → FailsHere d (.binary op offset l r) f

variable {d d' : Bool} {e p : Expr} {f : EvaluationFailure}

/-- Where evaluation comes to a part, the failure of the part is that of the whole. -/
theorem Comes.eval_eq_error (h : Comes d e d' p) (hp : p.eval d' = .error f) :
    e.eval d = .error f := by
  induction h with
  | here => exact hp
  | broken _ ih | unary _ ih =>
    rw [eval]
    exact bind_eq_error_iff.2 (.inl (ih hp))
  | left _ ih =>
    rw [eval_binary]
    exact bind_eq_error_iff.2 (.inl (ih hp))
  | right hl _ ih =>
    rw [eval_binary]
    exact bind_eq_error_iff.2 (.inr ⟨_, hl, bind_eq_error_iff.2 (.inl (ih hp))⟩)
  | condition _ ih =>
    rw [eval]
    exact bind_eq_error_iff.2 (.inl (ih hp))
  | choice hc _ ih =>
    rw [eval]
    exact bind_eq_error_iff.2 (.inr ⟨_, hc, bind_eq_error_iff.2 (.inl (ih hp))⟩)
  | other hc ht _ ih =>
    rw [eval]
    exact bind_eq_error_iff.2 (.inr ⟨_, hc, bind_eq_error_iff.2
      (.inr ⟨_, ht, bind_eq_error_iff.2 (.inl (ih hp))⟩)⟩)

/-- Where evaluation stops, there is the failure. -/
theorem FailsHere.eval_eq_error (h : FailsHere d p f) : p.eval d = .error f := by
  cases h with
  | fault => rfl
  | broken he =>
    rw [eval]
    exact bind_eq_error_iff.2 (.inr ⟨_, he, rfl⟩)
  | unary he hop =>
    rw [eval]
    exact bind_eq_error_iff.2 (.inr ⟨_, he, hop⟩)
  | binary hl hr hop =>
    rw [eval_binary]
    exact bind_eq_error_iff.2 (.inr ⟨_, hl, bind_eq_error_iff.2 (.inr ⟨_, hr, hop⟩)⟩)

/-- **An expression fails where evaluation comes to a part and stops there.** -/
theorem eval_eq_error_iff :
    e.eval d = .error f ↔ ∃ d' p, Comes d e d' p ∧ FailsHere d' p f := by
  constructor
  · intro h
    induction e generalizing d with
    | literal => cases h
    | fault g =>
      obtain rfl : g = f := Except.error.inj h
      exact ⟨d, _, .here, .fault⟩
    | broken e g ih =>
      rw [eval] at h
      rcases bind_eq_error_iff.1 h with h | ⟨v, hv, h⟩
      · obtain ⟨d', p, hp, hfails⟩ := ih h
        exact ⟨d', p, .broken hp, hfails⟩
      · obtain rfl : g = f := Except.error.inj h
        exact ⟨d, _, .here, .broken hv⟩
    | unary op offset e ih =>
      rw [eval] at h
      rcases bind_eq_error_iff.1 h with h | ⟨v, hv, h⟩
      · obtain ⟨d', p, hp, hfails⟩ := ih h
        exact ⟨d', p, .unary hp, hfails⟩
      · exact ⟨d, _, .here, .unary hv h⟩
    | binary op offset l r ihl ihr =>
      rw [eval_binary] at h
      rcases bind_eq_error_iff.1 h with h | ⟨a, ha, h⟩
      · obtain ⟨d', p, hp, hfails⟩ := ihl h
        exact ⟨d', p, .left hp, hfails⟩
      rcases bind_eq_error_iff.1 h with h | ⟨b, hb, h⟩
      · obtain ⟨d', p, hp, hfails⟩ := ihr h
        exact ⟨d', p, .right ha hp, hfails⟩
      · exact ⟨d, _, .here, .binary ha hb h⟩
    | conditional c t e ihc iht ihe =>
      rw [eval] at h
      rcases bind_eq_error_iff.1 h with h | ⟨a, ha, h⟩
      · obtain ⟨d', p, hp, hfails⟩ := ihc h
        exact ⟨d', p, .condition hp, hfails⟩
      rcases bind_eq_error_iff.1 h with h | ⟨b, hb, h⟩
      · obtain ⟨d', p, hp, hfails⟩ := iht h
        exact ⟨d', p, .choice ha hp, hfails⟩
      rcases bind_eq_error_iff.1 h with h | ⟨c, -, h⟩
      · obtain ⟨d', p, hp, hfails⟩ := ihe h
        exact ⟨d', p, .other ha hb hp, hfails⟩
      · cases h
  · rintro ⟨d', p, hp, hfails⟩
    exact hp.eval_eq_error hfails.eval_eq_error

/-! ### What a tree is made of -/

/-- Every constant of the tree is one of the tokens, and so is every number in it that cannot
be handled. -/
def MadeOf (ts : List Token) : Expr → Prop
  | literal v => ∃ t ∈ ts, operandOf t = .literal v
  | fault f => (∃ t ∈ ts, operandOf t = .fault f) ∨ ∃ e, f = .error e
  | broken e f => e.MadeOf ts ∧ ∃ e, f = .error e
  | unary _ _ e => e.MadeOf ts
  | binary _ _ l r => l.MadeOf ts ∧ r.MadeOf ts
  | conditional c t e => c.MadeOf ts ∧ t.MadeOf ts ∧ e.MadeOf ts

/-- What was read is made of the tokens `all`, and what is left is among them. -/
def Within (all : List Token) (r : Expr × List Token) : Prop :=
  r.1.MadeOf all ∧ r.2 ⊆ all

/-- What is missing is an error of the expression. -/
theorem missing_eq_error (s : Text) (ts : List Token) : ∃ e, missing s ts = .error e := by
  cases ts <;> exact ⟨_, rfl⟩

variable {all ts : List Token}

/-- A conditional without a colon is made of what was read of it. -/
theorem madeOf_withoutColon {c t : Expr} (hc : c.MadeOf all) (ht : t.MadeOf all)
    (ts : List Token) : (withoutColon c t ts).MadeOf all :=
  ⟨hc, ⟨ht, missing_eq_error ..⟩, .inr (missing_eq_error ..)⟩

/-- A group is made of the tokens that its expression is made of. -/
theorem within_closeGroup {e : Expr} {rest : List Token} (h : Within all (e, rest)) :
    Within all (closeGroup e rest) := by
  obtain ⟨he, hrest⟩ := h
  cases rest with
  | nil => exact ⟨⟨he, missing_eq_error ..⟩, List.nil_subset _⟩
  | cons t rest =>
    rw [closeGroup]
    split
    · exact ⟨he, (List.cons_subset.1 hrest).2⟩
    · exact ⟨⟨he, missing_eq_error ..⟩, List.nil_subset _⟩

/-- An operand by itself is its token. -/
theorem within_passOperand {t : Token} {rest : List Token} (h : t :: rest ⊆ all) :
    Within all (passOperand rest (operandOf t)) := by
  obtain ⟨ht, hrest⟩ := List.cons_subset.1 h
  cases he : operandOf t with
  | literal v => exact ⟨⟨t, ht, he⟩, hrest⟩
  | fault f => exact ⟨.inl ⟨t, ht, he⟩, List.nil_subset _⟩
  | _ =>
    -- no other tree is an operand by itself
    unfold operandOf operandOf.either at he
    repeat' split at he
    all_goals cases he

/-- **Whatever is read by the rules is made of the tokens**, if the operand that was read
before is. -/
theorem IsRead.within {f : Reader} {r : Expr × List Token} (h : IsRead f ts r) (hts : ts ⊆ all)
    (hleft : ∀ left ∈ f.left?, left.MadeOf all) : Within all r := by
  induction h with
  | alone _ _ ih => exact ih hts nofun
  | choice _ _ _ _ _ ihc iht ihe =>
    obtain ⟨hc, hrest⟩ := ihc hts nofun
    obtain ⟨ht, hbehind⟩ := iht (List.cons_subset.1 hrest).2 nofun
    obtain ⟨he, hlast⟩ := ihe (List.cons_subset.1 hbehind).2 nofun
    exact ⟨⟨hc, ht, he⟩, hlast⟩
  | withoutColon _ _ _ _ ihc iht =>
    obtain ⟨hc, hrest⟩ := ihc hts nofun
    obtain ⟨ht, -⟩ := iht (List.cons_subset.1 hrest).2 nofun
    exact ⟨madeOf_withoutColon hc ht _, List.nil_subset _⟩
  | tighter _ _ _ ihl ihr =>
    obtain ⟨hl, hrest⟩ := ihl hts nofun
    exact ihr hrest fun _ h => Option.some.inj h ▸ hl
  | tightest _ ih => exact ih hts nofun
  | ended => exact ⟨hleft _ rfl, hts⟩
  | operator _ _ _ ihe ihr =>
    obtain ⟨he, hbehind⟩ := ihe (List.cons_subset.1 hts).2 nofun
    exact ihr hbehind fun _ h => Option.some.inj h ▸ ⟨hleft _ rfl, he⟩
  | nothing => exact ⟨.inr ⟨_, rfl⟩, List.nil_subset _⟩
  | sign _ _ ih => exact ih (List.cons_subset.1 hts).2 nofun
  | group _ _ ih => exact within_closeGroup (ih (List.cons_subset.1 hts).2 nofun)
  | operand => exact within_passOperand hts

/-- **What is read is made of the tokens.** -/
theorem madeOf_read (ts : List Token) : (read ts).MadeOf ts := by
  obtain ⟨htree, -⟩ := (isRead_conditional ts).within (List.Subset.refl ts) nofun
  rw [read]
  split
  · exact .inr ⟨_, rfl⟩
  · dsimp only
    split
    · exact htree
    · exact ⟨htree, _, rfl⟩

/-- A part is made of the tokens of the whole. -/
theorem MadeOf.of_comes {d d' : Bool} {e p : Expr} (h : e.MadeOf ts) (hp : Comes d e d' p) :
    p.MadeOf ts := by
  induction hp with
  | here => exact h
  | broken _ ih => exact ih h.1
  | unary _ ih => exact ih h
  | left _ ih => exact ih h.1
  | right _ _ ih => exact ih h.2
  | condition _ ih => exact ih h.1
  | choice _ _ ih => exact ih h.2.1
  | other _ _ _ ih => exact ih h.2.2

end Expr
end DevicetreePrep
