/-
# What spells a formula is read as the formula

The reader goes through the tokens once and never takes a token back.  So it has to
know where an operand ends.  On a row of operators it goes on as long as an operator
of that row follows, and in front of that it has read all that binds more tightly:
the tokens of a formula are read as the formula in front of everything that cannot go
on with it (`isReadAs_of_spells`).  The left operand of an operator is read first, and
the reader is then in the midst of its row; this is why the statement for a row says
how it is read on (`IsReadAs`), and not that all of it was read.
-/

import DevicetreePrep.Proofs.Expression.Step

namespace DevicetreePrep
namespace Expr

variable {n : Nat} {ts rest : List Token} {t : Token} {e : Expr}

/-- No operator of this row or of a tighter one stands at the front. -/
def Stops (n : Nat) (ts : List Token) : Prop :=
  ∀ t ∈ ts.head?, ∀ m, n ≤ m → operatorAt? m t = none

theorem Stops.weaken {m : Nat} (h : Stops n ts) (hmn : n ≤ m) : Stops m ts :=
  fun t ht k hk => h t ht k (Nat.le_trans hmn hk)

/-- Where no operator of a level stands in front, its row is empty. -/
theorem Stops.readChain (h : Stops n rest) : (readChain n e rest).pair = (e, rest) := by
  cases rest with
  | nil => exact pair_readChain_nil
  | cons t rest => exact pair_readChain_of_none (h t rfl n (Nat.le_refl n))

/-- A punctuator that spells no operator stops the row of every level. -/
theorem Stops.of_isPunct {s : Text} (ht : t.isPunct s) (hs : ∀ op : BinaryOp, op.spelling ≠ s) :
    Stops 0 (t :: rest) := by
  intro t' ht' m _
  obtain rfl := Option.some.inj ht'
  exact operatorAt?_eq_none ht hs m

/-- Behind an operand of a row, an operator of the row stops what binds more tightly. -/
theorem Stops.of_operator {op : BinaryOp} (ht : t.isPunct op.spelling) :
    Stops (op.level + 1) (t :: rest) := by
  intro t' ht' m hm
  obtain rfl := Option.some.inj ht'
  rw [operatorAt?_of_isPunct ht, if_neg (by omega)]

/-- All operators stand on the ten rows. -/
theorem stops_ten (ts : List Token) : Stops 10 ts := by
  intro t _ m hm
  refine List.find?_eq_none.2 fun op _ hop => ?_
  rw [Bool.and_eq_true, decide_eq_true_eq] at hop
  have hlevel : op.level < 10 := by cases op <;> decide
  omega

/-- What may follow a formula of any rank: neither an operator nor the mark of a
conditional. -/
def Ends (ts : List Token) : Prop :=
  Stops 0 ts ∧ ∀ q ∈ ts.head?, q.isPunct ['?'] = false

theorem ends_nil : Ends [] :=
  ⟨fun _ h => (nomatch h), fun _ h => (nomatch h)⟩

/-- A punctuator that spells no operator and is no question mark ends an expression. -/
theorem Ends.of_isPunct {s : Text} (ht : t.isPunct s) (hs : ∀ op : BinaryOp, op.spelling ≠ s)
    (hmark : s ≠ ['?']) : Ends (t :: rest) := by
  refine ⟨Stops.of_isPunct ht hs, ?_⟩
  intro q hq
  obtain rfl := Option.some.inj hq
  rw [Bool.eq_false_iff]
  exact fun hq => hmark (Token.isPunct_unique ht hq)

/-- What reading comes to, in front of `rest`, where the tokens `ts` of a rank stand
for `e`. -/
def IsReadAs (ts : List Token) (e : Expr) : Formula.Rank → Prop
  | .any => ∀ rest, Ends rest → (readConditional (ts ++ rest)).pair = (e, rest)
  | .row n => ∀ rest, Stops (n + 1) rest →
      (readLevel n (ts ++ rest)).pair = (readChain n e rest).pair

/-- On the last row there are no operators left. -/
theorem isReadAs_ten : IsReadAs ts e (.row 10) ↔ ∀ rest, (readUnary (ts ++ rest)).pair = (e, rest) := by
  constructor
  · intro h rest
    rw [← pair_readLevel_of_le (Nat.le_refl 10), h rest ((stops_ten rest).weaken (by omega)),
      (stops_ten rest).readChain]
  · intro h rest _
    rw [pair_readLevel_of_le (Nat.le_refl 10), h rest, (stops_ten rest).readChain]

/-- A constant is read as an operand by itself. -/
theorem isReadAs_constant {i : Int} (hkind : t.kind ≠ .punctuator)
    (h : operandOf t = .literal (.int i)) : IsReadAs [t] (.literal (.int i)) (.row 10) := by
  have hpunct (s : Text) : t.isPunct s = false := by
    rw [Token.isPunct, decide_eq_false hkind, Bool.false_and]
  have hop : unaryOperator? t = none := by
    refine List.find?_eq_none.2 fun op _ hop => ?_
    rw [hpunct] at hop
    cases hop
  refine isReadAs_ten.2 fun rest => ?_
  rw [List.singleton_append, pair_readUnary_of_operand hop (hpunct _), h]
  rfl

/-- **Tokens that spell a formula are read as the formula.** -/
theorem isReadAs_of_spells {rank : Formula.Rank} {f : Formula}
    (h : Formula.Spells rank ts f) : IsReadAs ts f.toExpr rank := by
  induction h with
  | number hkind hvalue =>
    refine isReadAs_constant (by rw [hkind]; decide) ?_
    rw [operandOf, hkind]
    dsimp only
    rw [hvalue]
    rfl
  | character hkind hvalue =>
    refine isReadAs_constant (by rw [hkind]; decide) ?_
    rw [operandOf, hkind]
    dsimp only
    rw [hvalue]
    rfl
  | @group left right ts f hleft h hright ih =>
    refine isReadAs_ten.2 fun rest => ?_
    have hends : Ends (right :: rest) :=
      Ends.of_isPunct hright (by intro op; cases op <;> decide) (by decide)
    obtain ⟨htree, hrest⟩ := Prod.mk.inj (ih (right :: rest) hends)
    have hassoc : left :: ts ++ [right] ++ rest = left :: (ts ++ right :: rest) := by simp
    rw [hassoc, pair_readUnary_of_group hleft, htree, hrest, closeGroup, if_pos hright]
  | @signed t s op ts f hsign ht h ih =>
    refine isReadAs_ten.2 fun rest => ?_
    rw [List.cons_append, pair_readUnary_of_sign (unaryOperator?_of_mem_signs hsign ht)
      (isReadAs_ten.1 ih rest)]
    rfl
  | @tighter n ts f hn h ih =>
    intro rest hrest
    refine pair_readLevel_of_lt hn ?_
    rw [ih rest (hrest.weaken (Nat.le_succ _)), hrest.readChain]
  | @operation n row s op t ls rs l r hrow hop ht hl hr ihl ihr =>
    intro rest hrest
    obtain ⟨rfl, hs⟩ := Formula.level_of_mem_precedence hrow hop
    rw [← hs] at ht
    have hr : (readLevel (op.level + 1) (rs ++ rest)).pair = (r.toExpr, rest) := by
      rw [ihr rest (hrest.weaken (Nat.le_succ _)), hrest.readChain]
    rw [List.append_assoc, List.cons_append, ihl _ (Stops.of_operator ht),
      pair_readChain_of_some (by rw [operatorAt?_of_isPunct ht, if_pos rfl]) hr]
    rfl
  | @loosest ts f h ih =>
    intro rest hrest
    refine pair_readConditional_of_level ?_ hrest.2
    rw [ih rest (hrest.1.weaken (Nat.zero_le _)), hrest.1.readChain]
  | @choice mark colon cs ts es c t e hc hmark ht hcolon he ihc iht ihe =>
    intro rest hrest
    have hstops : Stops 0 (mark :: (ts ++ colon :: (es ++ rest))) :=
      Stops.of_isPunct hmark (by intro op; cases op <;> decide)
    have hends : Ends (colon :: (es ++ rest)) :=
      Ends.of_isPunct hcolon (by intro op; cases op <;> decide) (by decide)
    have hlevel : (readLevel 0 (cs ++ mark :: (ts ++ colon :: (es ++ rest)))).pair =
        (c.toExpr, mark :: (ts ++ colon :: (es ++ rest))) := by
      rw [ihc _ (hstops.weaken (Nat.zero_le _)), hstops.readChain]
    obtain ⟨htree, hcolonrest⟩ := Prod.mk.inj (iht _ hends)
    obtain ⟨hetree, herest⟩ := Prod.mk.inj (ihe rest hrest)
    have hassoc : cs ++ mark :: ts ++ colon :: es ++ rest =
        cs ++ mark :: (ts ++ colon :: (es ++ rest)) := by simp
    rw [hassoc, pair_readConditional_of_mark hlevel hmark, htree, hcolonrest, readOther,
      if_pos hcolon, hetree, herest]
    rfl

end Expr
end DevicetreePrep
