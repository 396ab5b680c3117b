/-
# Steps of the reader of expressions

The reader knows an operator by its level and its spelling.  That is the same as to
look it up in the table of operators, row by row: a token that is spelled as an
operator is one on its own row and on no other (`operatorAt?_of_isPunct`), and what the
reader takes for an operator stands in the table (`exists_of_operatorAt?`).

A reading carries a bound on the tokens that it leaves, which is of no use once the
reader is known to end.  So what one step of each function of the reader does is said
here about the tree and the tokens alone (`Reading.pair`).
-/

import DevicetreePrep.Proofs.Expression.Evaluation

namespace DevicetreePrep

namespace BinaryOp

theorem mem_all (op : BinaryOp) : op ∈ all := by
  cases op <;> decide

/-- No two operators have one spelling. -/
theorem spelling_injective {op op' : BinaryOp} (h : op.spelling = op'.spelling) : op = op' := by
  have hall : ∀ op ∈ all, ∀ op' ∈ all, op.spelling = op'.spelling → op = op' := by decide
  exact hall op (mem_all op) op' (mem_all op') h

end BinaryOp

namespace Formula

/-- An operator stands on the row of its level, under its spelling. -/
theorem level_of_mem_precedence {n : Nat} {row : List (String × BinaryOp)} {s : String}
    {op : BinaryOp} (hrow : precedence[n]? = some row) (hop : (s, op) ∈ row) :
    op.level = n ∧ op.spelling = s.toList := by
  have hall : ∀ p ∈ precedence.zipIdx, ∀ q ∈ p.1, q.2.level = p.2 ∧ q.2.spelling = q.1.toList := by
    decide
  exact hall (row, n) (List.mem_zipIdx_iff_getElem?.2 hrow) (s, op) hop

theorem exists_mem_precedence (op : BinaryOp) :
    ∃ row s, precedence[op.level]? = some row ∧ (s, op) ∈ row ∧ op.spelling = s.toList := by
  cases op <;> exact ⟨_, _, rfl, by simp; rfl, rfl⟩

end Formula

namespace Token

/-- A token has one spelling. -/
theorem isPunct_unique {t : Token} {s s' : Text} (h : t.isPunct s) (h' : t.isPunct s') : s = s' := by
  simp only [isPunct, Bool.and_eq_true, decide_eq_true_eq] at h h'
  rw [← h.2, h'.2]

end Token

namespace Expr

/-- A punctuator that spells no operator is none. -/
theorem operatorAt?_eq_none {t : Token} {s : Text} (ht : t.isPunct s)
    (hs : ∀ op : BinaryOp, op.spelling ≠ s) (n : Nat) : operatorAt? n t = none := by
  refine List.find?_eq_none.2 fun op _ hop => ?_
  rw [Bool.and_eq_true] at hop
  exact hs op (Token.isPunct_unique hop.2 ht)

/-- The operator that a token is, on its own level and on no other one. -/
theorem operatorAt?_of_isPunct {t : Token} {op : BinaryOp} (ht : t.isPunct op.spelling) (n : Nat) :
    operatorAt? n t = if op.level = n then some op else none := by
  have hiff (op' : BinaryOp) : (op'.level = n && t.isPunct op'.spelling) = true ↔
      op.level = n ∧ op' = op := by
    rw [Bool.and_eq_true, decide_eq_true_eq]
    constructor
    · rintro ⟨hlevel, hop⟩
      obtain rfl := BinaryOp.spelling_injective (Token.isPunct_unique hop ht)
      exact ⟨hlevel, rfl⟩
    · rintro ⟨hlevel, rfl⟩
      exact ⟨hlevel, ht⟩
  split
  · rename_i hlevel
    cases hfind : operatorAt? n t with
    | none =>
      exact absurd ((hiff op).2 ⟨hlevel, rfl⟩) (List.find?_eq_none.1 hfind op op.mem_all)
    | some op' =>
      have hop := List.find?_some hfind
      rw [((hiff op').1 hop).2]
  · rename_i hlevel
    exact List.find?_eq_none.2 fun op' _ hop => hlevel ((hiff op').1 hop).1

/-- What the reader takes for an operator of a level is spelled as one of its row. -/
theorem exists_of_operatorAt? {n : Nat} {t : Token} {op : BinaryOp} (h : operatorAt? n t = some op) :
    ∃ row s, Formula.precedence[n]? = some row ∧ (s, op) ∈ row ∧ t.isPunct s.toList := by
  have hop := List.find?_some h
  rw [Bool.and_eq_true, decide_eq_true_eq] at hop
  obtain ⟨row, s, hrow, hmem, hs⟩ := Formula.exists_mem_precedence op
  exact ⟨row, s, hop.1 ▸ hrow, hmem, hs ▸ hop.2⟩

/-- What the reader takes for a sign is one. -/
theorem exists_of_unaryOperator? {t : Token} {op : UnaryOp} (h : unaryOperator? t = some op) :
    ∃ s, (s, op) ∈ Formula.signs ∧ t.isPunct s.toList := by
  have hop := List.find?_some h
  cases op with
  | not => exact ⟨"!", by decide, hop⟩
  | complement => exact ⟨"~", by decide, hop⟩
  | minus => exact ⟨"-", by decide, hop⟩
  | plus => exact ⟨"+", by decide, hop⟩

/-- A sign is taken for one. -/
theorem unaryOperator?_of_mem_signs {t : Token} {s : String} {op : UnaryOp}
    (hs : (s, op) ∈ Formula.signs) (ht : t.isPunct s.toList) : unaryOperator? t = some op := by
  have hisPunct (s' : Text) : t.isPunct s' = decide (s.toList = s') := by
    simp only [Token.isPunct, Bool.and_eq_true, decide_eq_true_eq] at ht ⊢
    rw [decide_eq_true ht.1, Bool.true_and, ht.2]
  have hall : ∀ p ∈ Formula.signs,
      UnaryOp.all.find? (fun op => decide (p.1.toList = op.spelling)) = some p.2 := by
    decide
  rw [unaryOperator?]
  simp only [hisPunct]
  exact hall (s, op) hs

/-- A punctuator that spells no sign is none. -/
theorem unaryOperator?_eq_none {t : Token} {s : Text} (ht : t.isPunct s)
    (hs : ∀ op : UnaryOp, op.spelling ≠ s) : unaryOperator? t = none :=
  List.find?_eq_none.2 fun op _ hop => hs op (Token.isPunct_unique hop ht)

/-! One step of each of the functions of the reader. -/

/-- The tree that was read and the tokens that are left. -/
def Reading.pair {n : Nat} (r : Reading n) : Expr × List Token :=
  (r.tree, r.rest)

variable {n : Nat} {ts rest : List Token} {t : Token} {e : Expr}

/-- Below the last level, a level is an operand of the next level and the row behind it. -/
theorem pair_readLevel_of_lt (hn : n < 10) (h : (readLevel (n + 1) ts).pair = (e, rest)) :
    (readLevel n ts).pair = (readChain n e rest).pair := by
  obtain ⟨rfl, rfl⟩ := Prod.mk.inj h
  rw [readLevel]
  simp only [levels, hn, if_true]
  rfl

theorem pair_readLevel_of_le (hn : 10 ≤ n) : (readLevel n ts).pair = (readUnary ts).pair := by
  rw [readLevel, if_neg (by rw [levels]; omega)]

theorem pair_readChain_nil : (readChain n e []).pair = (e, []) := by
  rw [readChain]
  rfl

/-- A row ends in front of a token that is no operator of its level. -/
theorem pair_readChain_of_none (h : operatorAt? n t = none) :
    (readChain n e (t :: rest)).pair = (e, t :: rest) := by
  rw [readChain]
  split
  · rfl
  · rename_i hop
    rw [h] at hop
    cases hop

/-- A row goes on with an operator of its level and an operand of the next level. -/
theorem pair_readChain_of_some {op : BinaryOp} {r : Expr} {behind : List Token}
    (h : operatorAt? n t = some op) (hr : (readLevel (n + 1) rest).pair = (r, behind)) :
    (readChain n e (t :: rest)).pair = (readChain n (.binary op t.offset e r) behind).pair := by
  obtain ⟨rfl, rfl⟩ := Prod.mk.inj hr
  rw [readChain]
  split
  · rename_i hop
    rw [h] at hop
    cases hop
  · rename_i hop
    rw [h] at hop
    obtain rfl := Option.some.inj hop
    rfl

/-- A sign is put in front of the operand behind it. -/
theorem pair_readUnary_of_sign {op : UnaryOp} {behind : List Token}
    (h : unaryOperator? t = some op) (hr : (readUnary rest).pair = (e, behind)) :
    (readUnary (t :: rest)).pair = (.unary op t.offset e, behind) := by
  obtain ⟨rfl, rfl⟩ := Prod.mk.inj hr
  rw [readUnary]
  split
  · rename_i hop
    rw [h] at hop
    obtain rfl := Option.some.inj hop
    rfl
  · rename_i hop
    rw [h] at hop
    cases hop

/-- How a group is read on behind its expression. -/
def closeGroup (e : Expr) : List Token → Expr × List Token
  | [] => (.broken e (missing [')'] []), [])
  | c :: afterC => if c.isPunct [')'] then (e, afterC) else (.broken e (missing [')'] [c]), [])

/-- An opening bracket opens a group. -/
theorem pair_readUnary_of_group (h : t.isPunct ['(']) :
    (readUnary (t :: rest)).pair =
      closeGroup (readConditional rest).tree (readConditional rest).rest := by
  have hop : unaryOperator? t = none :=
    unaryOperator?_eq_none h (by intro op; cases op <;> decide)
  rw [readUnary]
  split
  · rename_i hop'
    rw [hop] at hop'
    cases hop'
  · rw [if_pos h]
    dsimp only
    split
    · rename_i hrest
      rw [hrest]
      rfl
    · rename_i c afterC hrest
      refine Eq.trans ?_ (congrArg (closeGroup _) hrest.symm)
      rw [closeGroup]
      split <;> rfl

/-- How an operand by itself is read on. -/
def passOperand (rest : List Token) : Expr → Expr × List Token
  | .fault f => (.fault f, [])
  | e => (e, rest)

/-- Any other token is an operand by itself. -/
theorem pair_readUnary_of_operand (hop : unaryOperator? t = none) (h : t.isPunct ['('] = false) :
    (readUnary (t :: rest)).pair = passOperand rest (operandOf t) := by
  rw [readUnary]
  split
  · rename_i hop'
    rw [hop] at hop'
    cases hop'
  · rw [if_neg (by rw [h]; exact Bool.false_ne_true)]
    split
    · rename_i hfault
      rw [hfault]
      rfl
    · rename_i hfault
      have hpass : passOperand rest (operandOf t) = (operandOf t, rest) := by
        cases he : operandOf t with
        | fault f => exact absurd he (hfault f)
        | _ => rfl
      exact hpass.symm

/-- Without a question mark behind it, a conditional is its first level. -/
theorem pair_readConditional_of_level (hc : (readLevel 0 ts).pair = (e, rest))
    (hrest : ∀ q ∈ rest.head?, q.isPunct ['?'] = false) : (readConditional ts).pair = (e, rest) := by
  obtain ⟨rfl, rfl⟩ := Prod.mk.inj hc
  rw [readConditional]
  dsimp only
  split
  · rfl
  · rename_i q afterQ hq
    rw [hq] at hrest
    rw [if_neg (by rw [hrest q rfl]; exact Bool.false_ne_true)]
    rfl

/-- How a conditional is read on behind its first choice. -/
def readOther (c t : Expr) : List Token → Expr × List Token
  | [] => (withoutColon c t [], [])
  | s :: afterS =>
    if s.isPunct [':'] then
      (.conditional c t (readConditional afterS).tree, (readConditional afterS).rest)
    else (withoutColon c t [s], [])

/-- With a question mark behind its first level, a conditional has two choices. -/
theorem pair_readConditional_of_mark {q : Token} {afterQ : List Token}
    (hc : (readLevel 0 ts).pair = (e, q :: afterQ)) (hq : q.isPunct ['?']) :
    (readConditional ts).pair =
      readOther e (readConditional afterQ).tree (readConditional afterQ).rest := by
  obtain ⟨rfl, hrest⟩ := Prod.mk.inj hc
  rw [readConditional]
  dsimp only
  split
  · rename_i hnil
    rw [hnil] at hrest
    cases hrest
  · rename_i q' afterQ' hq'
    rw [hq'] at hrest
    obtain ⟨rfl, rfl⟩ := List.cons.inj hrest
    rw [if_pos hq]
    split
    · rename_i hrest
      rw [hrest]
      rfl
    · rename_i s afterS hrest
      refine Eq.trans ?_ (congrArg (readOther _ _) hrest.symm)
      rw [readOther]
      split <;> rfl

end Expr
end DevicetreePrep
