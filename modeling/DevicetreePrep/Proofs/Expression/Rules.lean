/-
# The rules of the reader of expressions

What the functions of the reader do is said here by rules, one for each way through one
of them (`Expr.IsRead`).  The recursion of the reader, on the number of tokens and on the
rank of the function, is gone through once, to show that its readings are by the rules
(`isRead_conditional`).  From there on a fact about all that is read is an induction over
the rules.

The row behind an operand is read with that operand in hand, so a fact about it takes up
what is known of the operand (`Reader.left?`).
-/

import DevicetreePrep.Proofs.Expression.Step

namespace DevicetreePrep
namespace Expr

/-- The functions of the reader. -/
inductive Reader
  | conditional
  | level (n : Nat)
  | chain (n : Nat) (left : Expr)
  | unary

/-- The operand that was read before, if there is one. -/
def Reader.left? : Reader → Option Expr
  | .chain _ left => some left
  | _ => none

/-- **The rules of the reader**: a function reads a tree of tokens, and leaves some of
them. -/
inductive IsRead : Reader → List Token → Expr × List Token → Prop
  /-- A conditional is its first level, without a question mark behind it. -/
  | alone {ts r} : IsRead (.level 0) ts r → (∀ q ∈ r.2.head?, q.isPunct ['?'] = false) →
      IsRead .conditional ts r
  /-- A conditional has two choices, behind a question mark and a colon. -/
  | choice {ts c q afterQ t s afterS e rest} : IsRead (.level 0) ts (c, q :: afterQ) →
      q.isPunct ['?'] → IsRead .conditional afterQ (t, s :: afterS) → s.isPunct [':'] →
      IsRead .conditional afterS (e, rest) → IsRead .conditional ts (.conditional c t e, rest)
  /-- The colon is missing behind the first choice. -/
  | withoutColon {ts c q afterQ t rest} : IsRead (.level 0) ts (c, q :: afterQ) →
      q.isPunct ['?'] → IsRead .conditional afterQ (t, rest) →
      (∀ s ∈ rest.head?, s.isPunct [':'] = false) →
      IsRead .conditional ts (Expr.withoutColon c t (rest.take 1), [])
  /-- A level is an operand of the next one, and the row behind it. -/
  | tighter {n ts l rest r} : n < 10 → IsRead (.level (n + 1)) ts (l, rest) →
      IsRead (.chain n l) rest r → IsRead (.level n) ts r
  /-- The last level is an operand with its signs. -/
  | tightest {ts r} : IsRead .unary ts r → IsRead (.level 10) ts r
  /-- A row ends where no operator of its level stands. -/
  | ended {n left ts} : (∀ t ∈ ts.head?, operatorAt? n t = none) →
      IsRead (.chain n left) ts (left, ts)
  /-- A row goes on with an operator and an operand of the next level. -/
  | operator {n left t rest op e behind r} : operatorAt? n t = some op →
      IsRead (.level (n + 1)) rest (e, behind) →
      IsRead (.chain n (.binary op t.offset left e)) behind r → IsRead (.chain n left) (t :: rest) r
  /-- There is no operand. -/
  | nothing : IsRead .unary [] (.fault (failure .unexpectedEnd), [])
  /-- A sign stands in front of an operand. -/
  | sign {t rest op e behind} : unaryOperator? t = some op → IsRead .unary rest (e, behind) →
      IsRead .unary (t :: rest) (.unary op t.offset e, behind)
  /-- A group is an expression in brackets. -/
  | group {t rest e behind} : t.isPunct ['('] → IsRead .conditional rest (e, behind) →
      IsRead .unary (t :: rest) (closeGroup e behind)
  /-- Any other token is an operand by itself. -/
  | operand {t rest} : unaryOperator? t = none → t.isPunct ['('] = false →
      IsRead .unary (t :: rest) (passOperand rest (operandOf t))

-- the recursion is that of the reader: on the number of tokens, and on the rank
mutual

/-- **The reader reads by the rules.** -/
theorem isRead_conditional (ts : List Token) : IsRead .conditional ts (readConditional ts).pair := by
  have hlevel := isRead_level 0 (by omega) ts
  rcases hpair : (readLevel 0 ts).pair with ⟨c, rest⟩
  have hbound : rest.length ≤ ts.length := (Prod.mk.inj hpair).2 ▸ (readLevel 0 ts).bounded
  rw [hpair] at hlevel
  by_cases hmark : ∀ q ∈ rest.head?, q.isPunct ['?'] = false
  · rw [pair_readConditional_of_level hpair hmark]
    exact .alone hlevel hmark
  · obtain ⟨q, hhead, hq⟩ : ∃ q ∈ rest.head?, q.isPunct ['?'] = true := by simpa using hmark
    obtain ⟨afterQ, rfl⟩ := List.head?_eq_some_iff.1 hhead
    have hchoice := isRead_conditional afterQ
    have hbound' : (readConditional afterQ).rest.length ≤ afterQ.length :=
      (readConditional afterQ).bounded
    rw [pair_readConditional_of_mark hpair hq]
    rcases hrest : (readConditional afterQ).pair with ⟨t, behind⟩
    obtain ⟨htree, hbehind⟩ := Prod.mk.inj hrest
    rw [hrest] at hchoice
    rw [hbehind] at hbound'
    rw [htree, hbehind]
    match behind with
    | [] => exact .withoutColon hlevel hq hchoice (by simp)
    | s :: afterS =>
      rw [readOther]
      split
      · rename_i hs
        have hlength : afterS.length < ts.length :=
          Nat.lt_of_lt_of_le hbound' (Nat.le_of_succ_le hbound)
        exact .choice hlevel hq hchoice hs (isRead_conditional afterS)
      · rename_i hs
        refine .withoutColon hlevel hq hchoice fun u hu => ?_
        obtain rfl := Option.some.inj hu
        exact (Bool.not_eq_true _).mp hs
termination_by (ts.length, levels + 2)
decreasing_by
  · exact lex_of_le (Nat.le_refl _) (by omega)
  · exact .left _ _ hbound
  · exact .left _ _ hlength

/-- A level is read by the rules. -/
theorem isRead_level (n : Nat) (hn : n ≤ 10) (ts : List Token) :
    IsRead (.level n) ts (readLevel n ts).pair := by
  rcases Nat.lt_or_eq_of_le hn with hlt | rfl
  · have hlevel := isRead_level (n + 1) hlt ts
    rcases hpair : (readLevel (n + 1) ts).pair with ⟨l, rest⟩
    have hbound : rest.length ≤ ts.length := (Prod.mk.inj hpair).2 ▸ (readLevel (n + 1) ts).bounded
    rw [hpair] at hlevel
    rw [pair_readLevel_of_lt hlt hpair]
    exact .tighter hlt hlevel (isRead_chain n hlt l rest)
  · rw [pair_readLevel_of_le (Nat.le_refl 10)]
    exact .tightest (isRead_unary ts)
termination_by (ts.length, levels - n + 1)
decreasing_by
  · exact lex_of_le (Nat.le_refl _) (by rw [levels]; omega)
  · exact lex_of_le hbound (by omega)
  · exact lex_of_le (Nat.le_refl _) (by omega)

/-- The row behind an operand is read by the rules. -/
theorem isRead_chain (n : Nat) (hn : n < 10) (left : Expr) (ts : List Token) :
    IsRead (.chain n left) ts (readChain n left ts).pair := by
  match ts with
  | [] =>
    rw [pair_readChain_nil]
    exact .ended (by simp)
  | t :: rest =>
    cases hop : operatorAt? n t with
    | none =>
      rw [pair_readChain_of_none hop]
      exact .ended fun u hu => Option.some.inj hu ▸ hop
    | some op =>
      have hlevel := isRead_level (n + 1) hn rest
      rcases hpair : (readLevel (n + 1) rest).pair with ⟨e, behind⟩
      have hbound : behind.length ≤ rest.length :=
        (Prod.mk.inj hpair).2 ▸ (readLevel (n + 1) rest).bounded
      rw [hpair] at hlevel
      rw [pair_readChain_of_some hop hpair]
      exact .operator hop hlevel (isRead_chain n hn _ behind)
termination_by (ts.length, 0)
decreasing_by
  · exact .left _ _ (Nat.lt_succ_self _)
  · exact .left _ _ (Nat.lt_succ_of_le hbound)

/-- An operand with its signs is read by the rules. -/
theorem isRead_unary (ts : List Token) : IsRead .unary ts (readUnary ts).pair := by
  match ts with
  | [] =>
    rw [readUnary]
    exact .nothing
  | t :: rest =>
    cases hop : unaryOperator? t with
    | some op =>
      rw [pair_readUnary_of_sign hop rfl]
      exact .sign hop (isRead_unary rest)
    | none =>
      by_cases hgroup : t.isPunct ['('] = true
      · rw [pair_readUnary_of_group hgroup]
        exact .group hgroup (isRead_conditional rest)
      · have hgroup : t.isPunct ['('] = false := (Bool.not_eq_true _).mp hgroup
        rw [pair_readUnary_of_operand hop hgroup]
        exact .operand hop hgroup
termination_by (ts.length, 0)
decreasing_by
  · exact .left _ _ (Nat.lt_succ_self _)
  · exact .left _ _ (Nat.lt_succ_self _)

end

end Expr
end DevicetreePrep
