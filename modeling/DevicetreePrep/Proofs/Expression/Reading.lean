/-
# The reader of expressions accepts the grammar

Tokens that spell a formula are read as it.  Here is the other half: whatever is read
either spells a formula or has a fault in it (`IsRead.readsFormulas`), and then it has an
error, also where the fault stands in an operand that does not count.  This holds of
every reading on the way, by induction over the rules of the reader.

Both halves together say what value a list of tokens has (`eval_read_eq_ok_iff`).  They
hold of lists of every length and of brackets nested to every depth: a limit on the depth of
recursion, such as interpreters have, is not modelled.
-/

import DevicetreePrep.Proofs.Expression.Rules
import DevicetreePrep.Proofs.Expression.Spelling

namespace DevicetreePrep
namespace Expr

variable {n : Nat} {ts rest : List Token} {t : Token} {e : Expr}

/-- Of the tokens `ts` a formula of this rank was read, and it is spelled by the ones
that are not left; or what was read has a fault. -/
def Reads (rank : Formula.Rank) (ts : List Token) (r : Expr × List Token) : Prop :=
  (∃ front f, ts = front ++ r.2 ∧ Formula.Spells rank front f ∧ r.1 = f.toExpr) ∨ Fails r.1

/-- What is read as a formula of one rank is read as one of another rank, if all of these are. -/
theorem Reads.imp {rank rank' : Formula.Rank} {r : Expr × List Token} (h : Reads rank ts r)
    (hrank : ∀ {front f}, Formula.Spells rank front f → Formula.Spells rank' front f) :
    Reads rank' ts r := by
  rcases h with ⟨front, f, hts, hf, he⟩ | hfails
  · exact .inl ⟨front, f, hts, hrank hf, he⟩
  · exact .inr hfails

/-- A conditional without a colon has a fault. -/
theorem fails_withoutColon (f g : Formula) (ts : List Token) :
    Fails (withoutColon f.toExpr g.toExpr ts) := by
  cases ts with
  | nil => exact (fails_broken g _ _).choice f _
  | cons t rest => exact (fails_broken g _ _).choice f _

/-- A fault in the expression of a group stays. -/
theorem fails_closeGroup {e : Expr} (h : Fails e) (ts : List Token) : Fails (closeGroup e ts).1 := by
  cases ts with
  | nil => exact h.broken _
  | cons t rest =>
    rw [closeGroup]
    split
    · exact h
    · exact h.broken _

/-- An operand by itself is a constant, or a fault. -/
theorem reads_operand (h : Formula.HasIntegers (t :: rest)) :
    Reads (.row 10) (t :: rest) (passOperand rest (operandOf t)) := by
  obtain ⟨hnumber, hcharacter⟩ := h t (List.mem_cons_self ..)
  cases hkind : t.kind with
  | number =>
    obtain ⟨i, hi⟩ := hnumber hkind
    refine .inl ⟨[t], .constant i, ?_, .number hkind hi, ?_⟩ <;>
    · simp only [operandOf, hkind, hi]
      rfl
  | charConst =>
    obtain ⟨i, hi⟩ := hcharacter hkind
    refine .inl ⟨[t], .constant i, ?_, .character hkind hi, ?_⟩ <;>
    · simp only [operandOf, hkind, hi]
      rfl
  | _ =>
    refine .inr ?_
    simp only [operandOf, hkind]
    exact fails_fault _ _

/-- A group is read if its expression is, of which `behind` is left, and a closing bracket
follows. -/
theorem reads_group {behind : List Token} (ht : t.isPunct ['('])
    (h : Reads .any rest (e, behind)) : Reads (.row 10) (t :: rest) (closeGroup e behind) := by
  rcases h with ⟨front, f, rfl, hf, rfl⟩ | hfails
  · cases behind with
    | nil => exact .inr (fails_broken f _ _)
    | cons u behind =>
      rw [closeGroup]
      split
      · rename_i hu
        refine .inl ⟨t :: front ++ [u], f, ?_, .group ht hf hu, rfl⟩
        rw [List.append_assoc]
        rfl
      · exact .inr (fails_broken f _ _)
  · exact .inr (fails_closeGroup hfails behind)

/-- A function of the reader reads formulas of its rank.  The operand that was read before
is part of what a row reads. -/
def Reader.ReadsFormulas : Reader → List Token → Expr × List Token → Prop
  | .conditional, ts, r => Formula.HasIntegers ts → Reads .any ts r
  | .level n, ts, r => Formula.HasIntegers ts → Reads (.row n) ts r
  | .chain n left, ts, r =>
    ∀ all, Formula.HasIntegers all → Reads (.row n) all (left, ts) → Reads (.row n) all r
  | .unary, ts, r => Formula.HasIntegers ts → Reads (.row 10) ts r

/-- **Whatever is read by the rules spells a formula or has a fault.** -/
theorem IsRead.readsFormulas {f : Reader} {r : Expr × List Token} (h : IsRead f ts r) :
    f.ReadsFormulas ts r := by
  -- a fault in a part is one of the whole; parts that spell formulas make up another one
  induction h with
  | alone _ _ ih => exact fun hints => (ih hints).imp .loosest
  | choice _ hq _ hs _ ihc iht ihe =>
    intro hints
    rcases ihc hints with ⟨front, f, rfl, hf, rfl⟩ | hfails
    · rcases iht hints.of_append.tail with ⟨middle, g, rfl, hg, rfl⟩ | hfails
      · rcases ihe hints.of_append.tail.of_append.tail with ⟨last, o, rfl, ho, rfl⟩ | hfails
        · refine .inl ⟨_, .conditional f g o, ?_, .choice hf hq hg hs ho, rfl⟩
          simp only [List.append_assoc, List.cons_append]
        · exact .inr (hfails.other f g)
      · exact .inr (hfails.choice f _)
    · exact .inr (hfails.condition _ _)
  | withoutColon _ _ _ _ ihc iht =>
    intro hints
    rcases ihc hints with ⟨front, f, rfl, -, rfl⟩ | hfails
    · rcases iht hints.of_append.tail with ⟨_, g, -, -, rfl⟩ | hfails
      · exact .inr (fails_withoutColon f g _)
      · exact .inr ((hfails.broken _).choice f _)
    · exact .inr (hfails.condition _ _)
  | tighter hn _ _ ihl ihr => exact fun hints => ihr _ hints ((ihl hints).imp (.tighter hn))
  | tightest _ ih => exact ih
  | ended => exact fun _ _ hleft => hleft
  | operator hop _ _ ihe ihr =>
    intro all hints hleft
    obtain ⟨row, s, hrow, hmem, ht⟩ := exists_of_operatorAt? hop
    rcases hleft with ⟨front, f, rfl, hf, rfl⟩ | hfails
    · rcases ihe hints.of_append.tail with ⟨right, g, rfl, hg, rfl⟩ | hfails
      · refine ihr _ hints (.inl ⟨_, .binary _ _ f g, ?_, .operation hrow hmem ht hf hg, rfl⟩)
        simp only [List.append_assoc, List.cons_append]
      · exact ihr _ hints (.inr (hfails.right _ _ f))
    · exact ihr _ hints (.inr (hfails.left _ _ _))
  | nothing => exact fun _ => .inr (fails_fault _ _)
  | sign hop _ ih =>
    intro hints
    obtain ⟨s, hsign, ht⟩ := exists_of_unaryOperator? hop
    rcases ih hints.tail with ⟨front, f, rfl, hf, rfl⟩ | hfails
    · exact .inl ⟨_ :: front, .unary _ _ f, rfl, .signed hsign ht hf, rfl⟩
    · exact .inr (hfails.unary _ _)
  | group hgroup _ ih => exact fun hints => reads_group hgroup (ih hints.tail)
  | operand => exact reads_operand

/-- A formula is spelled by at least one token. -/
theorem ne_nil_of_spells {rank : Formula.Rank} {f : Formula} (h : Formula.Spells rank ts f) :
    ts ≠ [] := by
  induction h <;> simp_all

/-- What spells a formula is read as the formula. -/
theorem read_of_spells {f : Formula} (h : Formula.Spells .any ts f) : read ts = f.toExpr := by
  have hread := isReadAs_of_spells h [] ends_nil
  rw [List.append_nil] at hread
  obtain ⟨htree, hrest⟩ := Prod.mk.inj hread
  rw [read, if_neg (by rw [List.isEmpty_iff]; exact ne_nil_of_spells h)]
  dsimp only
  rw [hrest, htree]

/-- What spells no formula has an error. -/
theorem fails_read (h : Formula.HasIntegers ts) (hspells : ∀ f, ¬Formula.Spells .any ts f) :
    Fails (read ts) := by
  rw [read]
  split
  · exact fails_fault _ _
  · rcases (isRead_conditional ts).readsFormulas h with ⟨front, f, hts, hf, htree⟩ | hfails
    · have htree : (readConditional ts).tree = f.toExpr := htree
      dsimp only
      split
      · rename_i hrest
        have hts : ts = front ++ (readConditional ts).rest := hts
        rw [hrest, List.append_nil] at hts
        exact absurd (hts ▸ hf) (hspells f)
      · rw [htree]
        exact fails_broken f _ _
    · dsimp only
      split
      · exact hfails
      · exact hfails.broken _

end Expr

/-- **Expressions over the integers have the values of the formulas that they spell.**
Tokens whose constants are integers have a value exactly if they spell a formula that
has this value.  Where the formula has a fault, that fault is reported at its operator,
and tokens that spell no formula have an error.  The formula may be nested to any depth;
a limit on the depth of recursion is not modelled. -/
theorem eval_read_eq_ok_iff (ts : List Token) (h : Formula.HasIntegers ts) :
    (∀ v, (Expr.read ts).eval false = .ok v ↔
      ∃ f r, Formula.Spells .any ts f ∧ f.value = .ok r ∧ v = r.toValue) ∧
    (∀ f fault offset, Formula.Spells .any ts f → f.value = .error (fault, offset) →
      ∃ e, (Expr.read ts).eval false = .error (.error e) ∧
        e.problem = { message := fault.message, code := .badCondition, offset := some offset }) ∧
    ((∀ f, ¬Formula.Spells .any ts f) → ∃ e, (Expr.read ts).eval false = .error (.error e)) := by
  have hvalue {f : Formula} (hf : Formula.Spells .any ts f) :
      (Expr.read ts).eval false = Formula.result f.value := by
    rw [Expr.read_of_spells hf, Formula.eval_toExpr]
  refine ⟨fun v => ⟨fun hv => ?_, ?_⟩, ?_, fun hspells => Expr.fails_read h hspells false⟩
  · by_cases hspells : ∃ f, Formula.Spells .any ts f
    · obtain ⟨f, hf⟩ := hspells
      rw [hvalue hf] at hv
      cases hr : f.value with
      | ok r =>
        rw [hr] at hv
        exact ⟨f, r, hf, hr, (Except.ok.inj hv).symm⟩
      | error e =>
        rw [hr] at hv
        cases hv
    · obtain ⟨e, he⟩ := Expr.fails_read h (fun f hf => hspells ⟨f, hf⟩) false
      rw [he] at hv
      cases hv
  · rintro ⟨f, r, hf, hr, rfl⟩
    rw [hvalue hf, hr]
    rfl
  · intro f fault offset hf hfault
    refine ⟨_, by rw [hvalue hf, hfault]; rfl, ?_⟩
    rw [ExpressionError.problem, Formula.Fault.message_cause]

/-- What may stand on a row may stand on every looser one. -/
theorem Formula.Spells.loosen {m n : Nat} {ts : List Token} {f : Formula}
    (h : Spells (.row n) ts f) (hmn : m ≤ n) (hn : n ≤ 10) : Spells (.row m) ts f := by
  induction n with
  | zero =>
    obtain rfl := Nat.le_zero.1 hmn
    exact h
  | succ n ih =>
    rcases Nat.lt_or_eq_of_le hmn with hlt | rfl
    · exact ih (.tighter hn h) (Nat.le_of_lt_succ hlt) (Nat.le_of_succ_le hn)
    · exact h

/-- The tokens of `0x1 ? 'A' : 3 / 0`. -/
def choiceTokens : List Token :=
  [⟨.number, ['0', 'x', '1'], 0⟩, ⟨.punctuator, ['?'], 4⟩, ⟨.charConst, ['\'', 'A', '\''], 6⟩,
    ⟨.punctuator, [':'], 10⟩, ⟨.number, ['3'], 12⟩, ⟨.punctuator, ['/'], 14⟩, ⟨.number, ['0'], 16⟩]

/-- A division by zero on the side that is not chosen. -/
theorem eval_read_choiceTokens :
    Formula.HasIntegers choiceTokens ∧ (Expr.read choiceTokens).eval false = .ok (.int 65) := by
  have hintegers : Formula.HasIntegers choiceTokens := by
    simp only [Formula.HasIntegers, choiceTokens, List.forall_mem_cons]
    refine ⟨⟨fun _ => ⟨1, rfl⟩, nofun⟩, ⟨nofun, nofun⟩, ⟨nofun, fun _ => ⟨65, rfl⟩⟩, ⟨nofun, nofun⟩,
      ⟨fun _ => ⟨3, rfl⟩, nofun⟩, ⟨nofun, nofun⟩, ⟨fun _ => ⟨0, rfl⟩, nofun⟩, nofun⟩
  have hc : Formula.Spells (.row 0) [⟨.number, ['0', 'x', '1'], 0⟩] (.constant 1) :=
    .loosen (.number rfl rfl) (by omega) (by omega)
  have ht : Formula.Spells (.row 0) [⟨.charConst, ['\'', 'A', '\''], 6⟩] (.constant 65) :=
    .loosen (.character rfl rfl) (by omega) (by omega)
  have he : Formula.Spells (.row 9)
      ([⟨.number, ['3'], 12⟩] ++ ⟨.punctuator, ['/'], 14⟩ :: [⟨.number, ['0'], 16⟩])
      (.binary .div 14 (.constant 3) (.constant 0)) :=
    .operation (s := "/") rfl (by decide) (by decide) (.tighter (by omega) (.number rfl rfl))
      (.number rfl rfl)
  have hspells : Formula.Spells .any choiceTokens
      (.conditional (.constant 1) (.constant 65) (.binary .div 14 (.constant 3) (.constant 0))) :=
    .choice hc (by decide) (.loosest ht) (by decide) (.loosest (he.loosen (by omega) (by omega)))
  exact ⟨hintegers, ((eval_read_eq_ok_iff choiceTokens hintegers).1 (.int 65)).2
    ⟨_, .number 65, hspells, rfl, rfl⟩⟩

end DevicetreePrep
