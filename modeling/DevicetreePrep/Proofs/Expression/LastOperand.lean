/-
# Operands that cannot be read

A constant without a value is no operand.  The reader does not pass over it: there is a fault in
the tree, or the token is left (`Expr.IsRead.notices`).  All operands are evaluated, also those
that do not count, so a tree with a fault has no value (`Expr.eval_ne_ok`).

A token may be gone before the reader comes to it, in a question whether a name is defined or in
an argument that is not used.  That does not happen to a character constant at the end of an
expression.  No such question ends with it (`Expression.getLast?_of_answerDefined`), and no call
does, because a call ends with a bracket (`Expansion.mem_expandFrom`).  So an expression that ends
with a character constant without a value has no value (`Expression.evaluate_ne_ok`).
-/

import DevicetreePrep.Expression
import DevicetreePrep.Proofs.Expansion.Anchors
import DevicetreePrep.Proofs.Expression.Failure

namespace DevicetreePrep

/-! Operands that cannot be read. -/

/-- The token is no punctuator, and no operand that can be read. -/
structure Token.IsBadOperand (t : Token) : Prop where
  kind : t.kind ≠ .punctuator
  operand : ∃ f, Expr.operandOf t = .fault f

theorem Token.IsBadOperand.isPunct {t : Token} (h : t.IsBadOperand) (s : Text) :
    t.isPunct s = false := by
  rw [Token.isPunct, decide_eq_false h.kind, Bool.false_and]

/-- A bad operand is no punctuator, so it stands behind one that comes first. -/
theorem Token.IsBadOperand.mem_of_mem_cons {t u : Token} {s : Text} {rest : List Token}
    (h : t.IsBadOperand) (hu : u.isPunct s = true) (hmem : t ∈ u :: rest) : t ∈ rest := by
  refine (List.mem_cons.1 hmem).resolve_left ?_
  rintro rfl
  rw [h.isPunct] at hu
  cases hu

/-- A character constant without a value is a bad operand. -/
theorem Token.isBadOperand_of_character {t : Token} (hkind : t.kind = .charConst)
    (h : Literal.character? t.text = none) : t.IsBadOperand := by
  refine ⟨by rw [hkind]; decide, .error ⟨.badCharacter t.text, some t.offset⟩, ?_⟩
  simp only [Expr.operandOf, hkind, Literal.character, h]
  rfl

namespace Expr

/-- Whether there is a fault in a tree. -/
def hasFault : Expr → Bool
  | literal _ => false
  | fault _ => true
  | broken .. => true
  | unary _ _ e => e.hasFault
  | binary _ _ l r => l.hasFault || r.hasFault
  | conditional c t e => c.hasFault || t.hasFault || e.hasFault

/-- **A tree with a fault has no value**: all operands are evaluated, also those that do not
count. -/
theorem eval_ne_ok {e : Expr} (h : e.hasFault = true) (discarded : Bool) (v : Value) :
    e.eval discarded ≠ .ok v := by
  intro hv
  induction e generalizing discarded v with
  | literal => cases h
  | fault f => cases hv
  | broken e f =>
    rw [eval] at hv
    obtain ⟨_, -, hf⟩ := bind_eq_ok_iff.1 hv
    cases hf
  | unary op offset e ih =>
    rw [eval] at hv
    obtain ⟨a, ha, -⟩ := bind_eq_ok_iff.1 hv
    exact ih h _ a ha
  | binary op offset l r ihl ihr =>
    rw [eval_binary] at hv
    obtain ⟨a, ha, hv⟩ := bind_eq_ok_iff.1 hv
    obtain ⟨b, hb, -⟩ := bind_eq_ok_iff.1 hv
    rcases Bool.or_eq_true_iff.1 h with hl | hr
    · exact ihl hl _ a ha
    · exact ihr hr _ b hb
  | conditional c t e ihc iht ihe =>
    rw [eval] at hv
    obtain ⟨u, hu, hv⟩ := bind_eq_ok_iff.1 hv
    obtain ⟨a, ha, hv⟩ := bind_eq_ok_iff.1 hv
    obtain ⟨b, hb, -⟩ := bind_eq_ok_iff.1 hv
    rcases Bool.or_eq_true_iff.1 h with h | he
    · rcases Bool.or_eq_true_iff.1 h with hc | ht
      · exact ihc hc _ u hu
      · exact iht ht _ a ha
    · exact ihe he _ b hb

variable {t : Token} {ts : List Token}

theorem hasFault_withoutColon (c e : Expr) (ts : List Token) :
    (withoutColon c e ts).hasFault = true :=
  Bool.or_eq_true_iff.2 (.inr rfl)

/-- A group notices the token where its expression does. -/
theorem notices_closeGroup {e : Expr} {behind : List Token} (h : t.IsBadOperand)
    (hinner : e.hasFault = true ∨ t ∈ behind) :
    (closeGroup e behind).1.hasFault = true ∨ t ∈ (closeGroup e behind).2 := by
  cases behind with
  | nil => exact .inl rfl
  | cons u rest =>
    rw [closeGroup]
    split
    · rename_i hu
      exact hinner.imp_right (h.mem_of_mem_cons hu)
    · exact .inl rfl

/-- An operand by itself is noticed if it is bad, and what stands behind it is left. -/
theorem notices_passOperand {u : Token} {rest : List Token} (h : t.IsBadOperand)
    (hmem : t ∈ u :: rest) : (passOperand rest (operandOf u)).1.hasFault = true ∨
      t ∈ (passOperand rest (operandOf u)).2 := by
  rcases List.mem_cons.1 hmem with rfl | hmem
  · obtain ⟨f, hf⟩ := h.operand
    rw [hf]
    exact .inl rfl
  · cases operandOf u with
    | fault f => exact .inl rfl
    | _ => exact .inr hmem

/-- **No rule passes over an operand that cannot be read**: if the token is among those that are
read, or there is a fault in what was read before, then there is a fault in the tree or the token
is left. -/
theorem IsRead.notices {f : Reader} {r : Expr × List Token} (h : IsRead f ts r)
    (hbad : t.IsBadOperand) (hmem : f.left?.any hasFault = true ∨ t ∈ ts) :
    r.1.hasFault = true ∨ t ∈ r.2 := by
  have hnone {xs : List Token} (hmem : false = true ∨ t ∈ xs) : t ∈ xs :=
    hmem.resolve_left Bool.false_ne_true
  induction h with
  | alone _ _ ih => exact ih hmem
  | choice _ hq _ hs _ ihc iht ihe =>
    rcases ihc hmem with hfault | hrest
    · exact .inl (Bool.or_eq_true_iff.2 (.inl (Bool.or_eq_true_iff.2 (.inl hfault))))
    · rcases iht (.inr (hbad.mem_of_mem_cons hq hrest)) with hfault | hrest
      · exact .inl (Bool.or_eq_true_iff.2 (.inl (Bool.or_eq_true_iff.2 (.inr hfault))))
      · rcases ihe (.inr (hbad.mem_of_mem_cons hs hrest)) with hfault | hrest
        · exact .inl (Bool.or_eq_true_iff.2 (.inr hfault))
        · exact .inr hrest
  | withoutColon => exact .inl (hasFault_withoutColon ..)
  | tighter _ _ _ ihl ihr => exact ihr (ihl hmem)
  | tightest _ ih => exact ih hmem
  | ended => exact hmem
  | operator hop _ _ ihe ihr =>
    obtain ⟨-, s, -, -, hu⟩ := exists_of_operatorAt? hop
    rcases hmem with hfault | hmem
    · exact ihr (.inl (Bool.or_eq_true_iff.2 (.inl hfault)))
    · rcases ihe (.inr (hbad.mem_of_mem_cons hu hmem)) with hfault | hrest
      · exact ihr (.inl (Bool.or_eq_true_iff.2 (.inr hfault)))
      · exact ihr (.inr hrest)
  | nothing => exact .inl rfl
  | sign hop _ ih =>
    obtain ⟨s, -, hu⟩ := exists_of_unaryOperator? hop
    exact ih (.inr (hbad.mem_of_mem_cons hu (hnone hmem)))
  | group hgroup _ ih =>
    exact notices_closeGroup hbad (ih (.inr (hbad.mem_of_mem_cons hgroup (hnone hmem))))
  | operand => exact notices_passOperand hbad (hnone hmem)

/-- **An expression with an operand that cannot be read has no value.** -/
theorem eval_read_ne_ok (h : t.IsBadOperand) (hmem : t ∈ ts) (v : Value) :
    (read ts).eval false ≠ .ok v := by
  refine eval_ne_ok ?_ false v
  rw [read]
  split
  · rfl
  · dsimp only
    split
    · rename_i hrest
      refine ((isRead_conditional ts).notices h (.inr hmem)).resolve_right fun hleft => ?_
      change t ∈ (readConditional ts).rest at hleft
      rw [hrest] at hleft
      cases hleft
    · rfl

end Expr

/-! The last token of an expression. -/

/-- The token is a character constant. -/
structure Token.IsCharacter (t : Token) : Prop where
  kind : t.kind = .charConst
  quote : '\'' ∈ t.text

namespace Token.IsCharacter

variable {t : Token} (h : t.IsCharacter)
include h

theorem isIdent : t.isIdent = false := by
  rw [Token.isIdent, h.kind]
  rfl

theorem isWhite : t.isWhite = false := by
  rw [Token.isWhite, h.kind]
  rfl

theorem isPunct (s : Text) : t.isPunct s = false := by
  rw [Token.isPunct, h.kind]
  rfl

/-- A character constant is spelled by no single character but a quote. -/
theorem text_ne {c : Char} (hc : c ≠ '\'') : t.text ≠ [c] := by
  intro htext
  have hquote := h.quote
  rw [htext, List.mem_singleton] at hquote
  exact hc hquote.symm

/-- A character constant is no name. -/
theorem ne_of_isIdent {u : Token} (hu : u.isIdent = true) : t ≠ u := by
  rintro rfl
  rw [h.isIdent] at hu
  cases hu

end Token.IsCharacter

/-- Behind another member stands the last one. -/
theorem getLast?_of_dropWhile {α : Type} {p : α → Bool} {xs rest : List α} {x y : α}
    (h : xs.dropWhile p = y :: rest) (hlast : xs.getLast? = some x) (hne : x ≠ y) :
    rest.getLast? = some x := by
  obtain ⟨front, rfl⟩ : y :: rest <:+ xs := h ▸ List.dropWhile_suffix p
  rw [List.getLast?_append_of_ne_nil _ (List.cons_ne_nil _ _)] at hlast
  cases rest with
  | nil => exact absurd (Option.some.inj hlast).symm hne
  | cons z zs => rwa [List.getLast?_cons_cons] at hlast

namespace Expression

variable {t : Token} {ts : List Token}

/-- A question whether a name is defined leaves a character constant at the end. -/
theorem getLast?_of_definedName? {rest : List Token} {name : Text} (h : t.IsCharacter)
    (hname : definedName? ts = some (name, rest)) (hlast : ts.getLast? = some t) :
    rest.getLast? = some t := by
  unfold definedName? at hname
  split at hname
  · cases hname
  · rename_i u behind hu
    split at hname
    · rename_i hident
      obtain ⟨-, rfl⟩ := Prod.mk.inj (Option.some.inj hname)
      exact getLast?_of_dropWhile hu hlast (h.ne_of_isIdent hident)
    · split at hname
      · rename_i hopening
        have hlast := getLast?_of_dropWhile hu hlast
          fun htu => h.text_ne (by decide) (htu ▸ hopening)
        split at hname
        · cases hname
        · rename_i n afterN hn
          split at hname
          · rename_i hident
            have hlast := getLast?_of_dropWhile hn hlast (h.ne_of_isIdent hident)
            split at hname
            · cases hname
            · rename_i c afterC hc
              split at hname
              · rename_i hclosing
                obtain ⟨-, rfl⟩ := Prod.mk.inj (Option.some.inj hname)
                exact getLast?_of_dropWhile hc hlast
                  fun htc => h.text_ne (by decide) (htc ▸ hclosing)
              · cases hname
          · cases hname
      · cases hname

/-- **No question whether a name is defined takes up a character constant** at the end of an
expression. -/
theorem getLast?_of_answerDefined {table : Table} {answered : List Token} (h : t.IsCharacter)
    (hanswered : answerDefined table ts = .ok answered) (hlast : ts.getLast? = some t) :
    answered.getLast? = some t := by
  fun_induction answerDefined table ts generalizing answered with
  | case1 => cases hlast
  | case2 u rest hu hnone => cases hanswered
  | case3 u rest hu name rest' hname text =>
    rename_i ih
    have hne : t ≠ u := h.ne_of_isIdent (Bool.and_eq_true_iff.1 hu).1
    have hlast := getLast?_of_definedName? h hname
      (getLast?_of_dropWhile (p := fun _ => false) rfl hlast hne)
    cases hrest : answerDefined table rest' with
    | error e =>
      rw [hrest] at hanswered
      cases hanswered
    | ok us =>
      rw [hrest] at hanswered
      obtain rfl := Except.ok.inj hanswered
      rw [List.getLast?_cons, ih hrest hlast]
      rfl
  | case4 u rest hu ih =>
    cases hrest : answerDefined table rest with
    | error e =>
      rw [hrest] at hanswered
      cases hanswered
    | ok us =>
      rw [hrest] at hanswered
      obtain rfl := Except.ok.inj hanswered
      cases rest with
      | nil =>
        rw [answerDefined] at hrest
        obtain rfl := Except.ok.inj hrest
        exact hlast
      | cons w ws =>
        rw [List.getLast?_cons_cons] at hlast
        rw [List.getLast?_cons, ih hrest hlast]
        rfl

end Expression

namespace Expansion

variable {last : Item}

/-- The last item of a list is among the first `n` or the last one behind them. -/
theorem mem_take_or_getLast?_drop {is : List Item} (h : is.getLast? = some last) (n : Nat) :
    last ∈ is.take n ∨ (is.drop n).getLast? = some last := by
  rw [List.getLast?_drop]
  split
  · rename_i hn
    rw [List.take_of_length_le hn]
    exact .inl (List.mem_of_getLast? h)
  · exact .inr h

/-- A replacement does not take up the last item, unless that is a closing bracket. -/
theorem getLast?_drop_of_invoke {ctx : Context} {expand : Expander} {budget : Int} {counter : Nat}
    {d : Definition} {i : Item} {tail : List Item} {size : Nat} {new : List Item} {e : Event}
    {spent counter' : Nat} {reports : List Report} (hpunct : last.isPunct [')'] = false)
    (hinvoke : invoke ctx expand budget counter d i tail = .replace size new e spent counter' reports)
    (h : tail.getLast? = some last) : (tail.drop size).getLast? = some last := by
  rcases (taken_of_invoke hinvoke).2 with rfl | ⟨front, close, htake, hclose⟩
  · exact h
  · rw [List.getLast?_drop]
    split
    · rename_i hsize
      rw [List.take_of_length_le hsize] at htake
      rw [htake, List.getLast?_concat] at h
      obtain rfl := Option.some.inj h
      rw [hclose] at hpunct
      cases hpunct
    · exact h

/-- **The last item of a line goes to the output**, if it is not replaced and no call ends with
it. -/
theorem mem_expandFrom {ctx : Context} {expand : Expander} {budget : Int} {done : Outcome}
    {pending : List Item} (hident : last.token.isIdent = false) (hpunct : last.isPunct [')'] = false)
    (h : last ∈ done.items ∨ pending.getLast? = some last) :
    last ∈ (expandFrom ctx expand budget done pending).items := by
  have hpass (front : List Item) {done behind : List Item}
      (h : last ∈ done ∨ (front ++ behind).getLast? = some last) :
      last ∈ front.reverse ++ done ∨ behind.getLast? = some last := by
    rcases h with hdone | hlast
    · exact .inl (List.mem_append_right _ hdone)
    · refine (mem_take_or_getLast?_drop hlast front.length).imp (fun hfront => ?_) fun hbehind => ?_
      · rw [List.take_left] at hfront
        exact List.mem_append_left _ (List.mem_reverse.2 hfront)
      · rwa [List.drop_left] at hbehind
  fun_induction expandFrom ctx expand budget done pending with
  | case1 budget done => exact List.mem_reverse.2 (h.resolve_right (Option.some_ne_none _).symm)
  | case2 budget done i tail hi ih => exact ih (hpass [i] h)
  | case3 budget done i tail d hd hbudget size reports hinvoke ih =>
    refine ih (hpass (i :: tail.take size) ?_)
    rwa [List.cons_append, List.take_append_drop]
  | case4 budget done i tail d hd hbudget size new e spent counter reports hinvoke ih =>
    refine ih ((hpass [i] h).imp (fun hmem => ?_) fun htail => ?_)
    · refine (List.mem_cons.1 hmem).resolve_left ?_
      rintro rfl
      rw [isIdent_of_candidate? hd] at hident
      cases hident
    · rw [List.getLast?_append, getLast?_drop_of_invoke hpunct hinvoke htail]
      rfl
  | case5 done i tail d hd _ ih => exact ih (hpass [i] h)
  | case6 budget done i tail d hd _ _ ih => exact ih (hpass [i] h)

end Expansion

/-- **Expansion leaves a character constant at the end of a line in it.** -/
theorem mem_tokens_expandTokens {t : Token} {ts : List Token} (h : t.IsCharacter)
    (hlast : ts.getLast? = some t) (ctx : Expansion.Context) (counter : Nat) :
    t ∈ (expandTokens ctx counter ts).tokens := by
  rw [← Expansion.Item.map_token_ofTokens ts, List.getLast?_map, Option.map_eq_some_iff] at hlast
  obtain ⟨i, hlast, rfl⟩ := hlast
  refine List.mem_map_of_mem ?_
  exact Expansion.mem_expandFrom h.isIdent (h.isPunct _) (.inr hlast)

namespace Expression

/-- **An expression that ends with a character constant that cannot be read has no value**, whatever
is defined. -/
theorem evaluate_ne_ok {t : Token} {ts : List Token} (hcharacter : t.IsCharacter)
    (hbad : t.IsBadOperand) (hlast : ts.getLast? = some t) (ctx : Expansion.Context) (counter : Nat)
    (v : Value) : (evaluate ctx counter ts).result ≠ .ok v := by
  rw [evaluate]
  split
  · intro hv
    cases hv
  · rename_i answered hanswered
    have hlast := getLast?_of_answerDefined hcharacter hanswered hlast
    refine Expr.eval_read_ne_ok hbad (List.mem_filter.2 ⟨?_, ?_⟩) v
    · exact mem_tokens_expandTokens hcharacter hlast ctx counter
    · rw [hcharacter.isWhite]
      rfl

end Expression
end DevicetreePrep
