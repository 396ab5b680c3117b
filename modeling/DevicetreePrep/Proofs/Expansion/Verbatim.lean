/-
# Objects that are replaced word for word

An object takes no arguments, so in its replacement only `##` has a meaning of its
own.  If there is none, the replacement is read as tokens that stand for themselves
(`parts_of_isVerbatim`), nothing is pasted (`pasteAll_pieces`), and nothing is dropped,
as every token that was read from a text spells something.  So the name is replaced by
the tokens of the definition, each with the name hidden in it and with the names that
were hidden before (`invoke_of_isVerbatim`).
-/

import DevicetreePrep.Definition.Reading
import DevicetreePrep.Expansion
import DevicetreePrep.Proofs.Expansion.Templates
import DevicetreePrep.Proofs.Token.Trimming

namespace DevicetreePrep

/-- In the mode of white space, a gap that covers something spells something. -/
theorem Gap.text_ne_nil {here : Nat} {t : Text} (h : (Gap.read here t).width ≠ 0) :
    (Gap.read here t).text ≠ [] := by
  rw [Gap.read] at h ⊢
  unfold Gap.readIn at h ⊢
  split
  · exact List.cons_ne_nil _ _
  · exact List.cons_ne_nil _ _
  · split
    · exact List.cons_ne_nil _ _
    · simp_all
  all_goals simp_all

/-- A token that is read from a text spells something. -/
theorem Lexeme.text_ne_nil (here : Nat) (c : Char) (cs : Text) : (read here c cs).text ≠ [] := by
  unfold read
  dsimp only
  split
  · rename_i hwidth
    exact Gap.text_ne_nil hwidth
  · split
    · rename_i l hl
      obtain ⟨⟨before, quote⟩, -, rfl⟩ := Option.map_eq_some_iff.1 hl
      dsimp only
      rw [Nat.add_right_comm, List.take_succ_cons]
      exact List.cons_ne_nil _ _
    · split
      · exact List.cons_ne_nil _ _
      · split
        · exact List.cons_ne_nil _ _
        · unfold punctuatorWidth
          dsimp only
          split
          · exact List.cons_ne_nil _ _
          · split <;> exact List.cons_ne_nil _ _

/-- A token of a text was read at some place of it. -/
theorem exists_read_of_mem_tokenizeFrom {here : Nat} {text : Text} {t : Token}
    (h : t ∈ tokenizeFrom here text) :
    ∃ here c cs, t = ⟨(Lexeme.read here c cs).kind, (Lexeme.read here c cs).text, here⟩ := by
  fun_induction tokenizeFrom here text with
  | case1 => cases h
  | case2 here c cs l ih =>
    rcases List.mem_cons.1 h with rfl | h
    · exact ⟨here, c, cs, rfl⟩
    · exact ih h

/-- No token that is read is empty. -/
theorem text_ne_nil_of_mem_tokenizeFrom {here : Nat} {text : Text} {t : Token}
    (h : t ∈ tokenizeFrom here text) : t.text ≠ [] := by
  obtain ⟨here, c, cs, rfl⟩ := exists_read_of_mem_tokenizeFrom h
  exact Lexeme.text_ne_nil here c cs

namespace Definition

/-- An object whose replacement is put in word for word. -/
structure IsVerbatim (d : Definition) : Prop where
  shape_eq : d.shape = .object
  spelled : ∀ t ∈ d.body, t.text ≠ []
  unpasted : ∀ t ∈ d.body, Expansion.isPaste t = false

/-- An object that was read, and that has no `##` in it. -/
theorem isVerbatim_of_read {d : Definition} {operand : Text} {file : Option String}
    {line : Option Int} (hread : read operand file line = .ok d) (hshape : d.shape = .object)
    (hpaste : ∀ t ∈ d.body, Expansion.isPaste t = false) : d.IsVerbatim := by
  refine ⟨hshape, ?_, hpaste⟩
  have hbody (replacement : Text) : ∀ t ∈ bodyOf replacement, t.text ≠ [] := fun t ht =>
    text_ne_nil_of_mem_tokenizeFrom (mem_of_mem_trimWhite ht)
  unfold read at hread
  split at hread
  · cases hread
  · split at hread
    · cases hread
    · rename_i inner _ _
      cases hparams : parametersOf inner with
      | error e =>
        rw [hparams] at hread
        cases hread
      | ok p =>
        rw [hparams] at hread
        obtain rfl := Except.ok.inj hread
        cases hshape
  · obtain rfl := Except.ok.inj hread
    exact hbody _

end Definition

namespace Expansion

variable {d : Definition}

/-- Without `##`, the tokens of an object stand for themselves. -/
theorem partsFrom_of_unpasted (hshape : d.shape = .object) {before : Option Token}
    {body : List Token} (hbefore : before.any isPaste = false)
    (hbody : ∀ t ∈ body, isPaste t = false) : partsFrom d before body = body.map Part.token := by
  have htakes (name : Text) : d.takes name = false := by
    rw [Definition.takes, hshape]
  induction body generalizing before with
  | nil => rw [partsFrom]; rfl
  | cons t ts ih =>
    have ht := hbody t (List.mem_cons_self ..)
    have hts : ∀ u ∈ ts, isPaste u = false := fun u hu => hbody u (List.mem_cons_of_mem _ hu)
    have hnext {q : Token × List Token → Bool} (hq : ∀ p, q p = isPaste p.1) :
        (significant? ts).any q = false := by
      cases hs : significant? ts with
      | none => rfl
      | some p => exact (hq p).trans (hts p.1 (mem_of_significant? hs))
    have hstring : stringized? d t ts = none := by
      rw [stringized?]
      split
      · simp [htakes]
      · rfl
    have htied : tied? d t ts = none := by
      rw [tied?]
      split
      · cases hs : significant? ts with
        | none => rfl
        | some p =>
          dsimp only
          rw [hts p.1 (mem_of_significant? hs)]
          rfl
      · rfl
    by_cases hwhite : t.isWhite = true
    · rw [partsFrom, hbefore, hnext fun _ => rfl, if_pos hwhite, Bool.or_self,
        if_neg Bool.false_ne_true, ih hbefore hts, List.map_cons]
    · have hrest : partsFrom d (some t) ts = ts.map Part.token := ih ht hts
      rw [partsFrom_of_none hwhite (Bool.eq_false_iff.1 ht) hstring htied, htakes, Bool.and_false,
        if_neg Bool.false_ne_true, hrest, List.map_cons]

/-- The parts of an object that is put in word for word. -/
theorem parts_of_isVerbatim (h : d.IsVerbatim) : parts d = d.body.map Part.token :=
  partsFrom_of_unpasted h.shape_eq rfl h.unpasted

/-- Tokens that stand for themselves are filled in as they are. -/
theorem foldl_step_tokens (expand : Expander) (budget : Int) (args : Arguments) (f : Filling)
    (ts : List Token) :
    (ts.map Part.token).foldl (Filling.step expand budget args) f =
      { f with entries := (ts.map fun t => Entry.piece ⟨t, []⟩).reverse ++ f.entries } := by
  induction ts generalizing f with
  | nil => rfl
  | cons t ts ih =>
    rw [List.map_cons, List.foldl_cons, ih]
    simp [Filling.step, Filling.add]

/-- Where nothing is to be pasted, pieces come out in their order. -/
theorem foldl_step_pieces (s : Pasting) (hs : s.pending = false) (ps : List Piece) :
    (ps.map Entry.piece).foldl Pasting.step s = { s with out := ps.reverse ++ s.out } := by
  induction ps generalizing s with
  | nil => rfl
  | cons p ps ih =>
    have hstep : s.step (.piece p) = { s with out := p :: s.out } := by
      rw [Pasting.step, hs]
    rw [List.map_cons, List.foldl_cons, hstep, ih { s with out := p :: s.out } hs]
    simp

/-- Without a paste operator among them, pieces stay as they are. -/
theorem pasteAll_pieces {ps : List Piece} (h : ∀ p ∈ ps, p.token.text ≠ []) :
    pasteAll (ps.map Entry.piece) = (ps, []) := by
  rw [pasteAll, foldl_step_pieces {} rfl]
  simp only [List.append_nil, List.reverse_reverse, Bool.false_eq_true, if_false, Prod.mk.injEq,
    and_true]
  refine List.filter_eq_self.2 fun p hp => ?_
  rw [Bool.not_eq_true', List.isEmpty_eq_false_iff]
  exact h p hp

theorem hideAlso_nil (names : List Text) : hideAlso [] names = names := by
  rw [hideAlso, List.append_nil]
  exact List.filter_eq_self.2 fun _ _ => rfl

/-- **An object is replaced by the tokens of its definition.** -/
theorem invoke_of_isVerbatim (h : d.IsVerbatim) (ctx : Context) (expand : Expander) (budget : Int)
    (counter : Nat) (i : Item) (tail : List Item) :
    invoke ctx expand budget counter d i tail =
      .replace 0 (d.body.map fun t =>
        { token := t, hidden := d.name :: i.hidden, span := i.span, produced := true })
        ⟨i.span, d⟩ 0 counter [] := by
  have hpaste : pasteAll (d.body.map fun t => Entry.piece ⟨t, []⟩) =
      (d.body.map fun t => ⟨t, []⟩, []) := by
    have hpieces : ∀ p ∈ d.body.map fun t => (⟨t, []⟩ : Piece), p.token.text ≠ [] := by
      intro p hp
      obtain ⟨t, ht, rfl⟩ := List.mem_map.1 hp
      exact h.spelled t ht
    have hpaste := pasteAll_pieces hpieces
    rwa [List.map_map] at hpaste
  rw [invoke, h.shape_eq]
  dsimp only
  rw [substitute, parts_of_isVerbatim h, foldl_step_tokens]
  simp only [List.append_nil, List.reverse_reverse, hpaste, List.map_map]
  simp [Item.spanOf, Piece.toItem, hideAlso_nil]

end Expansion
end DevicetreePrep
