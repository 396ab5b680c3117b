/-
# A text without comments is spelled by its tokens

Outside of comments the lexer and the reader of comments go through a text in the
same way: both know quotes, and both find a comment where two marks stand outside
of quotes.  So in a text that has no comment to be blanked out
(`Comment.IsFree`) every token is the stretch of the text that it covers, and
what follows it has no comment either (`Lexeme.read_of_isFree`).  The tokens then
spell the text (`render_tokenize`), and a token stands where the spelling of those
before it ends (`offset_of_getElem?_tokenize`).
-/

import DevicetreePrep.Comment
import DevicetreePrep.Token.Lexer

namespace DevicetreePrep

namespace Comment

/-- No comment stands in the text. -/
def IsFree (t : Text) : Prop :=
  maskIn .code t = t

instance (t : Text) : Decidable (IsFree t) :=
  inferInstanceAs (Decidable (maskIn .code t = t))

variable {c : Char} {t : Text}

theorem isFree_nil : IsFree [] := by
  rw [IsFree, maskIn]

theorem not_isFree_line : ¬IsFree ('/' :: '/' :: t) := by
  rw [IsFree, maskIn]
  exact fun h => absurd (List.cons.inj h).1 (by decide)

theorem not_isFree_block : ¬IsFree ('/' :: '*' :: t) := by
  rw [IsFree, maskIn]
  exact fun h => absurd (List.cons.inj h).1 (by decide)

/-- Behind a character that is no quote, a text without comments has none. -/
theorem IsFree.of_cons (h : IsFree (c :: t)) (hc : c ≠ '"' ∧ c ≠ '\'') : IsFree t := by
  rw [IsFree] at h
  unfold maskIn at h
  split at h <;> simp_all [IsFree]

/-- Without a comment in the text there is none behind some characters of it, if no quote is among
these. -/
theorem IsFree.drop (h : IsFree t) (n : Nat) (ht : ∀ c ∈ t.take n, c ≠ '"' ∧ c ≠ '\'') :
    IsFree (t.drop n) := by
  induction n generalizing t with
  | zero => exact h
  | succ n ih =>
    cases t with
    | nil => exact h
    | cons c t =>
      rw [List.take_succ_cons] at ht
      exact ih (h.of_cons (ht c (List.mem_cons_self ..))) fun d hd => ht d (List.mem_cons_of_mem _ hd)

/-- Behind its quoted part, a text without comments has none. -/
theorem isFree_drop_quotedWidth {quote : Char} (h : maskIn (.quoted quote) t = t) :
    IsFree (t.drop (Lexeme.quotedWidth quote t).1) := by
  fun_induction Lexeme.quotedWidth quote t with
  | case1 => exact isFree_nil
  | case2 d cs n closed hn ih =>
    rw [hn] at ih
    rw [maskIn] at h
    exact ih (List.cons.inj (List.cons.inj h).2).2
  | case3 cs hcs =>
    rw [maskIn, if_pos rfl] at h
    · exact (List.cons.inj h).2
    · exact hcs
  | case4 c cs hcs hc n closed hn ih =>
    rw [hn] at ih
    rw [maskIn, if_neg hc] at h
    · exact ih (List.cons.inj h).2
    · exact hcs

end Comment

/-- In a text without comments a gap is the white space at its front. -/
theorem Gap.read_of_isFree {t : Text} (h : Comment.IsFree t) (here : Nat) :
    Gap.read here t =
      { text := t.takeWhile isSpace, width := (t.takeWhile isSpace).length } := by
  rw [Gap.read]
  induction t generalizing here with
  | nil => rfl
  | cons c t ih =>
    by_cases hc : isSpace c
    · have hq : c ≠ '"' ∧ c ≠ '\'' := by
        constructor <;> rintro rfl <;> exact absurd hc (by decide)
      have hs : c ≠ '/' := by
        rintro rfl
        exact absurd hc (by decide)
      rw [Gap.readIn, if_pos hc, ih (h.of_cons hq), List.takeWhile_cons_of_pos hc]
      · simp [Gap.behind, Nat.add_comm]
      · rintro _ rfl
        exact absurd rfl hs
      · rintro _ rfl
        exact absurd rfl hs
    · -- two marks of a comment would have been blanked out
      rw [List.takeWhile_cons_of_neg hc]
      unfold Gap.readIn
      split
      · rename_i heq
        rw [heq] at h
        exact absurd h Comment.not_isFree_line
      · rename_i heq
        rw [heq] at h
        exact absurd h Comment.not_isFree_block
      · rename_i heq
        rw [← (List.cons.inj heq).1, if_neg hc]
        rfl
      all_goals contradiction

namespace Lexeme

/-- A quoted part ends within the text. -/
theorem quotedWidth_le (quote : Char) (t : Text) : (quotedWidth quote t).1 ≤ t.length := by
  fun_induction quotedWidth quote t with
  | case1 => exact Nat.le_refl _
  | case2 d cs n closed hn ih =>
    rw [hn] at ih
    simp only [List.length_cons]
    omega
  | case3 => simp
  | case4 c cs _ _ n closed hn ih =>
    rw [hn] at ih
    simp only [List.length_cons]
    omega

/-- A number ends within the text. -/
theorem numberWidth_le (t : Text) : numberWidth t ≤ t.length := by
  fun_induction numberWidth t <;> simp only [List.length_cons, List.length_nil] at * <;> omega

/-- A number is made of what may go on with a number, and of signs. -/
theorem isNumberPart_of_mem {t : Text} {c : Char} (h : c ∈ t.take (numberWidth t)) :
    isNumberPart c = true ∨ c = '+' ∨ c = '-' := by
  fun_induction numberWidth t with
  | case1 | case3 | case6 => cases h
  | case2 d hd =>
    obtain rfl := List.mem_singleton.1 h
    exact .inl hd
  | case4 d e cs hde ih =>
    simp only [isSignedExponent, Bool.and_eq_true, Bool.or_eq_true, decide_eq_true_eq] at hde
    rw [List.take_succ_cons, List.take_succ_cons, List.mem_cons, List.mem_cons] at h
    rcases h with rfl | rfl | h
    · rcases hde.1 with ((rfl | rfl) | rfl) | rfl <;> exact .inl (by decide)
    · exact .inr hde.2
    · exact ih h
  | case5 d e cs _ hd ih =>
    rw [List.take_succ_cons, List.mem_cons] at h
    rcases h with rfl | h
    · exact .inl hd
    · exact ih h

/-- A number has no quote in it. -/
theorem ne_quote_of_mem_number {t : Text} {c : Char} (h : c ∈ t.take (numberWidth t)) :
    c ≠ '"' ∧ c ≠ '\'' := by
  rcases isNumberPart_of_mem h with hc | rfl | rfl
  · constructor <;> rintro rfl <;> exact absurd hc (by decide)
  · decide
  · decide

/-- A literal starts with a quote behind at most two letters. -/
theorem exists_of_literalStart? {t : Text} {before : Nat} {quote : Char}
    (h : literalStart? t = some (before, quote)) :
    ∃ letters rest, t = letters ++ quote :: rest ∧ letters.length = before ∧
      (quote = '"' ∨ quote = '\'') ∧ ∀ c ∈ letters, c ≠ '"' ∧ c ≠ '\'' := by
  unfold literalStart? at h
  split at h
  · obtain ⟨rfl, rfl⟩ := Prod.mk.inj (Option.some.inj h)
    exact ⟨[], _, rfl, rfl, .inl rfl, by simp⟩
  · obtain ⟨rfl, rfl⟩ := Prod.mk.inj (Option.some.inj h)
    exact ⟨[], _, rfl, rfl, .inr rfl, by simp⟩
  · obtain ⟨rfl, rfl⟩ := Prod.mk.inj (Option.some.inj h)
    exact ⟨['u', '8'], _, rfl, rfl, .inl rfl, by simp⟩
  · rename_i p rest _ _
    split at h
    · obtain ⟨rfl, rfl⟩ := Prod.mk.inj (Option.some.inj h)
      refine ⟨[p], rest, rfl, rfl, .inl rfl, ?_⟩
      simp_all
    · cases h
  · rename_i p rest _ _
    split at h
    · obtain ⟨rfl, rfl⟩ := Prod.mk.inj (Option.some.inj h)
      refine ⟨[p], rest, rfl, rfl, .inr rfl, ?_⟩
      simp_all
    · cases h
  · cases h

/-- A literal is the stretch of the text that it covers, and behind it a text without
comments has none. -/
theorem literal?_of_isFree {here : Nat} {t : Text} {l : Lexeme} (h : Comment.IsFree t)
    (hl : literal? here t = some l) :
    l.text = t.take l.width ∧ l.width ≤ t.length ∧ Comment.IsFree (t.drop l.width) := by
  obtain ⟨⟨before, quote⟩, hstart, rfl⟩ := Option.map_eq_some_iff.1 hl
  obtain ⟨letters, rest, rfl, rfl, hquote, hletters⟩ := exists_of_literalStart? hstart
  have hdrop (n : Nat) : (letters ++ quote :: rest).drop (letters.length + 1 + n) = rest.drop n := by
    rw [Nat.add_assoc, ← List.drop_drop, List.drop_left, Nat.add_comm, List.drop_succ_cons]
  have hquoted : Comment.maskIn (.quoted quote) rest = rest := by
    have hfree := h.drop letters.length (by rwa [List.take_left])
    rw [List.drop_left, Comment.IsFree] at hfree
    rcases hquote with rfl | rfl <;> simpa [Comment.maskIn] using hfree
  refine ⟨rfl, ?_, ?_⟩
  · have hwidth := quotedWidth_le quote rest
    have h0 := hdrop 0
    rw [Nat.add_zero, List.drop_zero] at h0
    simp only [h0, List.length_append, List.length_cons]
    omega
  · have h0 := hdrop 0
    rw [Nat.add_zero, List.drop_zero] at h0
    simp only [h0, hdrop]
    exact Comment.isFree_drop_quotedWidth hquoted

/-- A punctuator ends within the text. -/
theorem punctuatorWidth_le (c : Char) (cs : Text) : punctuatorWidth (c :: cs) ≤ (c :: cs).length := by
  have htriples : ∀ p ∈ triples, p.length = 3 := by decide
  have hpairs : ∀ p ∈ pairs, p.length = 2 := by decide
  unfold punctuatorWidth
  split
  · rename_i h
    have := htriples _ (List.contains_iff_mem.1 h)
    rw [List.length_take] at this
    omega
  · split
    · rename_i h
      have := hpairs _ (List.contains_iff_mem.1 h)
      rw [List.length_take] at this
      omega
    · simp

/-- A punctuator is a single character or one of those with several. -/
theorem punctuator_cases (c : Char) (cs : Text) :
    (c :: cs).take (punctuatorWidth (c :: cs)) = [c] ∨
      (c :: cs).take (punctuatorWidth (c :: cs)) ∈ triples ++ pairs := by
  unfold punctuatorWidth
  split
  · rename_i h
    exact .inr (List.mem_append_left _ (List.contains_iff_mem.1 h))
  · split
    · rename_i h
      exact .inr (List.mem_append_right _ (List.contains_iff_mem.1 h))
    · exact .inl rfl

/-- A punctuator has no quote in it, if none stands at its front. -/
theorem ne_quote_of_mem_punctuator {c d : Char} {cs : Text} (hc : c ≠ '"' ∧ c ≠ '\'')
    (h : d ∈ (c :: cs).take (punctuatorWidth (c :: cs))) : d ≠ '"' ∧ d ≠ '\'' := by
  have hlong : ∀ p ∈ triples ++ pairs, ∀ d ∈ p, d ≠ '"' ∧ d ≠ '\'' := by
    simp [triples, pairs]
  rcases punctuator_cases c cs with hshort | hmem
  · rw [hshort, List.mem_singleton] at h
    exact h ▸ hc
  · exact hlong _ hmem d h

/-- Where no literal starts, no quote stands. -/
theorem ne_quote_of_literal?_eq_none {here : Nat} {c : Char} {cs : Text}
    (h : literal? here (c :: cs) = none) : c ≠ '"' ∧ c ≠ '\'' := by
  constructor <;> rintro rfl <;> simp [literal?, literalStart?] at h

/-- **A token of a text without comments** is the stretch of the text that it
covers, and no comment stands in what follows it. -/
theorem read_of_isFree {c : Char} {cs : Text} (h : Comment.IsFree (c :: cs)) (here : Nat) :
    (read here c cs).text = (c :: cs).take (read here c cs).width ∧
      (read here c cs).width ≤ (c :: cs).length ∧
      Comment.IsFree ((c :: cs).drop (read here c cs).width) := by
  rw [read, Gap.read_of_isFree h]
  dsimp only
  split
  · have hprefix := List.takeWhile_prefix isSpace (l := c :: cs)
    have htake := List.prefix_iff_eq_take.1 hprefix
    refine ⟨htake, hprefix.length_le, h.drop _ fun d hd => ?_⟩
    rw [← htake] at hd
    have hspace := List.all_eq_true.1 List.all_takeWhile d hd
    constructor <;> rintro rfl <;> exact absurd hspace (by decide)
  · split
    · rename_i l hl
      exact literal?_of_isFree h hl
    · rename_i hl
      have hc := ne_quote_of_literal?_eq_none (Option.eq_none_iff_forall_not_mem.2 hl)
      split
      · have hwidth := numberWidth_le cs
        refine ⟨(List.take_succ_cons ..).symm, by simp only [List.length_cons]; omega, ?_⟩
        exact (h.of_cons hc).drop _ fun d => ne_quote_of_mem_number
      · split
        · have hprefix := List.takeWhile_prefix isWordChar (l := cs)
          have htake := List.prefix_iff_eq_take.1 hprefix
          refine ⟨?_, Nat.succ_le_succ hprefix.length_le, (h.of_cons hc).drop _ fun d hd => ?_⟩
          · rw [List.take_succ_cons, ← htake]
          · rw [← htake] at hd
            have hword := List.all_eq_true.1 List.all_takeWhile d hd
            constructor <;> rintro rfl <;> exact absurd hword (by decide)
        · exact ⟨rfl, punctuatorWidth_le c cs, h.drop _ fun d => ne_quote_of_mem_punctuator hc⟩

end Lexeme

theorem render_cons (t : Token) (ts : List Token) : render (t :: ts) = t.text ++ render ts :=
  List.flatMap_cons

theorem render_append (ts us : List Token) : render (ts ++ us) = render ts ++ render us :=
  List.flatMap_append

/-- The tokens of a text without comments spell the text, and each of them stands
where the spelling of those before it ends. -/
theorem render_tokenizeFrom {t : Text} (h : Comment.IsFree t) (here : Nat) :
    render (tokenizeFrom here t) = t ∧
      ∀ k tok, (tokenizeFrom here t)[k]? = some tok →
        tok.offset = here + (render ((tokenizeFrom here t).take k)).length := by
  fun_induction tokenizeFrom here t with
  | case1 => exact ⟨rfl, by simp⟩
  | case2 here c cs l ih =>
    obtain ⟨htext, hwidth, hfree⟩ := Lexeme.read_of_isFree h here
    obtain ⟨hrender, hoffset⟩ := ih hfree
    have hlength : l.text.length = l.width := by
      rw [htext, List.length_take, Nat.min_eq_left hwidth]
    constructor
    · rw [render_cons, hrender]
      dsimp only
      rw [htext, List.take_append_drop]
    · intro k tok hk
      cases k with
      | zero =>
        obtain rfl := Option.some.inj hk
        rfl
      | succ k =>
        rw [List.getElem?_cons_succ] at hk
        rw [hoffset k tok hk, List.take_succ_cons, render_cons, List.length_append]
        dsimp only
        omega

/-- **The tokens of a text without comments spell the text.** -/
theorem render_tokenize {t : Text} (h : Comment.IsFree t) : render (tokenize t) = t :=
  (render_tokenizeFrom h 0).1

/-- **A token of a text without comments stands where the spelling of those before
it ends.** -/
theorem offset_of_getElem?_tokenize {t : Text} (h : Comment.IsFree t) {k : Nat} {tok : Token}
    (hk : (tokenize t)[k]? = some tok) :
    tok.offset = (render ((tokenize t).take k)).length := by
  rw [(render_tokenizeFrom h 0).2 k tok hk, Nat.zero_add]
  rfl

end DevicetreePrep
