/-
# Comments are where the lexer finds them

Comments are found twice: by the reader that writes a space over each of their characters,
and by the lexer, which reads them as gaps between tokens.  The two go through a line in
step.  Where the lexer reads a gap, the other reader leaves spaces
(`Comment.blanks_readIn`); where it reads a token, the other keeps all its characters
(`Lexeme.keeps_read`).  Behind either of them both start afresh, and the next token looks no
further ahead than the characters that start alike in the two texts.

So a line has the same tokens with its comments and without them, at the same offsets
(`filter_tokenizeFrom_maskIn`), and the same faults, but for a comment that is left open
(`lexicalErrorFrom?_maskIn`), of which both readers know (`modeAfter_eq_block_iff`).
-/

import DevicetreePrep.Proofs.Comment.Splicing
import DevicetreePrep.Proofs.PhysicalLine.Masking
import DevicetreePrep.Proofs.Token.Rereading

namespace DevicetreePrep

namespace Comment

/-- A text with spaces written over some characters starts as the text does. -/
theorem startsAlike_of_blanked {base raw : Text} (h : Blanked base raw) (n : Nat) :
    StartsAlike n raw base := by
  induction n generalizing base raw with
  | zero => exact trivial
  | succ n ih =>
    cases h with
    | nil => exact trivial
    | cons hc hrest =>
      rcases hc with rfl | rfl
      · exact (ih hrest).cons _
      · exact .inl rfl

/-- Where no gap stands, none stands when the comments are blanked out. -/
theorem startsAt_maskIn {t : Text} (h : Gap.startsAt t = false) :
    Gap.startsAt (maskIn .code t) = false := by
  match t, h with
  | [], _ => rfl
  | c :: cs, h =>
    have hline (rest : Text) : c = '/' → cs = '/' :: rest → False := by
      rintro rfl rfl
      cases h
    have hblock (rest : Text) : c = '/' → cs = '*' :: rest → False := by
      rintro rfl rfl
      cases h
    rw [maskIn.eq_3 _ _ hline hblock]
    rw [Bool.eq_false_iff] at h ⊢
    exact fun hgap =>
      h (Gap.startsAt_of_startsAlike (startsAlike_of_blanked (blanked_maskIn _ cs) 1) hgap)

/-- The mode in which comments are blanked out while a gap is read. -/
def modeOf : Gap.Mode → Mode
  | .space => .code
  | .line => .line
  | .block _ => .block

/-- The reader of comments, in the mode `m`, leaves spaces over a gap at the front of a text
and reads on as code behind it.  A comment that is open at the end of the text is one that
the gap does not close, or it opens behind the gap. -/
structure Blanks (m : Mode) (t : Text) (g : Gap) : Prop where
  spaces : ∃ spaces : Text, spaces.length = g.width ∧ (∀ c ∈ spaces, isSpace c = true) ∧
    maskIn m t = spaces ++ maskIn .code (t.drop g.width)
  isOpen : modeAfter m t = .block ↔ g.unclosed ≠ none ∨ modeAfter .code (t.drop g.width) = .block

/-- The gap has more characters in front of it, over which spaces are left too. -/
theorem Blanks.behind {m m' : Mode} {t t' : Text} {g : Gap} (h : Blanks m t g)
    (front spelled : Text)
    (hfront : ∀ c ∈ front, isSpace c = true) (hmask : maskIn m' t' = front ++ maskIn m t)
    (hmode : modeAfter m' t' = modeAfter m t) (hdrop : t'.drop front.length = t) :
    Blanks m' t' (.behind front.length spelled g) := by
  obtain ⟨spaces, hlength, hspaces, hmask'⟩ := h.spaces
  have hrest : t'.drop (Gap.behind front.length spelled g).width = t.drop g.width := by
    rw [Gap.behind, ← List.drop_drop, hdrop]
  refine ⟨⟨front ++ spaces, ?_, ?_, ?_⟩, ?_⟩
  · rw [List.length_append, hlength, Gap.behind]
  · exact fun c hc => (List.mem_append.1 hc).elim (hfront c) (hspaces c)
  · rw [hmask, hmask', hrest, List.append_assoc]
  · rw [hmode, hrest]
    exact h.isOpen

/-- **Where the lexer reads a gap, spaces are left**, as many as the gap has characters. -/
theorem blanks_readIn (here : Nat) (m : Gap.Mode) {t : Text} (h : '\n' ∉ t) :
    Blanks (modeOf m) t (Gap.readIn here m t) := by
  have hspace : ∀ c ∈ [' '], isSpace c = true := List.forall_mem_singleton.2 rfl
  have hspaces : ∀ c ∈ [' ', ' '], isSpace c = true := List.forall_mem_cons.2 ⟨rfl, hspace⟩
  have hnone {m : Mode} {t : Text} (hmask : maskIn m t = maskIn .code t)
      (hmode : modeAfter m t = .block ↔ modeAfter .code t = .block) : Blanks m t {} :=
    ⟨⟨[], rfl, by simp, hmask⟩, by simp [hmode]⟩
  fun_induction Gap.readIn here m t with
  | case1 here cs ih | case2 here cs ih | case7 here opened cs ih =>
    rw [List.mem_cons, List.mem_cons, not_or, not_or] at h
    exact (ih h.2.2).behind [' ', ' '] _ hspaces rfl rfl rfl
  | case3 here c cs hline hblock hc ih =>
    have hquote : ¬(c = '"' || c = '\'') = true := by
      intro hquote
      rw [Bool.or_eq_true, decide_eq_true_eq, decide_eq_true_eq] at hquote
      rcases hquote with rfl | rfl <;> exact absurd hc (by decide)
    refine (ih (List.not_mem_of_not_mem_cons h)).behind [c] _ ?_ ?_ ?_ rfl
    · exact List.forall_mem_singleton.2 hc
    · rw [modeOf, maskIn.eq_3 _ _ hline hblock, if_neg hquote]
      rfl
    · rw [modeOf, modeAfter.eq_3 _ _ hline hblock, if_neg hquote]
  | case4 => exact hnone rfl Iff.rfl
  | case5 here cs => exact absurd (List.mem_cons_self ..) h
  | case6 here c cs hc ih =>
    exact (ih (List.not_mem_of_not_mem_cons h)).behind [' '] _ hspace rfl rfl rfl
  | case8 here opened c cs hclose ih =>
    exact (ih (List.not_mem_of_not_mem_cons h)).behind [' '] _ hspace (maskIn.eq_8 _ _ hclose)
      (modeAfter.eq_8 _ _ hclose) rfl
  | case9 here opened => exact ⟨⟨[], rfl, by simp, rfl⟩, by simp [modeOf, modeAfter]⟩
  | case10 here m hm =>
    cases m with
    | block opened => exact absurd rfl (hm opened)
    | space => exact hnone rfl Iff.rfl
    | line => exact hnone rfl (by simp [modeOf, modeAfter])

/-- The reader of comments keeps the first `n` characters of a text and reads on as code
behind them, where all comments that are open at the end must open. -/
structure Keeps (t : Text) (n : Nat) : Prop where
  mask : maskIn .code t = t.take n ++ maskIn .code (t.drop n)
  isOpen : modeAfter .code t = .block ↔ modeAfter .code (t.drop n) = .block

theorem keeps_zero (t : Text) : Keeps t 0 :=
  ⟨rfl, Iff.rfl⟩

/-- A character that starts neither a comment nor a literal is kept. -/
theorem Keeps.cons {c : Char} {cs : Text} {n : Nat} (h : Keeps cs n)
    (hslash : c = '/' → Gap.startsAt (c :: cs) = false) (hc : c ≠ '"' ∧ c ≠ '\'') :
    Keeps (c :: cs) (n + 1) := by
  have hline (rest : Text) : c = '/' → cs = '/' :: rest → False := by
    rintro rfl rfl
    cases hslash rfl
  have hblock (rest : Text) : c = '/' → cs = '*' :: rest → False := by
    rintro rfl rfl
    cases hslash rfl
  have hquote : ¬(c = '"' || c = '\'') = true := by
    simp [hc]
  refine ⟨?_, ?_⟩
  · rw [maskIn.eq_3 _ _ hline hblock, if_neg hquote, h.mask]
    rfl
  · rw [modeAfter.eq_3 _ _ hline hblock, if_neg hquote, h.isOpen]
    rfl

/-- Characters that are no quotes and no slashes are kept, whatever follows them. -/
theorem Keeps.append {front t : Text} {n : Nat} (h : Keeps t n)
    (hquotes : ∀ c ∈ front, c ≠ '"' ∧ c ≠ '\'') (hslashes : '/' ∉ front) :
    Keeps (front ++ t) (front.length + n) := by
  induction front with
  | nil => rwa [List.length_nil, Nat.zero_add]
  | cons c front ih =>
    rw [List.forall_mem_cons] at hquotes
    rw [List.mem_cons, not_or] at hslashes
    rw [List.length_cons, Nat.add_right_comm]
    exact (ih hquotes.2 hslashes.2).cons (fun hc => absurd hc.symm hslashes.1) hquotes.1

/-- A front without quotes and slashes is kept. -/
theorem keeps_take {t : Text} {n : Nat} (hn : n ≤ t.length)
    (hquotes : ∀ c ∈ t.take n, c ≠ '"' ∧ c ≠ '\'') (hslashes : '/' ∉ t.take n) : Keeps t n := by
  have h := (keeps_zero (t.drop n)).append hquotes hslashes
  rwa [List.take_append_drop, List.length_take_of_le hn] at h

/-- A quoted part is kept, up to its closing quote or to the end. -/
theorem maskIn_quoted_eq (quote : Char) (t : Text) :
    maskIn (.quoted quote) t =
        t.take (Lexeme.quotedWidth quote t).1 ++
          maskIn .code (t.drop (Lexeme.quotedWidth quote t).1) ∧
      (modeAfter (.quoted quote) t = .block ↔
        modeAfter .code (t.drop (Lexeme.quotedWidth quote t).1) = .block) := by
  fun_induction Lexeme.quotedWidth quote t with
  | case1 => exact ⟨rfl, by simp [modeAfter]⟩
  | case2 d cs n closed hn ih =>
    rw [hn] at ih
    rw [maskIn, modeAfter, ih.1, ih.2]
    exact ⟨rfl, Iff.rfl⟩
  | case3 cs hescape =>
    rw [maskIn.eq_5 _ _ _ hescape, modeAfter.eq_5 _ _ _ hescape, if_pos rfl]
    exact ⟨rfl, Iff.rfl⟩
  | case4 c cs hescape hc n closed hn ih =>
    rw [hn] at ih
    rw [maskIn.eq_5 _ _ _ hescape, modeAfter.eq_5 _ _ _ hescape, if_neg hc, ih.1, ih.2]
    exact ⟨rfl, Iff.rfl⟩

/-- A quote is kept together with all that it quotes. -/
theorem keeps_quote {quote : Char} (hquote : quote = '"' ∨ quote = '\'') (t : Text) :
    Keeps (quote :: t) (1 + (Lexeme.quotedWidth quote t).1) := by
  have hmode : (quote = '"' || quote = '\'') = true := by
    simpa using hquote
  have hslash : quote ≠ '/' := by
    rcases hquote with rfl | rfl <;> decide
  obtain ⟨hmask, hopen⟩ := maskIn_quoted_eq quote t
  rw [Nat.add_comm]
  refine ⟨?_, ?_⟩
  · rw [maskIn.eq_3 _ _ (fun _ h => absurd h hslash) (fun _ h => absurd h hslash), if_pos hmode,
      hmask]
    rfl
  · rw [modeAfter.eq_3 _ _ (fun _ h => absurd h hslash) (fun _ h => absurd h hslash), if_pos hmode,
      hopen]
    rfl

end Comment

namespace Lexeme

/-- No slash stands in front of the quote of a literal. -/
theorem slash_notMem_of_literalStart? {letters inner : Text} {quote : Char}
    (h : literalStart? (letters ++ quote :: inner) = some (letters.length, quote)) :
    (∀ c ∈ letters, c ≠ '"' ∧ c ≠ '\'') ∧ '/' ∉ letters := by
  generalize hn : letters.length = n at h
  generalize ht : letters ++ quote :: inner = t at h
  revert h
  fun_cases literalStart? t with
  | case1 | case2 =>
    rintro ⟨rfl, rfl⟩
    obtain rfl := List.eq_nil_of_length_eq_zero hn
    simp
  | case3 =>
    rintro ⟨rfl, rfl⟩
    obtain ⟨_, _, rfl⟩ := List.length_eq_two.1 hn
    obtain ⟨rfl, rfl, -⟩ := ht
    simp
  | case4 d tail _ _ hletter | case6 d tail _ _ hletter =>
    rintro ⟨rfl, rfl⟩
    obtain ⟨_, rfl⟩ := List.length_eq_one_iff.1 hn
    obtain ⟨rfl, rfl⟩ := ht
    simp only [Bool.or_eq_true, decide_eq_true_eq] at hletter
    rcases hletter with (rfl | rfl) | rfl <;> simp
  | _ =>
    intro h
    cases h

/-- A literal is kept. -/
theorem keeps_literal {here : Nat} {t : Text} {l : Lexeme} (h : literal? here t = some l) :
    Comment.Keeps t l.width := by
  obtain ⟨letters, quote, inner, rfl, hstart, hquote, hwidth, -⟩ := exists_of_literal? h
  obtain ⟨hquotes, hslashes⟩ := slash_notMem_of_literalStart? hstart
  rw [hwidth, Nat.add_assoc]
  exact (Comment.keeps_quote hquote inner).append hquotes hslashes

/-- A number has no slash in it. -/
theorem slash_notMem_number (t : Text) : '/' ∉ t.take (numberWidth t) := by
  intro h
  rcases isNumberPart_of_mem h with hslash | hslash | hslash
  · exact absurd hslash (by decide)
  · exact absurd hslash (by decide)
  · exact absurd hslash (by decide)

/-- A slash stands at most at the front of a punctuator. -/
theorem slash_notMem_punctuator (c : Char) (cs : Text) :
    '/' ∉ cs.take (punctuatorWidth (c :: cs) - 1) := by
  have htriples : ∀ p ∈ triples, '/' ∉ p.tail := by decide
  have hpairs : ∀ p ∈ pairs, '/' ∉ p.tail := by decide
  unfold punctuatorWidth
  split
  · rename_i h
    exact htriples _ (List.contains_iff_mem.1 h)
  · split
    · rename_i h
      exact hpairs _ (List.contains_iff_mem.1 h)
    · exact List.not_mem_nil

variable {here : Nat} {c : Char} {cs : Text}

/-- **Where the lexer reads a token, all its characters are kept.** -/
theorem keeps_read (h : Gap.startsAt (c :: cs) = false) (here : Nat) :
    Comment.Keeps (c :: cs) (read here c cs).width := by
  rw [read_of_not_startsAt h]
  cases hl : literal? here (c :: cs) with
  | some l => exact keeps_literal hl
  | none =>
    -- a quote or a mark of a comment could only stand behind the first character, and no
    -- number, word or punctuator goes on with one
    have hc := ne_quote_of_literal?_eq_none hl
    dsimp only
    split
    · exact .cons (Comment.keeps_take (numberWidth_le cs) (fun _ => ne_quote_of_mem_number)
        (slash_notMem_number cs)) (fun _ => h) hc
    · split
      · have htake := List.prefix_iff_eq_take.1 (List.takeWhile_prefix isWordChar (l := cs))
        have hword : ∀ d ∈ cs.take (cs.takeWhile isWordChar).length, isWordChar d = true := by
          rw [← htake]
          exact List.all_eq_true.1 List.all_takeWhile
        refine .cons (Comment.keeps_take (List.takeWhile_prefix _).length_le ?_ ?_) (fun _ => h) hc
        · intro d hd
          constructor <;> rintro rfl <;> exact absurd (hword _ hd) (by decide)
        · exact fun hslash => absurd (hword _ hslash) (by decide)
      · obtain ⟨n, hn⟩ : ∃ n, punctuatorWidth (c :: cs) = n + 1 := by
          unfold punctuatorWidth
          split
          · exact ⟨2, rfl⟩
          · split <;> exact ⟨_, rfl⟩
        have hle := punctuatorWidth_le c cs
        have hslashes := slash_notMem_punctuator c cs
        have hquotes (d : Char) (hd : d ∈ (c :: cs).take (punctuatorWidth (c :: cs))) :=
          ne_quote_of_mem_punctuator hc hd
        rw [hn] at hle hslashes hquotes ⊢
        refine .cons (Comment.keeps_take (Nat.le_of_succ_le_succ hle) ?_ hslashes) (fun _ => h) hc
        exact fun d hd => hquotes d (List.mem_cons_of_mem c hd)

/-- What is left open is a comment in a gap, and a literal elsewhere. -/
theorem what_of_fault {e : LexicalError} (he : (read here c cs).fault = some e) :
    e.what = .blockComment ↔ Gap.startsAt (c :: cs) = true := by
  cases h : Gap.startsAt (c :: cs) with
  | true =>
    rw [read_of_startsAt h] at he
    obtain ⟨opened, -, rfl⟩ := Option.map_eq_some_iff.1 he
    exact iff_of_true rfl rfl
  | false =>
    refine iff_of_false ?_ Bool.false_ne_true
    rw [read_of_not_startsAt h, literal?] at he
    cases hstart : literalStart? (c :: cs) with
    | some p =>
      simp only [hstart, Option.map_some] at he
      split at he
      · cases he
      · obtain rfl := Option.some.inj he
        dsimp only
        split <;> decide
    | none =>
      simp only [hstart, Option.map_none] at he
      split at he
      · cases he
      · split at he <;> cases he

end Lexeme

/-- White space has no fault. -/
theorem lexicalErrorFrom?_spaces {spaces rest : Text} (hspaces : ∀ c ∈ spaces, isSpace c = true)
    (hrest : Gap.startsAt rest = false) (here : Nat) :
    lexicalErrorFrom? here (spaces ++ rest) = lexicalErrorFrom? (here + spaces.length) rest := by
  cases spaces with
  | nil => rfl
  | cons d ds =>
    have hgap : Gap.startsAt (d :: (ds ++ rest)) = true :=
      Gap.startsAt_of_isSpace (hspaces d (List.mem_cons_self ..))
    rw [List.cons_append, lexicalErrorFrom?, Lexeme.read_of_startsAt hgap, ← List.cons_append,
      Gap.read_append hspaces hrest]
    dsimp only
    rw [List.drop_left]
    rfl

/-- A token in front of a text that starts as before has the fault that it had. -/
theorem lexicalErrorFrom?_token {here : Nat} {c : Char} {cs rest : Text}
    (hgap : Gap.startsAt (c :: cs) = false)
    (hrest : StartsAlike 2 ((c :: cs).drop (Lexeme.read here c cs).width) rest)
    (hclosed : (Lexeme.read here c cs).fault = none ∨ rest = []) :
    lexicalErrorFrom? here ((c :: cs).take (Lexeme.read here c cs).width ++ rest) =
      ((Lexeme.read here c cs).fault <|>
        lexicalErrorFrom? (here + (Lexeme.read here c cs).width) rest) := by
  have htake := Lexeme.take_width here c cs
  rw [htake, List.cons_append, lexicalErrorFrom?, (Lexeme.read_append hgap hrest hclosed).2,
    ← List.cons_append, ← htake,
    List.drop_left' (List.length_take_of_le (Lexeme.width_le_of_not_startsAt hgap))]

section Masked

open Comment (maskIn modeAfter)

variable {here : Nat} {c : Char} {cs : Text}

/-- A gap in a line leaves spaces, of the same width, in front of another token. -/
theorem exists_spaces_of_maskIn (hgap : Gap.startsAt (c :: cs) = true) (h : '\n' ∉ c :: cs)
    (here : Nat) :
    ∃ spaces : Text, spaces ≠ [] ∧ spaces.length = (Lexeme.read here c cs).width ∧
      (∀ d ∈ spaces, isSpace d = true) ∧
      maskIn .code (c :: cs) =
        spaces ++ maskIn .code ((c :: cs).drop (Lexeme.read here c cs).width) ∧
      Gap.startsAt (maskIn .code ((c :: cs).drop (Lexeme.read here c cs).width)) = false := by
  obtain ⟨spaces, hlength, hspaces, hmask⟩ := (Comment.blanks_readIn here .space h).spaces
  have hrest := Comment.startsAt_maskIn (Gap.startsAt_drop_width here .space (c :: cs))
  rw [Lexeme.read_of_startsAt hgap]
  refine ⟨spaces, ?_, hlength, hspaces, hmask, hrest⟩
  rintro rfl
  exact Gap.width_ne_zero_of_startsAt hgap here hlength.symm

/-- Behind a token that is not closed nothing is left. -/
theorem fault_eq_none_or_maskIn_eq_nil (here : Nat) (c : Char) (cs : Text) :
    (Lexeme.read here c cs).fault = none ∨
      maskIn .code ((c :: cs).drop (Lexeme.read here c cs).width) = [] := by
  cases hfault : (Lexeme.read here c cs).fault with
  | none => exact .inl rfl
  | some e => exact .inr (by rw [Lexeme.drop_width_of_fault hfault, Comment.maskIn_nil])

/-- **A line has the same tokens without its comments**, at the same offsets. -/
theorem filter_tokenizeFrom_maskIn (here : Nat) {t : Text} (h : '\n' ∉ t) :
    (tokenizeFrom here (maskIn .code t)).filter (!·.isWhite) =
      (tokenizeFrom here t).filter (!·.isWhite) := by
  fun_induction tokenizeFrom here t with
  | case1 => rw [Comment.maskIn_nil, tokenizeFrom]
  | case2 here c cs l =>
    rename_i ih
    have hrest := ih fun hmem => h (List.mem_of_mem_drop hmem)
    cases hgap : Gap.startsAt (c :: cs) with
    | true =>
      obtain ⟨spaces, hne, hlength, hspaces, hmask, hnext⟩ := exists_spaces_of_maskIn hgap h here
      have hkind : (Lexeme.read here c cs).kind = .whitespace := by
        rw [Lexeme.read_of_startsAt hgap]
      rw [hmask, tokenizeFrom_spaces hne hspaces hnext, hlength, hkind,
        List.filter_cons_of_neg (by simp [Token.isWhite]),
        List.filter_cons_of_neg (by simp [Token.isWhite]), hrest]
    | false =>
      have halike := Comment.startsAlike_of_blanked
        (blanked_maskIn .code ((c :: cs).drop (Lexeme.read here c cs).width)) 2
      rw [(Lexeme.keeps_read hgap here).mask,
        tokenizeFrom_token hgap halike (fault_eq_none_or_maskIn_eq_nil here c cs),
        List.filter_cons, List.filter_cons, hrest]

/-- **A line has the same faults without its comments**, but for a comment that is left
open. -/
theorem lexicalErrorFrom?_maskIn (here : Nat) {t : Text} (h : '\n' ∉ t) :
    lexicalErrorFrom? here (maskIn .code t) =
      (lexicalErrorFrom? here t).filter (·.what ≠ .blockComment) := by
  fun_induction lexicalErrorFrom? here t with
  | case1 =>
    rw [Comment.maskIn_nil, lexicalErrorFrom?]
    rfl
  | case2 here c cs l =>
    rename_i ih
    have hrest := ih fun hmem => h (List.mem_of_mem_drop hmem)
    rw [Option.orElse_eq_orElse, Option.orElse_eq_or]
    cases hgap : Gap.startsAt (c :: cs) with
    | true =>
      obtain ⟨spaces, hne, hlength, hspaces, hmask, hnext⟩ := exists_spaces_of_maskIn hgap h here
      rw [hmask, lexicalErrorFrom?_spaces hspaces hnext, hlength, hrest]
      cases hfault : (Lexeme.read here c cs).fault with
      | none => rfl
      | some e =>
        -- a comment that is not closed runs to the end, so nothing is left to compare
        have hwhat := (Lexeme.what_of_fault hfault).2 hgap
        rw [Lexeme.drop_width_of_fault hfault, lexicalErrorFrom?, Option.some_or,
          Option.filter_some, if_neg (by simpa using hwhat), Option.filter_none]
    | false =>
      have halike := Comment.startsAlike_of_blanked
        (blanked_maskIn .code ((c :: cs).drop (Lexeme.read here c cs).width)) 2
      rw [(Lexeme.keeps_read hgap here).mask,
        lexicalErrorFrom?_token hgap halike (fault_eq_none_or_maskIn_eq_nil here c cs),
        Option.orElse_eq_orElse, Option.orElse_eq_or, hrest]
      cases hfault : (Lexeme.read here c cs).fault with
      | none => rfl
      | some e =>
        have hwhat : e.what ≠ .blockComment := by
          rw [Ne, Lexeme.what_of_fault hfault, hgap]
          exact Bool.false_ne_true
        rw [Option.some_or, Option.some_or, Option.filter_some, if_pos (by simpa using hwhat)]

/-- A comment is left open in the token at the front or behind it. -/
theorem modeAfter_cons_eq_block_iff (here : Nat) (h : '\n' ∉ c :: cs) :
    modeAfter .code (c :: cs) = .block ↔
      (∃ e, (Lexeme.read here c cs).fault = some e ∧ e.what = .blockComment) ∨
        modeAfter .code ((c :: cs).drop (Lexeme.read here c cs).width) = .block := by
  cases hgap : Gap.startsAt (c :: cs) with
  | true =>
    have hopen := (Comment.blanks_readIn here .space h).isOpen
    rw [Lexeme.read_of_startsAt hgap]
    refine hopen.trans (or_congr_left ?_)
    rw [Gap.read]
    cases (Gap.readIn here .space (c :: cs)).unclosed <;> simp
  | false =>
    rw [(Lexeme.keeps_read hgap here).isOpen]
    refine (or_iff_right ?_).symm
    rintro ⟨e, hfault, hwhat⟩
    exact Bool.false_ne_true (hgap.symm.trans ((Lexeme.what_of_fault hfault).1 hwhat))

/-- **A comment is left open in a line if and only if the lexer finds it unclosed.** -/
theorem modeAfter_eq_block_iff (here : Nat) {t : Text} (h : '\n' ∉ t) :
    modeAfter .code t = .block ↔
      ∃ e, lexicalErrorFrom? here t = some e ∧ e.what = .blockComment := by
  fun_induction lexicalErrorFrom? here t with
  | case1 => simp [modeAfter]
  | case2 here c cs l =>
    rename_i ih
    have hrest := ih fun hmem => h (List.mem_of_mem_drop hmem)
    rw [modeAfter_cons_eq_block_iff here h, hrest, Option.orElse_eq_orElse, Option.orElse_eq_or]
    cases hfault : (Lexeme.read here c cs).fault with
    | none => simp
    | some e =>
      rw [Lexeme.drop_width_of_fault hfault, lexicalErrorFrom?]
      simp

end Masked

/-- **Blanking out comments and the lexer agree on what a comment is.**  A line and the line
without its comments have the same tokens beside white space, of the same kinds and
spellings and at the same offsets.  The lexer finds a comment unclosed if and only if one is
left open for the next line; all other faults are the same in the two lines. -/
theorem tokenize_mask {line : Text} (h : '\n' ∉ line) :
    (tokenize (Comment.mask false line)).filter (!·.isWhite) =
        (tokenize line).filter (!·.isWhite) ∧
      ((∃ e, lexicalError? line = some e ∧ e.message = "Unterminated block comment") ↔
        Comment.leavesOpen false line = true) ∧
      lexicalError? (Comment.mask false line) =
        (lexicalError? line).filter (·.message ≠ "Unterminated block comment") := by
  have hmessage (e : LexicalError) :
      e.message = "Unterminated block comment" ↔ e.what = .blockComment := by
    cases hwhat : e.what <;> simp [LexicalError.message, hwhat]
  refine ⟨filter_tokenizeFrom_maskIn 0 h, ?_, ?_⟩
  · simp only [hmessage, Comment.leavesOpen, decide_eq_true_eq]
    exact (modeAfter_eq_block_iff 0 h).symm
  · simp only [ne_eq, hmessage]
    exact lexicalErrorFrom?_maskIn 0 h

/-- A literal hides the marks in it, one comment is closed, and the next one is not. -/
theorem tokenize_mask_unclosed :
    '\n' ∉ "u8\"/*\"/**/9e+/*'".toList ∧
      (tokenize (Comment.mask false "u8\"/*\"/**/9e+/*'".toList)).filter (!·.isWhite) =
        (tokenize "u8\"/*\"/**/9e+/*'".toList).filter (!·.isWhite) ∧
      ∃ e, lexicalError? "u8\"/*\"/**/9e+/*'".toList = some e ∧
        e.message = "Unterminated block comment" := by
  have hline : '\n' ∉ "u8\"/*\"/**/9e+/*'".toList := by decide
  have hopen : Comment.leavesOpen false "u8\"/*\"/**/9e+/*'".toList = true := by decide
  obtain ⟨htokens, hunclosed, -⟩ := tokenize_mask hline
  exact ⟨hline, htokens, hunclosed.2 hopen⟩

end DevicetreePrep
