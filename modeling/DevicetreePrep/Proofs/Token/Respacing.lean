/-
# White space makes up no token with anything

Tokens are respaced by writing one space for each stretch of white space and forgetting
where they stand (`Token.respaced`).  Kinds and the spellings of all other tokens stay
(`Token.isPunct_respaced`), and so does what two spellings make up when they are pasted
(`lexSingle?_respaced`): with white space at either end a text is no single token
(`lexSingle?_spaces_append`, `lexSingle?_append_spaces`), however much of it there is.
-/

import DevicetreePrep.Proofs.Token.Rereading

namespace DevicetreePrep

/-- White space behind a text starts alike with nothing behind it. -/
theorem StartsAlike.append_spaces (n : Nat) (t : Text) {spaces : Text}
    (h : ∀ c ∈ spaces, isSpace c = true) : StartsAlike n t (t ++ spaces) := by
  induction t generalizing n with
  | nil =>
    cases spaces with
    | nil => exact .nil n _
    | cons d ds => exact .of_isSpace n _ _ (h d (List.mem_cons_self ..))
  | cons c t ih =>
    cases n with
    | zero => exact trivial
    | succ n => exact (ih n).cons c

/-- What starts a gap starts one in front of any rest. -/
theorem Gap.startsAt_append {t : Text} (h : startsAt t = true) (rest : Text) :
    startsAt (t ++ rest) = true := by
  revert h
  fun_cases startsAt t with
  | case1 | case2 => exact fun _ => rfl
  | case3 c cs => exact fun h => startsAt_of_isSpace h
  | case4 => exact fun h => Bool.noConfusion h

namespace Lexeme

/-- What closes a quoted part is its quote. -/
theorem mem_of_closed {quote : Char} {t : Text} (h : (quotedWidth quote t).2 = true) :
    quote ∈ t := by
  fun_induction quotedWidth quote t with
  | case1 => cases h
  | case2 d cs n closed hn ih =>
    rw [hn] at ih
    exact List.mem_cons_of_mem _ (List.mem_cons_of_mem _ (ih h))
  | case3 => exact List.mem_cons_self ..
  | case4 c cs _ _ n closed hn ih =>
    rw [hn] at ih
    exact List.mem_cons_of_mem _ (ih h)

/-- A quoted part that is not closed is not closed by what has no quote in it. -/
theorem quotedWidth_append_of_notMem {quote : Char} {t rest : Text}
    (h : (quotedWidth quote t).2 = false) (hrest : quote ∉ rest) :
    (quotedWidth quote (t ++ rest)).2 = false := by
  fun_induction quotedWidth quote t with
  | case1 => exact Bool.eq_false_iff.2 fun hclosed => hrest (mem_of_closed hclosed)
  | case2 d cs n closed hn ih =>
    rw [hn] at ih
    exact ih h
  | case3 => cases h
  | case4 c cs hescape hc n closed hn ih =>
    rw [hn] at ih
    by_cases hcut : c = '\\' ∧ ∃ d ds, cs ++ rest = d :: ds
    · -- the backslash was the last character, and now it escapes another one
      obtain ⟨rfl, d, ds, hds⟩ := hcut
      obtain rfl : cs = [] := by
        cases cs with
        | nil => rfl
        | cons e es => exact (hescape e es rfl rfl).elim
      obtain rfl : rest = d :: ds := hds
      have hds : ¬(quotedWidth quote ds).2 = true :=
        fun hclosed => hrest (List.mem_cons_of_mem _ (mem_of_closed hclosed))
      exact Bool.eq_false_iff.2 hds
    · have hfront : ∀ d ds, c = '\\' → cs ++ rest = d :: ds → False :=
        fun d ds hslash hds => hcut ⟨hslash, d, ds, hds⟩
      rw [List.cons_append, quotedWidth.eq_3 _ _ _ hfront, if_neg hc]
      exact ih h

/-- Where no gap stands, the token is not white space. -/
theorem kind_of_not_startsAt {here : Nat} {c : Char} {cs : Text}
    (h : Gap.startsAt (c :: cs) = false) : (read here c cs).kind ≠ .whitespace := by
  rw [read_of_not_startsAt h]
  split
  · rename_i l hl
    obtain ⟨_, -, rfl⟩ := Option.map_eq_some_iff.1 hl
    dsimp only
    split <;> exact TokenKind.noConfusion
  · split
    · exact TokenKind.noConfusion
    · split <;> exact TokenKind.noConfusion

/-- A literal that is not closed is not closed by white space behind it. -/
theorem fault_append_spaces {c : Char} {cs spaces : Text} (hgap : Gap.startsAt (c :: cs) = false)
    (hspaces : ∀ d ∈ spaces, isSpace d = true) (hfault : (read 0 c cs).fault ≠ none) :
    (read 0 c (cs ++ spaces)).fault ≠ none := by
  have hgap' : Gap.startsAt (c :: (cs ++ spaces)) = false := by
    rw [Bool.eq_false_iff] at hgap ⊢
    exact fun h => hgap (Gap.startsAt_of_startsAlike (.append_spaces 1 cs hspaces) h)
  rw [read_of_not_startsAt hgap] at hfault
  rw [read_of_not_startsAt hgap']
  cases hl : literal? 0 (c :: cs) with
  | none =>
    simp only [hl] at hfault
    split at hfault
    · exact absurd rfl hfault
    · split at hfault <;> exact absurd rfl hfault
  | some l =>
    simp only [hl] at hfault
    obtain ⟨letters, quote, inner, htext, hstart, hquote, -, hclosed⟩ := exists_of_literal? hl
    have hopen : (quotedWidth quote inner).2 = false :=
      Bool.eq_false_iff.2 fun h => hfault (hclosed.2 h)
    have hspace : quote ∉ spaces := by
      intro hmem
      have := hspaces quote hmem
      rcases hquote with rfl | rfl <;> exact absurd this (by decide)
    rw [← List.cons_append, htext, List.append_assoc, List.cons_append,
      literal?_eq (literalStart?_append hstart)]
    simp [quotedWidth_append_of_notMem hopen hspace]

end Lexeme

/-- A text that is one token, without a fault and not white space. -/
theorem exists_of_lexSingle? {s : Text} {t : Token} (h : lexSingle? s = some t) :
    ∃ c cs, s = c :: cs ∧ Gap.startsAt (c :: cs) = false ∧ (Lexeme.read 0 c cs).fault = none ∧
      (c :: cs).drop (Lexeme.read 0 c cs).width = [] := by
  rw [lexSingle?] at h
  split at h
  · rename_i u herror htokens
    match s with
    | [] =>
      rw [tokenize, tokenizeFrom] at htokens
      cases htokens
    | c :: cs =>
      rw [lexicalError?, lexicalErrorFrom?, Option.orElse_eq_orElse, Option.orElse_eq_or,
        Option.or_eq_none_iff] at herror
      rw [tokenize, tokenizeFrom] at htokens
      obtain ⟨rfl, hrest⟩ := List.cons.inj htokens
      refine ⟨c, cs, rfl, ?_, herror.1, ?_⟩
      · rw [Bool.eq_false_iff]
        intro hgap
        rw [Lexeme.read_of_startsAt hgap] at h
        cases h
      · cases hdrop : (c :: cs).drop (Lexeme.read 0 c cs).width with
        | nil => rfl
        | cons d ds =>
          rw [hdrop, tokenizeFrom] at hrest
          cases hrest
  · cases h

/-- **White space in front of a text makes up no token with it.** -/
theorem lexSingle?_spaces_append {spaces : Text} (hne : spaces ≠ [])
    (hspaces : ∀ c ∈ spaces, isSpace c = true) (rest : Text) :
    lexSingle? (spaces ++ rest) = none := by
  refine Option.eq_none_iff_forall_ne_some.2 fun t ht => ?_
  obtain ⟨c, cs, hcons, hgap, -⟩ := exists_of_lexSingle? ht
  obtain ⟨d, ds, rfl⟩ := List.exists_cons_of_ne_nil hne
  obtain ⟨rfl, -⟩ := List.cons.inj hcons
  rw [Gap.startsAt_of_isSpace (hspaces d (List.mem_cons_self ..))] at hgap
  cases hgap

/-- **White space behind a text makes up no token with it.** -/
theorem lexSingle?_append_spaces {front spaces : Text} (hfront : front ≠ []) (hne : spaces ≠ [])
    (hspaces : ∀ c ∈ spaces, isSpace c = true) : lexSingle? (front ++ spaces) = none := by
  refine Option.eq_none_iff_forall_ne_some.2 fun t ht => ?_
  obtain ⟨c, cs, rfl⟩ := List.exists_cons_of_ne_nil hfront
  obtain ⟨_, _, hcons, hgap, hfault, hdrop⟩ := exists_of_lexSingle? ht
  rw [← hcons] at hgap
  rw [List.cons_append] at hcons
  obtain ⟨rfl, rfl⟩ := List.cons.inj hcons
  have hgap' : Gap.startsAt (c :: cs) = false := by
    rw [Bool.eq_false_iff] at hgap ⊢
    exact fun h => hgap (Gap.startsAt_append h spaces)
  have hclosed : (Lexeme.read 0 c cs).fault = none := by
    refine Decidable.byContradiction fun h => ?_
    exact Lexeme.fault_append_spaces hgap' hspaces h hfault
  -- the token of the front alone is read again, and it leaves the white space over
  have hread := (Lexeme.read_append hgap' (StartsAlike.append_spaces 2 _ hspaces) (.inl hclosed)).2
  have hwidth : (Lexeme.read 0 c cs).width ≤ (c :: cs).length :=
    Lexeme.width_le_of_not_startsAt hgap'
  rw [Lexeme.drop_width, ← List.append_assoc, List.take_append_drop] at hread
  rw [hread, ← List.cons_append, List.drop_append_of_le_length hwidth] at hdrop
  exact hne (List.append_eq_nil_iff.1 hdrop).2

namespace Token

/-- A stretch of white space, as the lexer reads it. -/
def IsStretch (t : Token) : Prop :=
  t.isWhite = true ∧ t.text ≠ [] ∧ ∀ c ∈ t.text, isSpace c = true

instance (t : Token) : Decidable t.IsStretch :=
  haveI : Decidable (∀ c ∈ t.text, isSpace c = true) := List.decidableBAll _ _
  inferInstanceAs (Decidable (_ ∧ _ ∧ _))

/-- The token without the place where it stands, with one space for a stretch of white
space. -/
def respaced (t : Token) : Token :=
  ⟨t.kind, if t.IsStretch then [' '] else t.text, 0⟩

variable (t : Token)

@[simp] theorem kind_respaced : t.respaced.kind = t.kind :=
  rfl

@[simp] theorem isWhite_respaced : t.respaced.isWhite = t.isWhite :=
  rfl

@[simp] theorem isIdent_respaced : t.respaced.isIdent = t.isIdent :=
  rfl

/-- What is not white space is spelled as before. -/
theorem text_respaced {t : Token} (h : t.isWhite = false) : t.respaced.text = t.text := by
  have hstretch : ¬t.IsStretch := fun hstretch => by
    rw [hstretch.1] at h
    cases h
  exact if_neg hstretch

/-- A token that is not white space only loses its offset. -/
theorem respaced_of_not_isWhite {t : Token} (h : t.isWhite = false) :
    t.respaced = { t with offset := 0 } := by
  rw [respaced]
  exact congrArg (Token.mk t.kind · 0) (text_respaced h)

/-- Respacing does not change which punctuator a token is. -/
@[simp] theorem isPunct_respaced (s : Text) : t.respaced.isPunct s = t.isPunct s := by
  by_cases hkind : t.kind = .punctuator
  · have htext : t.respaced.text = t.text := text_respaced (by simp [isWhite, hkind])
    rw [isPunct, isPunct, htext]
    rfl
  · simp [isPunct, hkind]

/-- Respacing neither empties a token nor fills an empty one. -/
@[simp] theorem isEmpty_text_respaced : t.respaced.text.isEmpty = t.text.isEmpty := by
  rw [respaced]
  dsimp only
  split
  · rename_i h
    simp [h.2.1]
  · rfl

end Token

/-- White space that was read from a text is a stretch of it. -/
theorem isStretch_of_mem_tokenizeFrom {here : Nat} {text : Text} {t : Token}
    (h : t ∈ tokenizeFrom here text) (hwhite : t.isWhite = true) : t.IsStretch := by
  obtain ⟨here, c, cs, rfl⟩ := exists_read_of_mem_tokenizeFrom h
  cases hgap : Gap.startsAt (c :: cs) with
  | true =>
    obtain ⟨d, ds, htext, hspaces⟩ := Lexeme.exists_spaces_of_startsAt hgap here
    rw [htext] at hwhite ⊢
    exact ⟨hwhite, List.cons_ne_nil d ds, hspaces⟩
  | false =>
    rw [Token.isWhite, decide_eq_true_eq] at hwhite
    exact absurd hwhite (Lexeme.kind_of_not_startsAt hgap)

/-- **Two spellings make up the same token when they are respaced**, or again none. -/
theorem lexSingle?_respaced {t : Token} (ht : t.text ≠ []) (u : Token) :
    lexSingle? (t.respaced.text ++ u.respaced.text) = lexSingle? (t.text ++ u.text) := by
  have hspace : ∀ c ∈ [' '], isSpace c = true := List.forall_mem_singleton.2 rfl
  have htext {v : Token} (h : v.IsStretch) : v.respaced.text = [' '] := if_pos h
  have hsame {v : Token} (h : ¬v.IsStretch) : v.respaced.text = v.text := if_neg h
  by_cases hleft : t.IsStretch
  · rw [htext hleft, lexSingle?_spaces_append (List.cons_ne_nil _ _) hspace,
      lexSingle?_spaces_append hleft.2.1 hleft.2.2]
  · rw [hsame hleft]
    by_cases hright : u.IsStretch
    · rw [htext hright, lexSingle?_append_spaces ht (List.cons_ne_nil _ _) hspace,
        lexSingle?_append_spaces ht hright.2.1 hright.2.2]
    · rw [hsame hright]

/-- A token that a text spells alone is respaced already. -/
theorem respaced_of_lexSingle? {s : Text} {t : Token} (h : lexSingle? s = some t) :
    t.respaced = t := by
  rw [lexSingle?] at h
  split at h
  · rename_i u _ htokens
    split at h
    · cases h
    · rename_i hwhite
      obtain rfl := Option.some.inj h
      have hoffset : u.offset = 0 := by
        match s with
        | [] =>
          rw [tokenize, tokenizeFrom] at htokens
          cases htokens
        | c :: cs =>
          rw [tokenize, tokenizeFrom] at htokens
          rw [← (List.cons.inj htokens).1]
      have htext := Token.text_respaced (Bool.eq_false_iff.2 hwhite)
      rw [Token.respaced] at htext ⊢
      dsimp only at htext
      rw [htext, ← hoffset]
  · cases h

end DevicetreePrep
