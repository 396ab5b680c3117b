/-
# Tokens that are read again from their spelling

Tokens from different places, spelled one behind the other, need not be read again as they
were: two of them may make up one token, or start a comment.  Whether they are read again is
decided between neighbours.  A token is legible in front of a text if it is the first token
of its own spelling together with the next two characters (`Token.IsLegible`); no reader looks
further ahead (`tokenizeFrom_append`).

If all tokens are legible where they stand, the whole spelling is read as these tokens, white
space aside (`AreLegible.readings_eq`).  If one of them is not, something else is read
(`areLegible_of_readings`): the first token that is not legible is read as a different one,
or it opens a comment, and then characters are missing in what is read that are not white
space (`solids_tokenizeFrom_le`).
-/

import Mathlib
import DevicetreePrep.Proofs.Token.Respacing

namespace DevicetreePrep

/-- The kinds and spellings of the tokens that are not white space. -/
def readings (ts : List Token) : List (TokenKind × Text) :=
  (ts.filter (!·.isWhite)).map Token.reading

/-- The token is read again in front of a text: white space is spelled by white space, and any
other token is the first one of its spelling and the next two characters. -/
def Token.IsLegible (t : Token) (rest : Text) : Prop :=
  if t.isWhite then ∀ c ∈ t.text, isSpace c = true
  else (tokenize (t.text ++ rest.take 2)).head? = some { t with offset := 0 }

instance (t : Token) (rest : Text) : Decidable (t.IsLegible rest) :=
  -- by the members of the text: there is an instance that goes through all characters
  have : Decidable (∀ c ∈ t.text, isSpace c = true) := List.decidableBAll (isSpace · = true) t.text
  inferInstanceAs (Decidable (ite ..))

/-- Each token is legible in front of the spelling of those behind it. -/
def AreLegible : List Token → Prop
  | [] => True
  | t :: ts => t.IsLegible (render ts) ∧ AreLegible ts

instance AreLegible.instDecidablePred : DecidablePred AreLegible
  | [] => isTrue trivial
  | _ :: ts =>
    have := instDecidablePred ts
    inferInstanceAs (Decidable (_ ∧ _))

theorem readings_cons_of_isWhite {t : Token} (h : t.isWhite = true) (ts : List Token) :
    readings (t :: ts) = readings ts := by
  rw [readings, List.filter_cons_of_neg (by rw [h]; decide), ← readings]

theorem readings_cons_of_not_isWhite {t : Token} (h : t.isWhite = false) (ts : List Token) :
    readings (t :: ts) = t.reading :: readings ts := by
  rw [readings, List.filter_cons_of_pos (by rw [h]; rfl), List.map_cons, ← readings]

theorem readings_append (ts us : List Token) : readings (ts ++ us) = readings ts ++ readings us := by
  rw [readings, List.filter_append, List.map_append, ← readings, ← readings]

/-! What a single token needs in order to be read again. -/

/-- Two characters of a text start as it does. -/
theorem StartsAlike.take_left (n : Nat) (t : Text) : StartsAlike n (t.take n) t := by
  induction n generalizing t with
  | zero => exact trivial
  | succ n ih =>
    cases t with
    | nil => exact trivial
    | cons c t => exact (ih t).cons c

/-- A text starts like its first `n` characters. -/
theorem StartsAlike.take_right (n : Nat) (t : Text) : StartsAlike n t (t.take n) := by
  induction n generalizing t with
  | zero => exact trivial
  | succ n ih =>
    cases t with
    | nil => exact trivial
    | cons c t => exact (ih t).cons c

/-- **A token that is read in front of one text is read in front of another one** that starts
alike. -/
theorem tokenizeFrom_append {here : Nat} {kind : TokenKind} {s rest rest' : Text}
    (hkind : kind ≠ .whitespace)
    (h : (tokenizeFrom here (s ++ rest)).head? = some ⟨kind, s, here⟩)
    (hrest : StartsAlike 2 rest rest') (hnil : rest = [] → rest' = []) (here' : Nat) :
    tokenizeFrom here' (s ++ rest') = ⟨kind, s, here'⟩ :: tokenizeFrom (here' + s.length) rest' := by
  cases hsource : s ++ rest with
  | nil =>
    rw [hsource, tokenizeFrom] at h
    cases h
  | cons c cs =>
    rw [hsource, tokenizeFrom, List.head?_cons] at h
    obtain ⟨rfl, htext, -⟩ := Token.mk.inj (Option.some.inj h)
    have hgap : Gap.startsAt (c :: cs) = false := by
      rw [Bool.eq_false_iff]
      intro hgap
      rw [Lexeme.read_of_startsAt hgap] at hkind
      exact hkind rfl
    rw [Lexeme.text_of_not_startsAt hgap] at htext
    have hwidth : s.length = (Lexeme.read here c cs).width := by
      rw [← htext, List.length_take_of_le (Lexeme.width_le_of_not_startsAt hgap)]
    have hdrop : (c :: cs).drop (Lexeme.read here c cs).width = rest := by
      rw [← hsource, ← hwidth, List.drop_left]
    have hclosed : (Lexeme.read here c cs).fault = none ∨ rest' = [] := by
      cases hfault : (Lexeme.read here c cs).fault with
      | none => exact .inl rfl
      | some e => exact .inr (hnil (hdrop ▸ Lexeme.drop_width_of_fault hfault))
    have hread := tokenizeFrom_token hgap (hdrop.symm ▸ hrest) hclosed here'
    rw [Lexeme.text_of_not_startsAt hgap, htext, ← hwidth] at hread
    exact hread

/-- Nothing is read of white space but white space. -/
theorem exists_readings_spaces {spaces : Text} (h : ∀ c ∈ spaces, isSpace c = true) (rest : Text)
    (here : Nat) :
    ∃ here', readings (tokenizeFrom here (spaces ++ rest)) = readings (tokenizeFrom here' rest) := by
  have hgap (here : Nat) (t : Text) : readings (tokenizeFrom here t) =
      readings (tokenizeFrom (here + (Gap.read here t).width) (t.drop (Gap.read here t).width)) := by
    cases hstart : Gap.startsAt t with
    | false => rw [Gap.read_of_not_startsAt hstart]; rfl
    | true =>
      cases t with
      | nil => cases hstart
      | cons c cs =>
        conv_lhs => rw [tokenizeFrom, Lexeme.read_of_startsAt hstart]
        exact readings_cons_of_isWhite rfl _
  induction spaces generalizing here with
  | nil => exact ⟨here, rfl⟩
  | cons c spaces ih =>
    obtain ⟨hc, hspaces⟩ := List.forall_mem_cons.1 h
    obtain ⟨here', hrest⟩ := ih hspaces (here + 1)
    refine ⟨here', Eq.trans ?_ hrest⟩
    have hwidth : (Gap.read here (c :: (spaces ++ rest))).width =
        (Gap.read (here + 1) (spaces ++ rest)).width + 1 := by
      rw [Gap.read_cons hc, Gap.width_behind]
    rw [List.cons_append, hgap, hgap (here + 1), hwidth, List.drop_succ_cons]
    congr 2
    omega

namespace Token

variable {t : Token} {rest : Text}

/-- A legible token is read first again, and the rest behind it. -/
theorem IsLegible.tokenizeFrom_eq (h : t.IsLegible rest) (hwhite : t.isWhite = false)
    (here : Nat) : tokenizeFrom here (t.text ++ rest) =
      ⟨t.kind, t.text, here⟩ :: tokenizeFrom (here + t.text.length) rest := by
  have hkind : t.kind ≠ .whitespace := by simpa [isWhite] using hwhite
  rw [IsLegible, if_neg (Bool.eq_false_iff.1 hwhite)] at h
  refine tokenizeFrom_append hkind h (StartsAlike.take_left 2 rest) (fun hnil => ?_) here
  rwa [List.take_eq_nil_iff, or_iff_right (by decide)] at hnil

/-- A token is legible if it is the first one that is read of its spelling and what follows. -/
theorem isLegible_of_head? {here : Nat} (hwhite : t.isWhite = false)
    (h : (tokenizeFrom here (t.text ++ rest)).head? = some ⟨t.kind, t.text, here⟩) :
    t.IsLegible rest := by
  have hkind : t.kind ≠ .whitespace := by simpa [isWhite] using hwhite
  have hfront := tokenizeFrom_append hkind h (StartsAlike.take_right 2 rest)
    (fun hnil => by rw [hnil, List.take_nil]) 0
  rw [IsLegible, if_neg (Bool.eq_false_iff.1 hwhite), tokenize, hfront]
  rfl

end Token

/-- **Legible tokens are read again from their spelling**, white space aside. -/
theorem AreLegible.readings_eq {ts : List Token} (h : AreLegible ts) (here : Nat) :
    readings (tokenizeFrom here (render ts)) = readings ts := by
  induction ts generalizing here with
  | nil =>
    rw [render, List.flatMap_nil, tokenizeFrom]
  | cons t ts ih =>
    obtain ⟨ht, hts⟩ := h
    rw [render_cons]
    cases hwhite : t.isWhite with
    | true =>
      rw [Token.IsLegible, if_pos hwhite] at ht
      obtain ⟨here', hread⟩ := exists_readings_spaces ht (render ts) here
      rw [hread, ih hts, readings_cons_of_isWhite hwhite]
    | false =>
      have hwhite' : Token.isWhite ⟨t.kind, t.text, here⟩ = false := hwhite
      rw [ht.tokenizeFrom_eq hwhite, readings_cons_of_not_isWhite hwhite', ih hts,
        readings_cons_of_not_isWhite hwhite]
      rfl

/-! Characters that are not white space are never gained by reading, and a comment loses
some. -/

/-- How many characters of the text are not white space. -/
def solid (t : Text) : Nat :=
  t.countP (!isSpace ·)

/-- How many characters of the tokens are not white space. -/
def solids (rs : List (TokenKind × Text)) : Nat :=
  (rs.map fun r => solid r.2).sum

theorem solid_append (s t : Text) : solid (s ++ t) = solid s + solid t :=
  List.countP_append

/-- White space has no solid characters. -/
theorem solid_of_spaces {t : Text} (h : ∀ c ∈ t, isSpace c = true) : solid t = 0 := by
  rw [solid, List.countP_eq_zero]
  intro c hc
  simp [h c hc]

theorem spaces_of_solid {t : Text} (h : solid t = 0) : ∀ c ∈ t, isSpace c = true := by
  intro c hc
  simpa using List.countP_eq_zero.1 h c hc

theorem solid_take_add_drop (n : Nat) (t : Text) : solid (t.take n) + solid (t.drop n) = solid t := by
  rw [← solid_append, List.take_append_drop]

/-- Tokens have no more solid characters than the text they are read from. -/
theorem solids_tokenizeFrom_le (here : Nat) (t : Text) :
    solids (readings (tokenizeFrom here t)) ≤ solid t := by
  fun_induction tokenizeFrom here t with
  | case1 => exact Nat.zero_le _
  | case2 here c cs l ih =>
    have hsplit := solid_take_add_drop l.width (c :: cs)
    cases hgap : Gap.startsAt (c :: cs) with
    | true =>
      have hwhite : Token.isWhite ⟨l.kind, l.text, here⟩ = true := by
        simp only [l, Lexeme.read_of_startsAt hgap]
        rfl
      rw [readings_cons_of_isWhite hwhite]
      omega
    | false =>
      have hwhite : Token.isWhite ⟨l.kind, l.text, here⟩ = false :=
        decide_eq_false (Lexeme.kind_of_not_startsAt hgap)
      have htext : l.text = (c :: cs).take l.width := Lexeme.text_of_not_startsAt hgap
      rw [readings_cons_of_not_isWhite hwhite, solids, List.map_cons, List.sum_cons, ← solids,
        Token.reading]
      dsimp only
      rw [htext]
      omega

/-- A comment is lost. -/
theorem solids_tokenizeFrom_lt {c : Char} {cs : Text} (hc : isSpace c = false)
    (hgap : Gap.startsAt (c :: cs) = true) (here : Nat) :
    solids (readings (tokenizeFrom here (c :: cs))) < solid (c :: cs) := by
  have hwhite (text : Text) : Token.isWhite ⟨.whitespace, text, here⟩ = true := rfl
  have hsplit := solid_take_add_drop (Lexeme.read here c cs).width (c :: cs)
  have hfront : 0 < solid ((c :: cs).take (Lexeme.read here c cs).width) := by
    rw [Lexeme.take_width, solid, List.countP_cons_of_pos (by rw [hc]; rfl)]
    exact Nat.succ_pos _
  have hkind : (Lexeme.read here c cs).kind = .whitespace := by rw [Lexeme.read_of_startsAt hgap]
  have hrest := solids_tokenizeFrom_le (here + (Lexeme.read here c cs).width)
    ((c :: cs).drop (Lexeme.read here c cs).width)
  rw [tokenizeFrom, hkind, readings_cons_of_isWhite (hwhite _)]
  omega

/-- Nothing is lost of tokens whose white space is spelled by white space. -/
theorem solids_readings {ts : List Token}
    (h : ∀ t ∈ ts, t.isWhite = true → ∀ c ∈ t.text, isSpace c = true) :
    solids (readings ts) = solid (render ts) := by
  induction ts with
  | nil => rfl
  | cons t ts ih =>
    obtain ⟨ht, hts⟩ := List.forall_mem_cons.1 h
    rw [render_cons, solid_append, ← ih hts]
    cases hwhite : t.isWhite with
    | true => rw [readings_cons_of_isWhite hwhite, solid_of_spaces (ht hwhite), Nat.zero_add]
    | false =>
      rw [readings_cons_of_not_isWhite hwhite, solids, List.map_cons, List.sum_cons, ← solids]
      rfl

/-- A token that is read, other than white space, does not start with white space. -/
theorem exists_solid_of_mem_readings {here : Nat} {text : Text} {r : TokenKind × Text}
    (h : r ∈ readings (tokenizeFrom here text)) : ∃ c cs, r.2 = c :: cs ∧ isSpace c = false := by
  rw [readings, List.mem_map] at h
  obtain ⟨t, ht, rfl⟩ := h
  obtain ⟨hmem, hwhite⟩ := List.mem_filter.1 ht
  obtain ⟨here, c, cs, rfl⟩ := exists_read_of_mem_tokenizeFrom hmem
  have hgap : Gap.startsAt (c :: cs) = false := by
    rw [Bool.eq_false_iff]
    intro hgap
    rw [Lexeme.read_of_startsAt hgap] at hwhite
    cases hwhite
  refine ⟨c, cs.take ((Lexeme.read here c cs).width - 1), ?_, ?_⟩
  · rw [Token.reading]
    dsimp only
    rw [Lexeme.text_of_not_startsAt hgap, Lexeme.take_width]
  · rw [Bool.eq_false_iff]
    intro hspace
    rw [Gap.startsAt_of_isSpace hspace] at hgap
    cases hgap

/-- Where no gap stands, the first token that is not white space is the first token. -/
theorem head?_of_readings {here : Nat} {text : Text} {r : TokenKind × Text}
    {rs : List (TokenKind × Text)} (hgap : Gap.startsAt text = false)
    (h : readings (tokenizeFrom here text) = r :: rs) :
    (tokenizeFrom here text).head? = some ⟨r.1, r.2, here⟩ := by
  cases text with
  | nil =>
    rw [tokenizeFrom] at h
    cases h
  | cons c cs =>
    have hwhite : Token.isWhite ⟨(Lexeme.read here c cs).kind, (Lexeme.read here c cs).text, here⟩ =
        false := decide_eq_false (Lexeme.kind_of_not_startsAt hgap)
    rw [tokenizeFrom, readings_cons_of_not_isWhite hwhite] at h
    obtain ⟨rfl, -⟩ := List.cons.inj h
    rw [tokenizeFrom]
    rfl

/-- **Tokens that are read again from their spelling are legible**, if their white space is
spelled by white space. -/
theorem areLegible_of_readings {ts : List Token}
    (hspaces : ∀ t ∈ ts, t.isWhite = true → ∀ c ∈ t.text, isSpace c = true) {here : Nat}
    (h : readings (tokenizeFrom here (render ts)) = readings ts) : AreLegible ts := by
  induction ts generalizing here with
  | nil => exact trivial
  | cons t ts ih =>
    obtain ⟨ht, hts⟩ := List.forall_mem_cons.1 hspaces
    rw [render_cons] at h
    cases hwhite : t.isWhite with
    | true =>
      obtain ⟨here', hread⟩ := exists_readings_spaces (ht hwhite) (render ts) here
      rw [hread, readings_cons_of_isWhite hwhite] at h
      refine ⟨?_, ih hts h⟩
      rw [Token.IsLegible, if_pos hwhite]
      exact ht hwhite
    | false =>
      rw [readings_cons_of_not_isWhite hwhite] at h
      obtain ⟨c, cs, htext, hc⟩ : ∃ c cs, t.text = c :: cs ∧ isSpace c = false :=
        exists_solid_of_mem_readings (h ▸ List.mem_cons_self ..)
      have hgap : Gap.startsAt (t.text ++ render ts) = false := by
        rw [Bool.eq_false_iff]
        intro hgap
        -- the token opens a comment, so that its first character is not read
        have hall := solids_readings hspaces
        rw [readings_cons_of_not_isWhite hwhite, ← h, render_cons] at hall
        rw [htext, List.cons_append] at hgap hall
        exact absurd hall (Nat.ne_of_lt (solids_tokenizeFrom_lt hc hgap here))
      have hlegible : t.IsLegible (render ts) :=
        Token.isLegible_of_head? hwhite (head?_of_readings hgap h)
      have hwhite' : Token.isWhite ⟨t.kind, t.text, here⟩ = false := hwhite
      rw [hlegible.tokenizeFrom_eq hwhite, readings_cons_of_not_isWhite hwhite'] at h
      exact ⟨hlegible, ih hts (List.cons.inj h).2⟩

end DevicetreePrep
