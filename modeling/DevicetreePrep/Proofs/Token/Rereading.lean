/-
# Tokens are read again

The tokens of a text, spelled in their order up to any of them, start as the text does
(`startsAlike_render`): where the text has a comment, they have a space.  So each of them
is read again as it was, and all of them have the same kinds and spellings as before
(`reading_tokenizeFrom_render`).
-/

import DevicetreePrep.Proofs.Token.Lookahead

namespace DevicetreePrep

/-- The kind and the spelling of a token. -/
def Token.reading (t : Token) : TokenKind × Text :=
  (t.kind, t.text)

/-- White space in front of a text without a gap is the first token. -/
theorem tokenizeFrom_spaces {spaces rest : Text} (hne : spaces ≠ []) (hspaces : ∀ c ∈ spaces, isSpace c = true)
    (hrest : Gap.startsAt rest = false) (here : Nat) :
    tokenizeFrom here (spaces ++ rest) =
      ⟨.whitespace, spaces, here⟩ :: tokenizeFrom (here + spaces.length) rest := by
  obtain ⟨d, ds, rfl⟩ := List.exists_cons_of_ne_nil hne
  have hgap : Gap.startsAt (d :: (ds ++ rest)) = true :=
    Gap.startsAt_of_isSpace (hspaces d (List.mem_cons_self ..))
  rw [List.cons_append, tokenizeFrom, Lexeme.read_of_startsAt hgap, ← List.cons_append,
    Gap.read_append hspaces hrest]
  dsimp only
  rw [List.drop_left]

/-- A token in front of a text that starts as before is the first token. -/
theorem tokenizeFrom_token {here : Nat} {c : Char} {cs rest : Text}
    (hgap : Gap.startsAt (c :: cs) = false)
    (hrest : StartsAlike 2 ((c :: cs).drop (Lexeme.read here c cs).width) rest)
    (hclosed : (Lexeme.read here c cs).fault = none ∨ rest = []) (here' : Nat) :
    tokenizeFrom here' ((c :: cs).take (Lexeme.read here c cs).width ++ rest) =
      ⟨(Lexeme.read here c cs).kind, (Lexeme.read here c cs).text, here'⟩ ::
        tokenizeFrom (here' + (Lexeme.read here c cs).width) rest := by
  obtain ⟨hgap', hread⟩ := Lexeme.read_append hgap hrest hclosed
  obtain ⟨hkind, htext, hwidth⟩ := Lexeme.read_elsewhere hgap' here here'
  rw [hread] at hkind htext hwidth
  have htake := Lexeme.take_width here c cs
  rw [htake, List.cons_append, tokenizeFrom]
  rw [hkind, htext, hwidth, ← List.cons_append, ← htake,
    List.drop_left' (List.length_take_of_le (Lexeme.width_le_of_not_startsAt hgap))]

/-- **Tokens in their order start as their text does**, up to any of them. -/
theorem startsAlike_render {here : Nat} {text : Text} {ts us : List Token}
    (h : tokenizeFrom here text = ts ++ us) (n : Nat) : StartsAlike n text (render ts) := by
  fun_induction tokenizeFrom here text generalizing ts with
  | case1 =>
    obtain ⟨rfl, -⟩ := List.append_eq_nil_iff.1 h.symm
    exact StartsAlike.nil n _
  | case2 here c cs l =>
    rename_i ih
    cases ts with
    | nil => exact StartsAlike.nil n _
    | cons t ts =>
      obtain ⟨rfl, hts⟩ := List.cons.inj h
      rw [render_cons]
      dsimp only
      cases hgap : Gap.startsAt (c :: cs) with
      | true =>
        obtain ⟨d, ds, htext, hspaces⟩ := Lexeme.exists_spaces_of_startsAt hgap here
        rw [htext, List.cons_append]
        exact StartsAlike.of_isSpace n _ _ (hspaces d (List.mem_cons_self ..))
      | false =>
        rw [Lexeme.text_of_not_startsAt hgap]
        exact StartsAlike.take_append (ih hts)

/-- Where no gap stands in a text, none stands in the spelling of its tokens. -/
theorem startsAt_render {here : Nat} {text : Text} {ts us : List Token}
    (h : tokenizeFrom here text = ts ++ us) (htext : Gap.startsAt text = false) :
    Gap.startsAt (render ts) = false := by
  have halike := startsAlike_render h 2
  match text, ts with
  | _, [] => rfl
  | [], t :: ts =>
    rw [tokenizeFrom] at h
    cases h
  | c :: cs, t :: ts =>
    rw [tokenizeFrom] at h
    obtain ⟨rfl, -⟩ := List.cons.inj h
    rw [render_cons] at halike ⊢
    dsimp only at halike ⊢
    rw [Lexeme.text_of_not_startsAt htext, Lexeme.take_width, List.cons_append] at halike ⊢
    have hc : isSpace c = false := by
      rw [Bool.eq_false_iff]
      intro hspace
      rw [Gap.startsAt_of_isSpace hspace] at htext
      cases htext
    obtain ⟨rest, hrest, halike⟩ := halike.exists_of_cons hc
    obtain rfl := (List.cons.inj hrest).2
    rw [Bool.eq_false_iff] at htext ⊢
    exact fun hgap => htext (Gap.startsAt_of_startsAlike halike hgap)

/-- **Tokens that are spelled in their order are read again**, up to any of them. -/
theorem reading_tokenizeFrom_render {here : Nat} {text : Text} {ts us : List Token}
    (h : tokenizeFrom here text = ts ++ us) (here' : Nat) :
    (tokenizeFrom here' (render ts)).map Token.reading = ts.map Token.reading := by
  fun_induction tokenizeFrom here text generalizing ts here' with
  | case1 =>
    obtain ⟨rfl, -⟩ := List.append_eq_nil_iff.1 h.symm
    rw [render, List.flatMap_nil, tokenizeFrom]
  | case2 here c cs l =>
    rename_i ih
    cases ts with
    | nil => rw [render, List.flatMap_nil, tokenizeFrom]
    | cons t ts =>
      obtain ⟨rfl, hts⟩ := List.cons.inj h
      rw [render_cons]
      dsimp only
      cases hgap : Gap.startsAt (c :: cs) with
      | true =>
        obtain ⟨d, ds, htext, hspaces⟩ := Lexeme.exists_spaces_of_startsAt hgap here
        have hrest := startsAt_render hts (Lexeme.startsAt_drop_width hgap)
        have hkind : (Lexeme.read here c cs).kind = .whitespace := by
          rw [Lexeme.read_of_startsAt hgap]
        rw [htext, hkind, tokenizeFrom_spaces (List.cons_ne_nil d ds) hspaces hrest, List.map_cons,
          ih hts]
        rfl
      | false =>
        have hclosed : (Lexeme.read here c cs).fault = none ∨ render ts = [] := by
          cases hfault : (Lexeme.read here c cs).fault with
          | none => exact .inl rfl
          | some e =>
            rw [Lexeme.drop_width_of_fault hfault, tokenizeFrom] at hts
            rw [(List.append_eq_nil_iff.1 hts.symm).1]
            exact .inr rfl
        rw [Lexeme.text_of_not_startsAt hgap,
          tokenizeFrom_token hgap (startsAlike_render hts 2) hclosed, List.map_cons, ih hts,
          Lexeme.text_of_not_startsAt hgap]
        rfl

end DevicetreePrep
