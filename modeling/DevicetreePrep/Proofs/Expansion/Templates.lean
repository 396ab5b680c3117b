/-
# How a replacement is read

A replacement is read from the front.  A `#` and a tied comma look ahead for the first token
behind them that is not white space, so what they take is a token of the replacement, and
what is left to read is an end of it (`exists_of_operator`).  All that reading asks about a
token is whether it is white space, an identifier or a certain punctuator, and whether its
spelling is a parameter.  So if the tokens of one replacement answer as those of another
one, token by token (`Corresponds`), then the two have the same parts, up to what the
tokens are called (`forall₂_partsFrom`).
-/

import DevicetreePrep.Expansion.Template
import Mathlib.Data.List.Forall2

namespace DevicetreePrep
namespace Expansion

variable {d d' : Definition} {t name : Token} {ts after : List Token}

/-- The first token that is not white stays the first one under a map that keeps white space. -/
theorem significant?_map {g : Token → Token} (hg : ∀ t, (g t).isWhite = t.isWhite)
    (ts : List Token) :
    significant? (ts.map g) = (significant? ts).map (Prod.map g (List.map g)) := by
  induction ts with
  | nil => rfl
  | cons t ts ih =>
    rw [List.map_cons, significant?, significant?, hg]
    split
    · exact ih
    · rfl

/-- The first token that counts is not white. -/
theorem isWhite_of_significant? (h : significant? ts = some (t, after)) : t.isWhite = false := by
  induction ts with
  | nil => cases h
  | cons u us ih =>
    rw [significant?] at h
    split at h
    · exact ih h
    · rename_i hu
      obtain ⟨rfl, -⟩ := Prod.mk.inj (Option.some.inj h)
      exact Bool.eq_false_iff.2 hu

/-- The first significant token and what follows it are an end of the tokens. -/
theorem suffix_of_significant? (h : significant? ts = some (t, after)) : t :: after <:+ ts := by
  induction ts with
  | nil => cases h
  | cons u us ih =>
    rw [significant?] at h
    split at h
    · exact (ih h).trans (List.suffix_cons u us)
    · obtain ⟨rfl, rfl⟩ := Prod.mk.inj (Option.some.inj h)
      exact List.suffix_rfl

theorem mem_of_significant? (h : significant? ts = some (t, after)) : t ∈ ts :=
  (suffix_of_significant? h).subset (List.mem_cons_self ..)

/-- What a `#` or a tied comma takes is the first significant token of some end of the
tokens behind it. -/
theorem exists_of_operator
    (h : stringized? d t ts = some (name, after) ∨ tied? d t ts = some (name, after)) :
    ∃ us, us <:+ ts ∧ significant? us = some (name, after) := by
  rcases h with h | h
  · rw [stringized?] at h
    split at h
    · exact ⟨ts, List.suffix_rfl, (Option.filter_eq_some_iff.1 h).1⟩
    · cases h
  · rw [tied?] at h
    split at h
    · split at h
      · rename_i op behind hop
        split at h
        · have hbehind : behind <:+ ts :=
            (List.suffix_cons op behind).trans (suffix_of_significant? hop)
          exact ⟨behind, hbehind, (Option.filter_eq_some_iff.1 h).1⟩
        · cases h
      · cases h
    · cases h

/-- What a `#` or a tied comma takes is not white space. -/
theorem isWhite_of_operator
    (h : stringized? d t ts = some (name, after) ∨ tied? d t ts = some (name, after)) :
    name.isWhite = false := by
  obtain ⟨us, -, hus⟩ := exists_of_operator h
  exact isWhite_of_significant? hus

/-- What an operator takes, and what follows it, end the tokens behind the operator. -/
theorem suffix_of_operator
    (h : stringized? d t ts = some (name, after) ∨ tied? d t ts = some (name, after)) :
    name :: after <:+ ts := by
  obtain ⟨us, hsuffix, hus⟩ := exists_of_operator h
  exact (suffix_of_significant? hus).trans hsuffix

/-- Only a comma is tied to a rest. -/
theorem isPunct_of_tied? (h : tied? d t ts = some (name, after)) : t.isPunct [','] = true := by
  rw [tied?] at h
  split at h
  · assumption
  · cases h

section PartsFrom

variable {before : Option Token}

/-- A hash sign in front of a parameter gives a string of it. -/
theorem partsFrom_of_stringized? (hwhite : ¬t.isWhite = true) (hpaste : ¬isPaste t = true)
    (h : stringized? d t ts = some (name, after)) :
    partsFrom d before (t :: ts) = .stringize name.text :: partsFrom d (some name) after := by
  rw [partsFrom, if_neg hwhite, if_neg hpaste]
  split
  · rename_i h'
    obtain ⟨rfl, rfl⟩ := Prod.mk.inj (Option.some.inj (h.symm.trans h'))
    rfl
  · rename_i h'
    cases h.symm.trans h'

/-- A comma that is tied to a rest gives one part with it. -/
theorem partsFrom_of_tied? (hwhite : ¬t.isWhite = true) (hpaste : ¬isPaste t = true)
    (hnone : stringized? d t ts = none) (h : tied? d t ts = some (name, after)) :
    partsFrom d before (t :: ts) = .commaRest t name.text :: partsFrom d (some name) after := by
  rw [partsFrom, if_neg hwhite, if_neg hpaste]
  split
  · rename_i h'
    cases hnone.symm.trans h'
  · split
    · rename_i h'
      obtain ⟨rfl, rfl⟩ := Prod.mk.inj (Option.some.inj (h.symm.trans h'))
      rfl
    · rename_i h'
      cases h.symm.trans h'

/-- Any other token is an operand of a paste operator, a parameter or itself. -/
theorem partsFrom_of_none (hwhite : ¬t.isWhite = true) (hpaste : ¬isPaste t = true)
    (hstring : stringized? d t ts = none) (htie : tied? d t ts = none) :
    partsFrom d before (t :: ts) =
      (if t.isIdent && d.takes t.text then
        if before.any isPaste || (significant? ts).any fun (next, _) => isPaste next then
          .operand t.text
        else .parameter t.text
      else .token t) :: partsFrom d (some t) ts := by
  rw [partsFrom, if_neg hwhite, if_neg hpaste]
  split
  · rename_i h'
    cases hstring.symm.trans h'
  · split
    · rename_i h'
      cases htie.symm.trans h'
    · rfl

end PartsFrom

/-- The tokens of `body` have the roles for `d` that their images under `g` have for `d'`,
and the parts that they give are related by `R`. -/
structure Corresponds (d' d : Definition) (g : Token → Token) (R : Part → Part → Prop)
    (body : List Token) : Prop where
  isWhite : ∀ t, (g t).isWhite = t.isWhite
  isIdent : ∀ t, (g t).isIdent = t.isIdent
  isPunct : ∀ s t, (g t).isPunct s = t.isPunct s
  takes : ∀ t ∈ body, t.isWhite = false → d'.takes (g t).text = d.takes t.text
  tiesComma : ∀ t ∈ body, t.isWhite = false → d'.tiesComma (g t).text = d.tiesComma t.text
  paste : R .paste .paste
  token : ∀ t ∈ body, (t.isIdent && d.takes t.text) = false → R (.token (g t)) (.token t)
  stringize : ∀ t ∈ body, t.isWhite = false → R (.stringize (g t).text) (.stringize t.text)
  commaRest : ∀ c ∈ body, c.isPunct [','] = true → ∀ t ∈ body, t.isWhite = false →
    R (.commaRest (g c) (g t).text) (.commaRest c t.text)
  operand : ∀ t ∈ body, t.isWhite = false → R (.operand (g t).text) (.operand t.text)
  parameter : ∀ t ∈ body, t.isWhite = false → R (.parameter (g t).text) (.parameter t.text)

namespace Corresponds

variable {g : Token → Token} {R : Part → Part → Prop} {all : List Token}

/-- What is asked about the first significant token is answered alike. -/
theorem filter_significant? (h : Corresponds d' d g R all) (p' p : Token → Bool)
    (hp : ∀ t ∈ all, t.isWhite = false → p' (g t) = p t) (hts : ts ⊆ all) :
    ((significant? (ts.map g)).filter fun (n, _) => p' n) =
      ((significant? ts).filter fun (n, _) => p n).map (Prod.map g (List.map g)) := by
  rw [significant?_map h.isWhite]
  cases hs : significant? ts with
  | none => rfl
  | some q =>
    obtain ⟨t, after⟩ := q
    have ht := hp t (hts (mem_of_significant? hs)) (isWhite_of_significant? hs)
    simp only [Option.map_some, Prod.map, Option.filter_some, ht]
    split <;> rfl

/-- In corresponding replacements the same tokens are made strings. -/
theorem stringized? (h : Corresponds d' d g R all) (t : Token) (hts : ts ⊆ all) :
    Expansion.stringized? d' (g t) (ts.map g) =
      (Expansion.stringized? d t ts).map (Prod.map g (List.map g)) := by
  rw [Expansion.stringized?, Expansion.stringized?, h.isPunct]
  split
  · refine h.filter_significant? (fun n => n.isIdent && d'.takes n.text)
      (fun n => n.isIdent && d.takes n.text) (fun n hn hwhite => ?_) hts
    rw [h.isIdent, h.takes n hn hwhite]
  · rfl

/-- In corresponding replacements the same commas are tied. -/
theorem tied? (h : Corresponds d' d g R all) (t : Token) (hts : ts ⊆ all) :
    Expansion.tied? d' (g t) (ts.map g) =
      (Expansion.tied? d t ts).map (Prod.map g (List.map g)) := by
  rw [Expansion.tied?, Expansion.tied?, h.isPunct]
  split
  · rw [significant?_map h.isWhite]
    cases hs : significant? ts with
    | none => rfl
    | some q =>
      obtain ⟨op, behind⟩ := q
      have hbehind : behind ⊆ all := fun u hu =>
        hts ((suffix_of_significant? hs).subset (List.mem_cons_of_mem _ hu))
      dsimp only [Option.map_some, Prod.map]
      rw [isPaste, h.isPunct, ← isPaste]
      split
      · exact h.filter_significant? (fun n => d'.tiesComma n.text) (fun n => d.tiesComma n.text)
          h.tiesComma hbehind
      · rfl
  · rfl

/-- **Tokens that have the same roles give the same parts**, up to what `R` lets differ. -/
theorem forall₂_partsFrom (h : Corresponds d' d g R all) (before : Option Token)
    {body : List Token} (hbody : body ⊆ all) :
    List.Forall₂ R (partsFrom d' (before.map g) (body.map g)) (partsFrom d before body) := by
  have hpaste (t : Token) : isPaste (g t) = isPaste t := h.isPunct _ t
  have hpasted (before : Option Token) (ts : List Token) :
      ((before.map g).any isPaste ||
          (significant? (ts.map g)).any fun (next, _) => isPaste next) =
        (before.any isPaste || (significant? ts).any fun (next, _) => isPaste next) := by
    rw [significant?_map h.isWhite]
    cases before <;> cases significant? ts <;> simp [hpaste]
  fun_induction partsFrom d before body with
  | case1 =>
    rw [List.map_nil, partsFrom]
    exact .nil
  | case2 before t ts pasted hwhite hp ih =>
    rw [List.map_cons, partsFrom, hpasted, h.isWhite, if_pos hwhite, if_pos hp]
    exact ih (List.cons_subset.1 hbody).2
  | case3 before t ts pasted hwhite hp ih =>
    obtain ⟨ht, hts⟩ := List.cons_subset.1 hbody
    have hident : t.isIdent = false := by
      rw [Token.isWhite, decide_eq_true_eq] at hwhite
      rw [Token.isIdent, hwhite]
      rfl
    rw [List.map_cons, partsFrom, hpasted, h.isWhite, if_pos hwhite, if_neg hp]
    exact .cons (h.token t ht (by rw [hident, Bool.false_and])) (ih hts)
  | case4 before t ts hwhite hop ih =>
    rw [List.map_cons, partsFrom, h.isWhite, if_neg hwhite, hpaste, if_pos hop]
    exact .cons h.paste (ih (List.cons_subset.1 hbody).2)
  | case5 before t ts hwhite hop name after hname ih =>
    obtain ⟨ht, hts⟩ := List.cons_subset.1 hbody
    obtain ⟨hmem, hafter⟩ :=
      List.cons_subset.1 (List.Subset.trans (suffix_of_operator (.inl hname)).subset hts)
    have hname' := h.stringized? t hts
    rw [hname] at hname'
    rw [← hpaste] at hop
    rw [← h.isWhite] at hwhite
    rw [List.map_cons, partsFrom_of_stringized? hwhite hop hname']
    exact .cons (h.stringize name hmem (isWhite_of_operator (.inl hname))) (ih hafter)
  | case6 before t ts hwhite hop hnone name after hname ih =>
    obtain ⟨ht, hts⟩ := List.cons_subset.1 hbody
    obtain ⟨hmem, hafter⟩ :=
      List.cons_subset.1 (List.Subset.trans (suffix_of_operator (.inr hname)).subset hts)
    have hnone' := h.stringized? t hts
    have hname' := h.tied? t hts
    rw [hnone] at hnone'
    rw [hname] at hname'
    rw [← hpaste] at hop
    rw [← h.isWhite] at hwhite
    rw [List.map_cons, partsFrom_of_tied? hwhite hop hnone' hname']
    exact .cons (h.commaRest t ht (isPunct_of_tied? hname) name hmem
      (isWhite_of_operator (.inr hname))) (ih hafter)
  | case7 before t ts pasted hwhite hop hstring htie part ih =>
    obtain ⟨ht, hts⟩ := List.cons_subset.1 hbody
    have hstring' := h.stringized? t hts
    have htie' := h.tied? t hts
    rw [hstring] at hstring'
    rw [htie] at htie'
    have hplain : t.isWhite = false := Bool.eq_false_iff.2 hwhite
    rw [← hpaste] at hop
    rw [← h.isWhite] at hwhite
    rw [List.map_cons, partsFrom_of_none hwhite hop hstring' htie', hpasted, h.isIdent,
      h.takes t ht hplain]
    refine .cons ?_ (ih hts)
    simp only [part]
    split
    · split
      · exact h.operand t ht hplain
      · exact h.parameter t ht hplain
    · rename_i hfree
      exact h.token t ht (Bool.eq_false_iff.2 hfree)

end Corresponds
end Expansion
end DevicetreePrep
