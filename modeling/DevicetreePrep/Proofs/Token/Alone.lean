/-
# Tokens that stand alone

Where a token ends is decided in its text, with a look at the characters behind it.  Its own
spelling ends where it ends, and nothing is behind it there; yet the same token is read
(`Lexeme.lexSingle?_text`), because no character goes on with a token that did not go on with it
before.  The one exception is a literal that is never closed, which is no token by itself.  The
lexical error of the text tells which token this is (`exists_read_of_mem`).

The other way round, a text that is a single token is spelled by this token
(`text_of_lexSingle?`).  So where two pieces are pasted, the token that comes of them is spelled
as they are, one behind the other.
-/

import DevicetreePrep.Expansion.Paste
import DevicetreePrep.Proofs.Comment.Lexing
import DevicetreePrep.Proofs.Token.Offset
import DevicetreePrep.Proofs.Token.Respacing

namespace DevicetreePrep

/-- The token is a literal of the text that is never closed: the text has its lexical error
there. -/
def Token.IsUnclosedIn (t : Token) (source : Text) : Prop :=
  ∃ e ∈ lexicalError? source, e.what ≠ .blockComment ∧ e.offset = t.offset

instance (t : Token) (source : Text) : Decidable (t.IsUnclosedIn source) :=
  inferInstanceAs (Decidable (∃ e ∈ lexicalError? source, _))

namespace Lexeme

variable {here : Nat} {c : Char} {cs : Text}

/-- A literal that is never closed is at fault where it opens. -/
theorem offset_of_fault (hgap : Gap.startsAt (c :: cs) = false) {e : LexicalError}
    (h : (read here c cs).fault = some e) : e.offset = here := by
  rw [read_of_not_startsAt hgap, literal?] at h
  cases hstart : literalStart? (c :: cs) with
  | some p =>
    simp only [hstart, Option.map_some] at h
    split at h
    · cases h
    · rw [← Option.some.inj h]
  | none =>
    simp only [hstart, Option.map_none] at h
    split at h
    · cases h
    · split at h <;> cases h

/-- Whether a token is at fault does not depend on where its text stands. -/
theorem fault_elsewhere (hgap : Gap.startsAt (c :: cs) = false) (here here' : Nat) :
    (read here' c cs).fault = none ↔ (read here c cs).fault = none := by
  rw [read_of_not_startsAt hgap, read_of_not_startsAt hgap, literal?, literal?]
  cases literalStart? (c :: cs) with
  | some p =>
    dsimp only [Option.map_some]
    split <;> simp
  | none =>
    dsimp only [Option.map_none]
    split
    · exact Iff.rfl
    · split <;> exact Iff.rfl

/-- **A token is read again from its own spelling, unless it is at fault.** -/
theorem lexSingle?_text (hgap : Gap.startsAt (c :: cs) = false) (here : Nat) :
    lexSingle? (read here c cs).text = some ⟨(read here c cs).kind, (read here c cs).text, 0⟩ ↔
      (read here c cs).fault = none := by
  have hnothing : StartsAlike 2 ((c :: cs).drop (read 0 c cs).width) [] := StartsAlike.nil 2 _
  -- the spelling stands at the front of a text, and nothing follows it
  have htokens := tokenizeFrom_token hgap hnothing (.inr rfl) 0
  have herror := lexicalErrorFrom?_token hgap hnothing (.inr rfl)
  rw [List.append_nil, ← text_of_not_startsAt hgap, tokenizeFrom] at htokens
  rw [List.append_nil, ← text_of_not_startsAt hgap, lexicalErrorFrom?] at herror
  obtain ⟨hkind, htext, -⟩ := read_elsewhere hgap here 0
  have hwhite : Token.isWhite ⟨(read 0 c cs).kind, (read 0 c cs).text, 0⟩ = false :=
    decide_eq_false (kind_of_not_startsAt hgap)
  rw [← fault_elsewhere hgap here 0, ← hkind, ← htext, lexSingle?, lexicalError?, herror, tokenize,
    htokens]
  cases (read 0 c cs).fault with
  | none => exact iff_of_true (if_neg (Bool.eq_false_iff.1 hwhite)) rfl
  | some e => exact iff_of_false (Option.some_ne_none _).symm (Option.some_ne_none e)

end Lexeme

/-- A literal that is never closed stands within the text. -/
theorem le_offset_of_lexicalErrorFrom? {here : Nat} {text : Text} {e : LexicalError}
    (h : lexicalErrorFrom? here text = some e) (hwhat : e.what ≠ .blockComment) :
    here ≤ e.offset := by
  fun_induction lexicalErrorFrom? here text with
  | case1 => cases h
  | case2 here c cs l ih =>
    cases hfault : l.fault with
    | none =>
      rw [hfault] at h
      exact Nat.le_of_add_right_le (ih h)
    | some e' =>
      rw [hfault] at h
      obtain rfl : e' = e := Option.some.inj h
      have hgap : Gap.startsAt (c :: cs) = false :=
        Bool.eq_false_iff.2 fun hgap => hwhat ((Lexeme.what_of_fault hfault).2 hgap)
      exact Nat.le_of_eq (Lexeme.offset_of_fault hgap hfault).symm

/-- **A token is at fault exactly if the text has its lexical error there.** -/
theorem exists_read_of_mem {here : Nat} {text : Text} {t : Token}
    (h : t ∈ tokenizeFrom here text) (hwhite : t.isWhite = false) :
    ∃ c cs, Gap.startsAt (c :: cs) = false ∧
      t = ⟨(Lexeme.read t.offset c cs).kind, (Lexeme.read t.offset c cs).text, t.offset⟩ ∧
      ((Lexeme.read t.offset c cs).fault = none ↔
        ¬∃ e ∈ lexicalErrorFrom? here text, e.what ≠ .blockComment ∧ e.offset = t.offset) := by
  fun_induction tokenizeFrom here text with
  | case1 => cases h
  | case2 here c cs l ih =>
    rw [lexicalErrorFrom?]
    rcases List.mem_cons.1 h with rfl | h
    · have hgap : Gap.startsAt (c :: cs) = false := by
        refine Bool.eq_false_iff.2 fun hgap => ?_
        dsimp only [l] at hwhite
        rw [Lexeme.read_of_startsAt hgap] at hwhite
        cases hwhite
      refine ⟨c, cs, hgap, rfl, ?_⟩
      cases hfault : l.fault with
      | none =>
        -- an error of what follows stands behind the token
        refine iff_of_true rfl ?_
        rintro ⟨e, herror, hwhat, hoffset⟩
        have hle := le_offset_of_lexicalErrorFrom? herror hwhat
        have hpos : 0 < l.width := Lexeme.width_pos here c cs
        exact absurd hoffset (Nat.ne_of_gt (Nat.lt_of_lt_of_le (Nat.lt_add_of_pos_right hpos) hle))
      | some e =>
        refine iff_of_false (Option.some_ne_none e) (not_not_intro ?_)
        have hwhat : e.what ≠ .blockComment := fun hwhat => by
          rw [(Lexeme.what_of_fault hfault).1 hwhat] at hgap
          cases hgap
        exact ⟨e, rfl, hwhat, Lexeme.offset_of_fault hgap hfault⟩
    · cases hfault : l.fault with
      | none => exact ih h
      | some e =>
        -- behind a token at fault there is no other
        rw [Lexeme.drop_width_of_fault hfault, tokenizeFrom] at h
        cases h

/-- **A text that is a single token is spelled by it.** -/
theorem text_of_lexSingle? {s : Text} {t : Token} (h : lexSingle? s = some t) : t.text = s := by
  obtain ⟨c, cs, rfl, hgap, hfault, hdrop⟩ := exists_of_lexSingle? h
  have htext : (Lexeme.read 0 c cs).text = c :: cs := by
    rw [Lexeme.text_of_not_startsAt hgap]
    exact List.take_of_length_le (List.drop_eq_nil_iff.1 hdrop)
  have hsingle := (Lexeme.lexSingle?_text hgap 0).2 hfault
  rw [htext, h] at hsingle
  rw [Option.some.inj hsingle]

open Expansion in
/-- **Tokens are read again from their own spelling, and nothing else is.**  A token that is not
white space is the single token of its spelling exactly if it is no literal that is never closed.
A text that is a single token is spelled by it.  And two pieces that can be pasted give one
piece, which is spelled as the two are. -/
theorem lexSingle?_of_tokens (source : Text) :
    (∀ t ∈ tokenize source, t.isWhite = false →
      (lexSingle? t.text = some { t with offset := 0 } ↔ ¬t.IsUnclosedIn source)) ∧
    (∀ t, lexSingle? source = some t → t.text = source) ∧
    ∀ left right pieces, pastePair left right = (pieces, none) →
      ∃ p, pieces = [p] ∧ p.token.text = left.token.text ++ right.token.text := by
  refine ⟨fun t ht hwhite => ?_, fun t => text_of_lexSingle?, fun left right pieces hpaste => ?_⟩
  · obtain ⟨c, cs, hgap, hread, hfault⟩ := exists_read_of_mem ht hwhite
    rw [Token.IsUnclosedIn, lexicalError?, ← hfault, ← Lexeme.lexSingle?_text hgap t.offset]
    conv_lhs => rw [hread]
  · unfold pastePair at hpaste
    split at hpaste
    · rename_i hleft
      obtain ⟨rfl, -⟩ := Prod.mk.inj hpaste
      exact ⟨right, rfl, by rw [List.isEmpty_iff.1 hleft, List.nil_append]⟩
    · split at hpaste
      · rename_i hright
        obtain ⟨rfl, -⟩ := Prod.mk.inj hpaste
        exact ⟨left, rfl, by rw [List.isEmpty_iff.1 hright, List.append_nil]⟩
      · split at hpaste
        · rename_i t hsingle
          obtain ⟨rfl, -⟩ := Prod.mk.inj hpaste
          exact ⟨_, rfl, text_of_lexSingle? hsingle⟩
        · cases (Prod.mk.inj hpaste).2

open Expansion in
/-- Three dots in front of a number, and a number that ends with a sign, are read again; a literal
that is never closed is not.  The signs `<` and `<=` are pasted to one. -/
theorem lexSingle?_of_tokens_unclosed :
    let source := "...1.e+ 'b".toList
    (⟨.punctuator, "...".toList, 0⟩ ∈ tokenize source ∧
      lexSingle? "...".toList = some ⟨.punctuator, "...".toList, 0⟩) ∧
    (⟨.number, "1.e+".toList, 3⟩ ∈ tokenize source ∧
      lexSingle? "1.e+".toList = some ⟨.number, "1.e+".toList, 0⟩) ∧
    (⟨.charConst, "'b".toList, 8⟩ ∈ tokenize source ∧
      lexSingle? "'b".toList ≠ some ⟨.charConst, "'b".toList, 0⟩) ∧
    ∃ p, pastePair ⟨⟨.punctuator, "<".toList, 0⟩, []⟩ ⟨⟨.punctuator, "<=".toList, 0⟩, []⟩ =
        ([p], none) ∧ p.token.text = "<<=".toList := by
  intro source
  obtain ⟨halone, -, hpaste⟩ := lexSingle?_of_tokens source
  have hdots : ⟨.punctuator, "...".toList, 0⟩ ∈ tokenize source := by decide +kernel
  have hnumber : ⟨.number, "1.e+".toList, 3⟩ ∈ tokenize source := by decide +kernel
  have hopen : ⟨.charConst, "'b".toList, 8⟩ ∈ tokenize source := by decide +kernel
  have hpair : pastePair ⟨⟨.punctuator, "<".toList, 0⟩, []⟩ ⟨⟨.punctuator, "<=".toList, 0⟩, []⟩ =
      ([⟨⟨.punctuator, "<<=".toList, 0⟩, []⟩], none) := by decide +kernel
  refine ⟨⟨hdots, (halone _ hdots rfl).2 (by decide +kernel)⟩,
    ⟨hnumber, (halone _ hnumber rfl).2 (by decide +kernel)⟩, ⟨hopen, fun h => ?_⟩, ?_⟩
  · exact (halone _ hopen rfl).1 h (by decide +kernel)
  · obtain ⟨p, hp, htext⟩ := hpaste _ _ _ hpair
    exact ⟨p, by rw [hpair, hp], htext⟩

end DevicetreePrep
