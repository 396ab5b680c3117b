/-
# Tokens follow each other

A token spells no more characters than it covers: a gap spells each of its comments, which
has two characters at least, as one space (`Gap.bounds_readIn`), and any other token is the
stretch that it covers.  So each token of a text, comments or not, stops before the next
one starts (`pairwise_tokenizeFrom`), and the last one within the text
(`bounds_of_mem_tokenizeFrom`).
-/

import DevicetreePrep.Proofs.Token.Lookahead

namespace DevicetreePrep

/-- A gap spells no more than it covers, and it covers no more than there is. -/
theorem Gap.bounds_readIn (here : Nat) (m : Mode) (t : Text) :
    (readIn here m t).text.length ≤ (readIn here m t).width ∧
      (readIn here m t).width ≤ t.length := by
  fun_induction readIn here m t with
  | case4 | case9 | case10 => simp
  | _ =>
    simp only [behind, List.length_append, List.length_cons, List.length_nil]
    omega

/-- A token spells no more than it covers, and it covers no more than there is. -/
theorem Lexeme.bounds_read (here : Nat) (c : Char) (cs : Text) :
    (read here c cs).text.length ≤ (read here c cs).width ∧
      (read here c cs).width ≤ (c :: cs).length := by
  cases hgap : Gap.startsAt (c :: cs) with
  | true =>
    rw [read_of_startsAt hgap]
    exact Gap.bounds_readIn here .space (c :: cs)
  | false =>
    rw [text_of_not_startsAt hgap]
    exact ⟨List.length_take_le .., width_le_of_not_startsAt hgap⟩

/-- A token stands in its text and spells something. -/
theorem bounds_of_mem_tokenizeFrom {here : Nat} {text : Text} {t : Token}
    (h : t ∈ tokenizeFrom here text) :
    here ≤ t.offset ∧ t.offset < t.stop ∧ t.stop ≤ here + text.length := by
  have hpos := List.length_pos_of_ne_nil (text_ne_nil_of_mem_tokenizeFrom h)
  fun_induction tokenizeFrom here text with
  | case1 => cases h
  | case2 here c cs l ih =>
    have hl : l.text.length ≤ l.width ∧ l.width ≤ (c :: cs).length := Lexeme.bounds_read here c cs
    rcases List.mem_cons.1 h with rfl | h
    · simp only [Token.stop] at hpos ⊢
      omega
    · have hrest := ih h
      rw [List.length_drop] at hrest
      omega

/-- **Each token stops before the next one starts.** -/
theorem pairwise_tokenizeFrom (here : Nat) (text : Text) :
    (tokenizeFrom here text).Pairwise fun t u => t.stop ≤ u.offset := by
  fun_induction tokenizeFrom here text with
  | case1 => exact List.Pairwise.nil
  | case2 here c cs l ih =>
    refine List.pairwise_cons.2 ⟨fun u hu => ?_, ih⟩
    have hl : l.text.length ≤ l.width := (Lexeme.bounds_read here c cs).1
    exact Nat.le_trans (Nat.add_le_add_left hl here) (bounds_of_mem_tokenizeFrom hu).1

end DevicetreePrep
