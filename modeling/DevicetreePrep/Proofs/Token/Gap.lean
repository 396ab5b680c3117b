/-
# Gaps and what stands behind them

A gap is a stretch of white space and comments.  It spells white space only
(`Gap.isSpace_of_mem_text`), and it is as long as it can be: behind it no gap starts
(`Gap.startsAt_drop_width`).  White space that stands in place of a gap is read as one gap
again (`Gap.read_append`).

Two texts start alike for some characters if they have the same characters there, or if the
second one has white space or its end before that (`StartsAlike`).  This is what the readers
of tokens look at; where texts start alike, a gap starts in both or in none.
-/

import DevicetreePrep.Token.Lexer

namespace DevicetreePrep

/-- The white space between tokens, character by character. -/
theorem mem_of_isSpace {c : Char} (h : isSpace c = true) :
    c ∈ [' ', '\t', '\n', '\x0b', '\x0c', '\r'] := by
  simp only [isSpace, Bool.or_eq_true, Bool.and_eq_true, decide_eq_true_eq] at h
  rcases h with rfl | ⟨hlow, hhigh⟩
  · decide
  · have hnat : c.toNat ∈ [0x09, 0x0A, 0x0B, 0x0C, 0x0D] := by
      simp only [List.mem_cons, List.not_mem_nil, or_false]
      omega
    rw [← Char.ofNat_toNat c]
    generalize c.toNat = n at hnat
    revert n
    decide

/-- White space goes on with no word and no number. -/
theorem parts_of_isSpace {c : Char} (h : isSpace c = true) :
    isWordChar c = false ∧ Lexeme.isNumberPart c = false ∧ isDigit c = false := by
  have hmem := mem_of_isSpace h
  simp only [List.mem_cons, List.not_mem_nil, or_false] at hmem
  rcases hmem with rfl | rfl | rfl | rfl | rfl | rfl <;> decide

/-- For `n` characters a text starts as another one does, unless white space or its end
comes first. -/
def StartsAlike : Nat → Text → Text → Prop
  | 0, _, _ => True
  | _ + 1, _, [] => True
  | n + 1, t, c :: t' => isSpace c = true ∨ ∃ rest, t = c :: rest ∧ StartsAlike n rest t'

namespace StartsAlike

variable {n : Nat} {t t' : Text} {c : Char}

theorem nil (n : Nat) (t : Text) : StartsAlike n t [] := by
  cases n <;> exact trivial

/-- Every text starts like one with white space in front, for nothing counts behind that. -/
theorem of_isSpace (n : Nat) (t t' : Text) (h : isSpace c = true) : StartsAlike n t (c :: t') := by
  cases n with
  | zero => exact trivial
  | succ n => exact .inl h

theorem cons (c : Char) (h : StartsAlike n t t') : StartsAlike (n + 1) (c :: t) (c :: t') :=
  .inr ⟨t, rfl, h⟩

/-- What starts alike for one more character starts alike. -/
theorem weaken (h : StartsAlike (n + 1) t t') : StartsAlike n t t' := by
  induction n generalizing t t' with
  | zero => exact trivial
  | succ n ih =>
    match t', h with
    | [], _ => exact trivial
    | c :: t', .inl hspace => exact .inl hspace
    | c :: t', .inr ⟨rest, hrest, h⟩ => exact .inr ⟨rest, hrest, ih h⟩

/-- Where no white space comes, the two texts have the same first character. -/
theorem exists_of_cons (h : StartsAlike (n + 1) t (c :: t')) (hc : isSpace c = false) :
    ∃ rest, t = c :: rest ∧ StartsAlike n rest t' := by
  rcases h with hspace | h
  · rw [hc] at hspace
    cases hspace
  · exact h

/-- Behind the same characters, texts that start alike make texts that start alike. -/
theorem take_append {k : Nat} (h : StartsAlike n (t.drop k) t') :
    StartsAlike n t (t.take k ++ t') := by
  induction k generalizing n t with
  | zero => exact h
  | succ k ih =>
    match t, n with
    | [], _ => exact h
    | c :: t, 0 => exact trivial
    | c :: t, n + 1 => exact cons c (ih h.weaken)

/-- Texts that start alike have the same characters as far as there is no white space. -/
theorem take_eq (h : StartsAlike n t t') (hspace : ∀ c ∈ t'.take n, isSpace c = false)
    (hlength : n ≤ t'.length) : t.take n = t'.take n := by
  induction n generalizing t t' with
  | zero => rfl
  | succ n ih =>
    match t', h, hlength with
    | c :: t', h, hlength =>
      obtain ⟨rest, rfl, hrest⟩ := h.exists_of_cons (hspace c (List.mem_cons_self ..))
      rw [List.take_succ_cons, List.take_succ_cons, ih hrest
        (fun d hd => hspace d (List.mem_cons_of_mem _ hd)) (Nat.le_of_succ_le_succ hlength)]

end StartsAlike

namespace Gap

/-- Whether a text starts with white space or a comment. -/
def startsAt : Text → Bool
  | '/' :: '/' :: _ => true
  | '/' :: '*' :: _ => true
  | c :: _ => isSpace c
  | [] => false

theorem width_behind (n : Nat) (t : Text) (g : Gap) : (behind n t g).width = g.width + n :=
  Nat.add_comm ..

/-- A text starts with a gap where it starts with white space. -/
theorem startsAt_of_isSpace {c : Char} {t : Text} (h : isSpace c = true) :
    startsAt (c :: t) = true := by
  have hslash : c ≠ '/' := by
    rintro rfl
    exact absurd h (by decide)
  rw [startsAt.eq_3 _ _ (fun _ h => absurd h hslash) (fun _ h => absurd h hslash)]
  exact h

/-- **Behind a gap there is no gap.** -/
theorem startsAt_drop_width (here : Nat) (m : Mode) (t : Text) :
    startsAt (t.drop (readIn here m t).width) = false := by
  fun_induction readIn here m t with
  | case4 here c cs hline hblock hspace =>
    rw [List.drop_zero, startsAt.eq_3 c cs hline hblock]
    exact Bool.eq_false_iff.2 hspace
  | case9 | case10 => rfl
  | _ =>
    rw [width_behind]
    assumption

/-- What a gap spells is white space. -/
theorem isSpace_of_mem_text (here : Nat) (m : Mode) (t : Text) :
    ∀ c ∈ (readIn here m t).text, isSpace c = true := by
  fun_induction readIn here m t with
  | case1 here cs ih | case2 here cs ih => exact List.forall_mem_cons.2 ⟨rfl, ih⟩
  | case3 here c cs hline hblock hspace ih => exact List.forall_mem_cons.2 ⟨hspace, ih⟩
  | case5 here cs ih => exact List.forall_mem_cons.2 ⟨rfl, ih⟩
  | case4 | case9 | case10 => exact fun c hc => absurd hc List.not_mem_nil
  | _ => assumption

/-- Behind a comment that is never closed there is nothing. -/
theorem drop_width_of_unclosed {here opened : Nat} {m : Mode} {t : Text}
    (h : (readIn here m t).unclosed = some opened) : t.drop (readIn here m t).width = [] := by
  fun_induction readIn here m t with
  | case4 => cases h
  | case9 | case10 => rfl
  | _ =>
    rename_i ih
    rw [width_behind]
    exact ih h

/-- Where no white space and no comment stands, there is no gap. -/
theorem read_of_not_startsAt {t : Text} (h : startsAt t = false) (here : Nat) :
    read here t = {} := by
  revert h
  fun_cases startsAt t with
  | case1 | case2 => exact fun h => Bool.noConfusion h
  | case3 c cs hline hblock =>
    intro h
    rw [read, readIn.eq_3 _ _ _ hline hblock, h]
    rfl
  | case4 => exact fun _ => rfl

/-- Where white space or a comment stands, the gap covers it. -/
theorem width_ne_zero_of_startsAt {t : Text} (h : startsAt t = true) (here : Nat) :
    (read here t).width ≠ 0 := by
  revert h
  fun_cases startsAt t with
  | case1 | case2 =>
    intro _
    rw [read, readIn, width_behind]
    exact Nat.succ_ne_zero _
  | case3 c cs hline hblock =>
    intro h
    rw [read, readIn.eq_3 _ _ _ hline hblock, if_pos h, width_behind]
    exact Nat.succ_ne_zero _
  | case4 => exact fun h => Bool.noConfusion h

/-- White space in front of a text goes into the gap at its front. -/
theorem read_cons {c : Char} (hc : isSpace c = true) (here : Nat) (t : Text) :
    read here (c :: t) = behind 1 [c] (read (here + 1) t) := by
  have hslash : c ≠ '/' := by
    rintro rfl
    exact absurd hc (by decide)
  rw [read, readIn.eq_3 _ _ _ (fun _ h => absurd h hslash) (fun _ h => absurd h hslash),
    if_pos hc, ← read]

/-- White space is read as one gap, up to a text that starts with none. -/
theorem read_append {spaces t : Text} (hspaces : ∀ c ∈ spaces, isSpace c = true)
    (ht : startsAt t = false) (here : Nat) :
    read here (spaces ++ t) = { text := spaces, width := spaces.length } := by
  induction spaces generalizing here with
  | nil => exact read_of_not_startsAt ht here
  | cons c spaces ih =>
    obtain ⟨hc, hspaces⟩ := List.forall_mem_cons.1 hspaces
    rw [List.cons_append, read_cons hc, ih hspaces]
    simp [behind, Nat.add_comm]

/-- Where texts start alike, a gap starts in both. -/
theorem startsAt_of_startsAlike {c : Char} {t t' : Text} (h : StartsAlike 1 t t')
    (hgap : startsAt (c :: t') = true) : startsAt (c :: t) = true := by
  by_cases hc : isSpace c = true
  · exact startsAt_of_isSpace hc
  · generalize ht : c :: t' = u at hgap
    revert hgap
    fun_cases startsAt u with
    | case1 | case2 =>
      obtain ⟨rfl, rfl⟩ := List.cons.inj ht
      obtain ⟨rest, rfl, -⟩ := h.exists_of_cons (by decide)
      exact fun _ => rfl
    | case3 d u =>
      obtain ⟨rfl, rfl⟩ := List.cons.inj ht
      exact fun h => absurd h hc
    | case4 => cases ht

end Gap

end DevicetreePrep
