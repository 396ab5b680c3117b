/-
# How far a token looks ahead

Where a token ends is decided by the characters of the token and by at most two more:
a number ends before a character that cannot go on with it, a word before one that is no
part of a word, and a dot looks at two characters to see whether there are three dots.
White space goes on with none of them.  So the same token is read if its characters are
followed by something else that starts alike for two characters (`Lexeme.read_append`).
Only a literal that is not closed must stay the last token, as it was
(`Lexeme.drop_width_of_fault`).
-/

import DevicetreePrep.Proofs.Expansion.Verbatim
import DevicetreePrep.Proofs.Token.Gap
import DevicetreePrep.Proofs.Token.Spelling
import Mathlib.Data.List.Basic

namespace DevicetreePrep

namespace Lexeme

variable {here : Nat} {c : Char} {cs cs' rest : Text}

/-- A quoted part ends where it did, whatever follows it, if it is closed. -/
theorem quotedWidth_append {quote : Char} (hquote : quote ≠ '\\') {t : Text}
    (h : (quotedWidth quote t).2 = true ∨ rest = []) :
    quotedWidth quote (t.take (quotedWidth quote t).1 ++ rest) = quotedWidth quote t := by
  fun_induction quotedWidth quote t with
  | case1 =>
    obtain rfl := h.resolve_left Bool.false_ne_true
    rfl
  | case2 d cs n closed hn ih =>
    rw [hn] at ih
    rw [List.take_succ_cons, List.take_succ_cons, List.cons_append, List.cons_append, quotedWidth,
      ih h]
  | case3 cs hescape =>
    rw [List.take_succ_cons, List.take_zero, List.cons_append,
      quotedWidth.eq_3 _ _ _ fun _ _ h => absurd h hquote, if_pos rfl]
  | case4 c cs hescape hc n closed hn ih =>
    rw [hn] at ih
    have hfront : ∀ d ds, c = '\\' → cs.take n ++ rest = d :: ds → False := by
      rintro d ds rfl hcons
      -- a backslash that escapes nothing is the last character
      cases cs with
      | cons e es => exact hescape e es rfl rfl
      | nil =>
        obtain ⟨rfl, rfl⟩ := Prod.mk.inj hn
        rw [h.resolve_left Bool.false_ne_true] at hcons
        cases hcons
    rw [List.take_succ_cons, List.cons_append, quotedWidth.eq_3 _ _ _ hfront, if_neg hc, ih h]

/-- Whether a literal starts is seen from three characters. -/
theorem literalStart?_of_startsAlike {p : Nat × Char} (h : StartsAlike 2 cs cs')
    (hstart : literalStart? (c :: cs') = some p) : literalStart? (c :: cs) = some p := by
  generalize ht : c :: cs' = t at hstart
  revert hstart
  fun_cases literalStart? t with
  | case1 | case2 =>
    obtain ⟨rfl, rfl⟩ := List.cons.inj ht
    exact id
  | case3 =>
    obtain ⟨rfl, rfl⟩ := List.cons.inj ht
    obtain ⟨behind, rfl, hbehind⟩ := h.exists_of_cons (by decide)
    obtain ⟨tail, rfl, -⟩ := hbehind.exists_of_cons (by decide)
    exact id
  | case4 d tail _ _ hletter | case6 d tail _ _ hletter =>
    obtain ⟨rfl, rfl⟩ := List.cons.inj ht
    obtain ⟨behind, rfl, -⟩ := h.exists_of_cons (by decide)
    intro hstart
    rw [← hstart]
    simp_all [literalStart?]
  | _ =>
    intro hstart
    cases hstart

/-- A literal starts with its quote and with what stands in front of it. -/
theorem literalStart?_append {letters inner inner' : Text} {quote : Char}
    (h : literalStart? (letters ++ quote :: inner) = some (letters.length, quote)) :
    literalStart? (letters ++ quote :: inner') = some (letters.length, quote) := by
  generalize hn : letters.length = n at h
  generalize ht : letters ++ quote :: inner = t at h
  revert h
  fun_cases literalStart? t with
  | case1 | case2 =>
    rintro ⟨rfl, rfl⟩
    obtain rfl := List.eq_nil_of_length_eq_zero hn
    rfl
  | case3 =>
    rintro ⟨rfl, rfl⟩
    obtain ⟨_, _, rfl⟩ := List.length_eq_two.1 hn
    obtain ⟨rfl, rfl, -⟩ := ht
    rfl
  | case4 d tail _ _ hletter | case6 d tail _ _ hletter =>
    rintro ⟨rfl, rfl⟩
    obtain ⟨_, rfl⟩ := List.length_eq_one_iff.1 hn
    obtain ⟨rfl, rfl⟩ := ht
    simp_all [literalStart?]
  | _ =>
    intro h
    cases h

/-- The literal that starts with the quote behind these letters. -/
theorem literal?_eq {letters inner : Text} {quote : Char}
    (h : literalStart? (letters ++ quote :: inner) = some (letters.length, quote)) :
    literal? here (letters ++ quote :: inner) =
      some {
        kind := if quote = '"' then .stringLiteral else .charConst
        text := letters ++ quote :: inner.take (quotedWidth quote inner).1
        width := letters.length + 1 + (quotedWidth quote inner).1
        fault :=
          if (quotedWidth quote inner).2 then none
          else some ⟨if quote = '"' then .stringLiteral else .charConst, here⟩ } := by
  have hdrop : (letters ++ quote :: inner).drop (letters.length + 1) = inner := by
    rw [← List.drop_drop, List.drop_left, List.drop_one, List.tail_cons]
  have htake (n : Nat) : (letters ++ quote :: inner).take (letters.length + 1 + n) =
      letters ++ quote :: inner.take n := by
    rw [Nat.add_assoc, List.take_length_add_append, Nat.add_comm, List.take_succ_cons]
  rw [literal?, h, Option.map_some]
  dsimp only
  rw [hdrop, htake]

/-- How a literal is made up: letters, a quote, and what is quoted. -/
theorem exists_of_literal? {t : Text} {l : Lexeme} (h : literal? here t = some l) :
    ∃ letters quote inner, t = letters ++ quote :: inner ∧
      literalStart? (letters ++ quote :: inner) = some (letters.length, quote) ∧
      (quote = '"' ∨ quote = '\'') ∧
      l.width = letters.length + 1 + (quotedWidth quote inner).1 ∧
      (l.fault = none ↔ (quotedWidth quote inner).2 = true) := by
  obtain ⟨⟨before, quote⟩, hstart, -⟩ := Option.map_eq_some_iff.1 h
  obtain ⟨letters, inner, rfl, rfl, hquote, -⟩ := exists_of_literalStart? hstart
  rw [literal?_eq hstart] at h
  obtain rfl := Option.some.inj h
  refine ⟨letters, quote, inner, rfl, hstart, hquote, rfl, ?_⟩
  cases (quotedWidth quote inner).2 <;> simp

/-- **A literal is read again**, if it is closed or nothing follows it. -/
theorem literal?_append {t : Text} {l : Lexeme} (h : literal? here t = some l)
    (hclosed : l.fault = none ∨ rest = []) : literal? here (t.take l.width ++ rest) = some l := by
  obtain ⟨letters, quote, inner, rfl, hstart, hquote, hwidth, hfault⟩ := exists_of_literal? h
  have hagain : quotedWidth quote (inner.take (quotedWidth quote inner).1 ++ rest) =
      quotedWidth quote inner :=
    quotedWidth_append (by rcases hquote with rfl | rfl <;> decide) (hclosed.imp_left hfault.1)
  rw [hwidth, Nat.add_assoc, List.take_length_add_append, Nat.add_comm 1, List.take_succ_cons,
    List.append_assoc, List.cons_append, literal?_eq (literalStart?_append hstart), hagain,
    List.take_left' (List.length_take_of_le (quotedWidth_le quote inner)), ← literal?_eq hstart, h]

/-- A number ends before what is no part of it. -/
theorem numberWidth_eq_zero_iff : numberWidth (c :: cs) = 0 ↔ isNumberPart c = false := by
  have hexponent {d : Char} (h : isSignedExponent c d = true) : isNumberPart c = true := by
    simp only [isSignedExponent, Bool.and_eq_true, Bool.or_eq_true, decide_eq_true_eq] at h
    rcases h.1 with ((rfl | rfl) | rfl) | rfl <;> decide
  cases cs with
  | nil => cases h : isNumberPart c <;> simp [numberWidth, h]
  | cons d cs =>
    rw [numberWidth]
    split
    · rename_i h
      simp [hexponent h]
    · cases h : isNumberPart c <;> simp

/-- A number goes on behind a part of it that starts no exponent with a sign. -/
theorem numberWidth_cons {t : Text} (hc : isNumberPart c = true) (h : StartsAlike 1 cs t)
    (hcs : ∀ d ∈ cs.head?, isSignedExponent c d = false) :
    numberWidth (c :: t) = numberWidth t + 1 := by
  cases t with
  | nil =>
    rw [numberWidth.eq_2, if_pos hc]
    rfl
  | cons d t =>
    have hd : isSignedExponent c d = false := by
      rcases h with hspace | ⟨cs, rfl, -⟩
      · have hne : d ≠ '+' ∧ d ≠ '-' := by
          constructor <;> rintro rfl <;> exact absurd hspace (by decide)
        simp [isSignedExponent, hne]
      · exact hcs d rfl
    rw [numberWidth, hd, if_neg Bool.false_ne_true, if_pos hc]

/-- **A number is read again**, if it is followed by the same character or by white space. -/
theorem numberWidth_append {t : Text} (h : StartsAlike 1 (t.drop (numberWidth t)) rest) :
    numberWidth (t.take (numberWidth t) ++ rest) = numberWidth t := by
  have hstop {t : Text} (ht : numberWidth t = 0) (h : StartsAlike 1 t rest) :
      numberWidth rest = 0 := by
    cases rest with
    | nil => rfl
    | cons d rest =>
      rw [numberWidth_eq_zero_iff]
      rcases h with hspace | ⟨t, rfl, -⟩
      · exact (parts_of_isSpace hspace).2.1
      · exact numberWidth_eq_zero_iff.1 ht
  fun_induction numberWidth t with
  | case1 => exact hstop rfl h
  | case2 c hc =>
    have hrest : numberWidth rest = 0 := hstop (t := []) rfl h
    have hcons : numberWidth (c :: rest) = numberWidth rest + 1 :=
      numberWidth_cons hc h fun d hd => absurd hd (by simp)
    rw [List.take_succ_cons, List.take_zero, List.singleton_append, hcons, hrest]
  | case3 c hc => exact hstop (numberWidth_eq_zero_iff.2 (Bool.eq_false_iff.2 hc)) h
  | case4 c d cs hexponent ih =>
    rw [List.take_succ_cons, List.take_succ_cons, List.cons_append, List.cons_append, numberWidth,
      if_pos hexponent, ih h]
  | case5 c d cs hexponent hc ih =>
    have halike : StartsAlike 1 (d :: cs) ((d :: cs).take (numberWidth (d :: cs)) ++ rest) :=
      StartsAlike.take_append h
    have hsign : ∀ e ∈ (d :: cs).head?, isSignedExponent c e = false := by
      rintro e ⟨rfl⟩
      exact Bool.eq_false_iff.2 hexponent
    rw [List.take_succ_cons, List.cons_append, numberWidth_cons hc halike hsign, ih h]
  | case6 c d cs hexponent hc =>
    exact hstop (numberWidth_eq_zero_iff.2 (Bool.eq_false_iff.2 hc)) h

/-- Whether a number starts is seen from two characters. -/
theorem isNumberStart_of_startsAlike (h : StartsAlike 1 cs cs')
    (hstart : isNumberStart (c :: cs') = true) : isNumberStart (c :: cs) = true := by
  by_cases hdot : c = '.'
  · subst hdot
    cases cs' with
    | nil => exact absurd hstart (by decide)
    | cons d cs' =>
      rcases h with hspace | ⟨rest, rfl, -⟩
      · rw [isNumberStart, (parts_of_isSpace hspace).2.2] at hstart
        cases hstart
      · exact hstart
  · rw [isNumberStart.eq_2 _ _ fun _ _ h => absurd h hdot] at hstart ⊢
    exact hstart

/-- The digit behind the dot that a number starts with is a part of the number. -/
theorem isNumberStart_append (h : isNumberStart (c :: cs) = true) :
    isNumberStart (c :: (cs.take (numberWidth cs) ++ rest)) = true := by
  by_cases hdot : c = '.'
  · subst hdot
    cases cs with
    | nil => exact absurd h (by decide)
    | cons d cs =>
      have hd : isDigit d = true := h
      cases hwidth : numberWidth (d :: cs) with
      | zero =>
        have := numberWidth_eq_zero_iff.1 hwidth
        simp [isNumberPart, hd] at this
      | succ n =>
        rw [List.take_succ_cons, List.cons_append]
        exact hd
  · rw [isNumberStart.eq_2 _ _ fun _ _ h => absurd h hdot] at h ⊢
    exact h

/-- **A word is read again**, if it is followed by the same character or by white space. -/
theorem takeWhile_append {t : Text}
    (h : StartsAlike 1 (t.drop (t.takeWhile isWordChar).length) rest) :
    (t.takeWhile isWordChar ++ rest).takeWhile isWordChar = t.takeWhile isWordChar := by
  induction t with
  | nil =>
    cases rest with
    | nil => rfl
    | cons d rest =>
      rcases h with hspace | ⟨_, hnil, -⟩
      · exact List.takeWhile_cons_of_neg (by rw [(parts_of_isSpace hspace).1]; decide)
      · cases hnil
  | cons c t ih =>
    by_cases hc : isWordChar c = true
    · rw [List.takeWhile_cons_of_pos hc] at h ⊢
      rw [List.cons_append, List.takeWhile_cons_of_pos hc, ih h]
    · rw [List.takeWhile_cons_of_neg hc] at h ⊢
      cases rest with
      | nil => rfl
      | cons d rest =>
        have hd : ¬isWordChar d = true := by
          rcases h with hspace | ⟨_, hcons, -⟩
          · rw [(parts_of_isSpace hspace).1]
            decide
          · rwa [← (List.cons.inj hcons).1]
        exact List.takeWhile_cons_of_neg hd

/-- **A punctuator is read again**, if it is followed by the same two characters, or by
white space. -/
theorem punctuatorWidth_append
    (h : StartsAlike 2 (cs.drop (punctuatorWidth (c :: cs) - 1)) rest) :
    punctuatorWidth (c :: (cs.take (punctuatorWidth (c :: cs) - 1) ++ rest)) =
      punctuatorWidth (c :: cs) := by
  have htriples : ∀ p ∈ triples, p.length = 3 ∧ p.any isSpace = false := by decide
  have hpairs : ∀ p ∈ pairs, p.length = 2 ∧ p.any isSpace = false := by decide
  have halike := (StartsAlike.take_append h).cons c
  -- a longer punctuator in the new text would be one in the old text
  have hback {n : Nat} {t' : Text} {table : List Text} (h : StartsAlike n (c :: cs) t')
      (htable : ∀ p ∈ table, p.length = n ∧ p.any isSpace = false)
      (hmem : table.contains (t'.take n) = true) : table.contains ((c :: cs).take n) = true := by
    obtain ⟨hlength, hspace⟩ := htable _ (List.contains_iff_mem.1 hmem)
    rw [List.length_take] at hlength
    rw [h.take_eq (fun d hd => Bool.eq_false_iff.2 (List.any_eq_false.1 hspace d hd)) (by omega)]
    exact hmem
  have hkeep {n : Nat} (hn : ((c :: cs).take (n + 1)).length = n + 1) :
      (c :: (cs.take n ++ rest)).take (n + 1) = (c :: cs).take (n + 1) := by
    rw [← List.cons_append, ← List.take_succ_cons, List.take_append_of_le_length (by omega),
      List.take_take, Nat.min_self]
  unfold punctuatorWidth at h halike ⊢
  by_cases h₃ : triples.contains ((c :: cs).take 3) = true
  · have hlength := (htriples _ (List.contains_iff_mem.1 h₃)).1
    rw [if_pos h₃, hkeep hlength, if_pos h₃]
  · rw [if_neg h₃] at h halike ⊢
    by_cases h₂ : pairs.contains ((c :: cs).take 2) = true
    · have hlength := (hpairs _ (List.contains_iff_mem.1 h₂)).1
      rw [if_pos h₂] at halike ⊢
      rw [if_neg fun hmem => h₃ (hback halike htriples hmem), hkeep hlength, if_pos h₂]
    · rw [if_neg h₂] at halike ⊢
      rw [if_neg fun hmem => h₃ (hback halike htriples hmem),
        if_neg fun hmem => h₂ (hback halike.weaken hpairs hmem)]

/-- Where no gap stands, the token is a literal, a number, a word or a punctuator. -/
theorem read_of_not_startsAt (h : Gap.startsAt (c :: cs) = false) :
    read here c cs =
      if let some l := literal? here (c :: cs) then l
      else if isNumberStart (c :: cs) then
        { kind := .number, text := c :: cs.take (numberWidth cs), width := numberWidth cs + 1 }
      else if c = '_' || isLetter c then
        { kind := .ident, text := c :: cs.takeWhile isWordChar
          width := (cs.takeWhile isWordChar).length + 1 }
      else
        { kind := .punctuator, text := (c :: cs).take (punctuatorWidth (c :: cs))
          width := punctuatorWidth (c :: cs) } := by
  rw [read, Gap.read_of_not_startsAt h]
  rfl

theorem take_width (here : Nat) (c : Char) (cs : Text) :
    (c :: cs).take (read here c cs).width = c :: cs.take ((read here c cs).width - 1) := by
  rw [← List.take_succ_cons, Nat.sub_one_add_one (Nat.ne_of_gt (width_pos here c cs))]

/-- A lexeme takes up its first character and the rest of its width. -/
theorem drop_width (here : Nat) (c : Char) (cs : Text) :
    (c :: cs).drop (read here c cs).width = cs.drop ((read here c cs).width - 1) := by
  obtain ⟨n, hn⟩ := Nat.exists_eq_succ_of_ne_zero (Nat.ne_of_gt (width_pos here c cs))
  rw [hn]
  rfl

/-- **A token is read again**, if it is followed by a text that starts alike, and if it is no
literal that runs to the end. -/
theorem read_append (hgap : Gap.startsAt (c :: cs) = false)
    (hrest : StartsAlike 2 ((c :: cs).drop (read here c cs).width) rest)
    (hclosed : (read here c cs).fault = none ∨ rest = []) :
    Gap.startsAt (c :: (cs.take ((read here c cs).width - 1) ++ rest)) = false ∧
      read here c (cs.take ((read here c cs).width - 1) ++ rest) = read here c cs := by
  rw [drop_width] at hrest
  have halike := StartsAlike.take_append hrest
  have hgap' : Gap.startsAt (c :: (cs.take ((read here c cs).width - 1) ++ rest)) = false := by
    rw [Bool.eq_false_iff] at hgap ⊢
    exact fun h => hgap (Gap.startsAt_of_startsAlike halike.weaken h)
  refine ⟨hgap', ?_⟩
  have htake := take_width here c cs
  rw [read_of_not_startsAt hgap']
  rw [read_of_not_startsAt hgap] at halike hrest hclosed htake ⊢
  cases hl : literal? here (c :: cs) with
  | some l =>
    simp only [hl] at hclosed htake ⊢
    simp only [← List.cons_append, ← htake, literal?_append hl hclosed]
  | none =>
    have hnone {t : Text} (h : StartsAlike 2 cs t) : literal? here (c :: t) = none := by
      rw [literal?, Option.map_eq_none_iff] at hl ⊢
      refine Option.eq_none_iff_forall_ne_some.2 fun p hp => ?_
      cases hl.symm.trans (literalStart?_of_startsAlike h hp)
    simp only [hl] at halike hrest ⊢
    simp only [hnone halike]
    by_cases hnumber : isNumberStart (c :: cs) = true
    · simp only [if_pos hnumber, Nat.add_sub_cancel] at hrest ⊢
      rw [if_pos (isNumberStart_append hnumber), numberWidth_append hrest.weaken,
        List.take_left' (List.length_take_of_le (numberWidth_le cs))]
    · rw [if_neg hnumber] at halike hrest ⊢
      rw [if_neg fun h => hnumber (isNumberStart_of_startsAlike halike.weaken h)]
      by_cases hword : (c = '_' || isLetter c) = true
      · simp only [if_pos hword, Nat.add_sub_cancel] at hrest ⊢
        have htake : cs.take (cs.takeWhile isWordChar).length = cs.takeWhile isWordChar :=
          (List.prefix_iff_eq_take.1 (List.takeWhile_prefix _)).symm
        rw [htake, takeWhile_append hrest.weaken]
      · simp only [if_neg hword] at hrest ⊢
        rw [punctuatorWidth_append hrest]
        have hle := punctuatorWidth_le c cs
        rw [List.length_cons] at hle
        congr 1
        cases hn : punctuatorWidth (c :: cs) with
        | zero => rfl
        | succ n =>
          rw [hn] at hle
          rw [Nat.add_sub_cancel, List.take_succ_cons, List.take_succ_cons,
            List.take_left' (List.length_take_of_le (Nat.le_of_succ_le_succ hle))]

/-- Where no gap stands, the token is the stretch of the text that it covers. -/
theorem text_of_not_startsAt (h : Gap.startsAt (c :: cs) = false) :
    (read here c cs).text = (c :: cs).take (read here c cs).width := by
  rw [read_of_not_startsAt h]
  split
  · rename_i l hl
    obtain ⟨_, -, rfl⟩ := Option.map_eq_some_iff.1 hl
    rfl
  · split
    · rfl
    · split
      · rw [List.take_succ_cons, ← List.prefix_iff_eq_take.1 (List.takeWhile_prefix _)]
      · rfl

/-- A token ends within the text. -/
theorem width_le_of_not_startsAt (h : Gap.startsAt (c :: cs) = false) :
    (read here c cs).width ≤ (c :: cs).length := by
  rw [read_of_not_startsAt h]
  split
  · rename_i l hl
    obtain ⟨letters, quote, inner, ht, -, -, hwidth, -⟩ := exists_of_literal? hl
    have := quotedWidth_le quote inner
    rw [ht, hwidth, List.length_append, List.length_cons]
    omega
  · split
    · exact Nat.succ_le_succ (numberWidth_le cs)
    · split
      · exact Nat.succ_le_succ (List.takeWhile_prefix _).length_le
      · exact punctuatorWidth_le c cs

/-- Where the text stands is seen from a fault only. -/
theorem read_elsewhere (h : Gap.startsAt (c :: cs) = false) (here here' : Nat) :
    (read here' c cs).kind = (read here c cs).kind ∧
      (read here' c cs).text = (read here c cs).text ∧
      (read here' c cs).width = (read here c cs).width := by
  rw [read_of_not_startsAt h, read_of_not_startsAt h, literal?, literal?]
  cases literalStart? (c :: cs) with
  | some p => exact ⟨rfl, rfl, rfl⟩
  | none =>
    dsimp only [Option.map_none]
    split
    · exact ⟨rfl, rfl, rfl⟩
    · split <;> exact ⟨rfl, rfl, rfl⟩

/-- A quoted part that is not closed runs to the end. -/
theorem quotedWidth_of_not_closed {quote : Char} {t : Text} (h : (quotedWidth quote t).2 = false) :
    (quotedWidth quote t).1 = t.length := by
  fun_induction quotedWidth quote t with
  | case1 => rfl
  | case2 d cs n closed hn ih =>
    rw [hn] at ih
    exact congrArg (· + 2) (ih h)
  | case3 => cases h
  | case4 c cs _ _ n closed hn ih =>
    rw [hn] at ih
    exact congrArg (· + 1) (ih h)

/-- Where a gap stands, it is the token. -/
theorem read_of_startsAt (h : Gap.startsAt (c :: cs) = true) :
    read here c cs =
      { kind := .whitespace, text := (Gap.read here (c :: cs)).text
        width := (Gap.read here (c :: cs)).width
        fault := (Gap.read here (c :: cs)).unclosed.map (⟨.blockComment, ·⟩) } := by
  rw [read, if_pos (Gap.width_ne_zero_of_startsAt h here)]

/-- Behind a gap another token stands. -/
theorem startsAt_drop_width (h : Gap.startsAt (c :: cs) = true) :
    Gap.startsAt ((c :: cs).drop (read here c cs).width) = false := by
  rw [read_of_startsAt h]
  exact Gap.startsAt_drop_width here .space (c :: cs)

/-- A gap spells white space, one character at least. -/
theorem exists_spaces_of_startsAt (h : Gap.startsAt (c :: cs) = true) (here : Nat) :
    ∃ d ds, (read here c cs).text = d :: ds ∧ ∀ e ∈ d :: ds, isSpace e = true := by
  obtain ⟨d, ds, htext⟩ := List.exists_cons_of_ne_nil (text_ne_nil here c cs)
  refine ⟨d, ds, htext, ?_⟩
  rw [← htext, read_of_startsAt h]
  exact Gap.isSpace_of_mem_text here .space (c :: cs)

/-- **Behind a fault there is nothing**: what is never closed runs to the end. -/
theorem drop_width_of_fault {e : LexicalError} (h : (read here c cs).fault = some e) :
    (c :: cs).drop (read here c cs).width = [] := by
  cases hgap : Gap.startsAt (c :: cs) with
  | true =>
    rw [read_of_startsAt hgap] at h ⊢
    obtain ⟨opened, hopened, -⟩ := Option.map_eq_some_iff.1 h
    exact Gap.drop_width_of_unclosed hopened
  | false =>
    rw [read_of_not_startsAt hgap] at h ⊢
    cases hl : literal? here (c :: cs) with
    | some l =>
      simp only [hl] at h ⊢
      obtain ⟨letters, quote, inner, ht, -, -, hwidth, hfault⟩ := exists_of_literal? hl
      have hopen : (quotedWidth quote inner).2 = false := by
        rw [Bool.eq_false_iff]
        intro hclosed
        rw [hfault.2 hclosed] at h
        cases h
      refine List.drop_of_length_le ?_
      rw [ht, hwidth, quotedWidth_of_not_closed hopen, List.length_append, List.length_cons]
      omega
    | none =>
      simp only [hl] at h
      split at h
      · cases h
      · split at h <;> cases h

end Lexeme

end DevicetreePrep
