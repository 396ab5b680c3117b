/-
# Character constants that are never closed

The lexer passes over an escape as a whole, so a quote behind a backslash does not close a
constant.  The value of a constant is taken from what stands before its last character, if that is
a quote, whatever is in front of it.  The two disagree on a constant that is never closed and ends
with an escaped quote: it has a value all the same (`Literal.character?_isSome_iff`).  Two kinds
of these have none.  In one nothing else stands behind the first quote; in the other the escape
follows hexadecimal digits, and a backslash is no digit.

Every other constant that is never closed has no value.  It is the last token of its text
(`exists_unclosed_character`), so the expression has no value either.
-/

import DevicetreePrep.Proofs.Expression.LastOperand
import DevicetreePrep.Proofs.Expression.Reading
import DevicetreePrep.Proofs.Token.Alone

namespace DevicetreePrep

/-- A member that is not of the kind that is dropped from the front of a list stays in it. -/
theorem mem_dropWhile_of_not {α : Type} {p : α → Bool} {x : α} {xs : List α} (hx : p x = false)
    (h : x ∈ xs) : x ∈ xs.dropWhile p := by
  rw [← List.takeWhile_append_dropWhile (p := p) (l := xs)] at h
  refine (List.mem_append.1 h).resolve_left fun hmem => ?_
  rw [List.mem_takeWhile_imp hmem] at hx
  cases hx

/-! What is quoted, where no quote closes it. -/

/-- A quote that does not close what is quoted is escaped. -/
theorem Lexeme.exists_escape_of_not_closed {inner : Text}
    (hopen : (quotedWidth '\'' inner).2 = false) (hlast : inner.getLast? = some '\'') :
    ∃ body, inner = body ++ ['\\', '\''] := by
  fun_induction quotedWidth '\'' inner with
  | case1 => cases hlast
  | case2 d cs n closed hn ih =>
    rw [hn] at ih
    cases cs with
    | nil =>
      obtain rfl : d = '\'' := Option.some.inj hlast
      exact ⟨[], rfl⟩
    | cons e es =>
      rw [List.getLast?_cons_cons, List.getLast?_cons_cons] at hlast
      obtain ⟨body, hbody⟩ := ih hopen hlast
      exact ⟨'\\' :: d :: body, by rw [hbody]; rfl⟩
  | case3 => cases hopen
  | case4 c cs _ hc n closed hn ih =>
    rw [hn] at ih
    cases cs with
    | nil => exact absurd (Option.some.inj hlast) hc
    | cons e es =>
      rw [List.getLast?_cons_cons] at hlast
      obtain ⟨body, hbody⟩ := ih hopen hlast
      exact ⟨c :: body, by rw [hbody]; rfl⟩

/-- A character constant that is never closed runs to the end of the text. -/
theorem Lexeme.exists_of_fault {here offset : Nat} {c : Char} {cs : Text}
    (h : (read here c cs).fault = some ⟨.charConst, offset⟩) :
    ∃ letters inner, read here c cs =
        { kind := .charConst, text := letters ++ '\'' :: inner,
          width := letters.length + 1 + inner.length, fault := some ⟨.charConst, here⟩ } ∧
      '\'' ∉ letters ∧ (quotedWidth '\'' inner).2 = false := by
  have hgap : Gap.startsAt (c :: cs) = false :=
    Bool.eq_false_iff.2 fun hgap => Unterminated.noConfusion ((what_of_fault h).2 hgap)
  rw [read_of_not_startsAt hgap] at h ⊢
  cases hl : literal? here (c :: cs) with
  | none =>
    rw [hl] at h
    dsimp only at h
    split at h
    · cases h
    · split at h <;> cases h
  | some l =>
    rw [hl] at h
    obtain ⟨⟨before, quote⟩, hstart, -⟩ := Option.map_eq_some_iff.1 hl
    obtain ⟨letters, inner, ht, rfl, hquote, hletters⟩ := exists_of_literalStart? hstart
    rw [ht] at hstart hl
    rw [literal?_eq hstart] at hl
    obtain rfl := Option.some.inj hl
    dsimp only at h ⊢
    have hopen : (quotedWidth quote inner).2 = false := by
      refine Bool.eq_false_iff.2 fun hclosed => ?_
      rw [if_pos hclosed] at h
      cases h
    rw [if_neg (Bool.eq_false_iff.1 hopen)] at h ⊢
    rcases hquote with rfl | rfl
    · cases h
    · refine ⟨letters, inner, ?_, fun hmem => (hletters _ hmem).2 rfl, hopen⟩
      rw [quotedWidth_of_not_closed hopen, List.take_length]
      rfl

/-- **The last token of a text with a character constant that is never closed is this
constant.** -/
theorem exists_unclosed_character {here offset : Nat} {source : Text}
    (h : lexicalErrorFrom? here source = some ⟨.charConst, offset⟩) :
    ∃ ts letters inner,
      tokenizeFrom here source = ts ++ [⟨.charConst, letters ++ '\'' :: inner, offset⟩] ∧
        '\'' ∉ letters ∧ (Lexeme.quotedWidth '\'' inner).2 = false := by
  fun_induction lexicalErrorFrom? here source with
  | case1 => cases h
  | case2 here c cs l ih =>
    rw [tokenizeFrom]
    cases hfault : l.fault with
    | none =>
      rw [hfault] at h
      obtain ⟨ts, letters, inner, htokens, hrest⟩ := ih h
      exact ⟨_ :: ts, letters, inner, congrArg (_ :: ·) htokens, hrest⟩
    | some e =>
      rw [hfault] at h
      obtain rfl : e = ⟨.charConst, offset⟩ := Option.some.inj h
      obtain ⟨letters, inner, hread, hrest⟩ := Lexeme.exists_of_fault hfault
      refine ⟨[], letters, inner, ?_, hrest⟩
      rw [Lexeme.drop_width_of_fault hfault, tokenizeFrom]
      have hhere : l.fault = some ⟨.charConst, here⟩ := congrArg Lexeme.fault hread
      obtain rfl : here = offset := congrArg LexicalError.offset (Option.some.inj (hhere ▸ hfault))
      rw [hread, List.nil_append]

namespace Literal

/-! Values of constants. -/

/-- No hexadecimal digits are read over a backslash. -/
theorem hexDigits?_eq_none {text : Text} (h : '\\' ∈ text) : hexDigits? text = none := by
  refine if_neg fun hall => ?_
  rw [Bool.and_eq_true] at hall
  have hspace := List.all_eq_true.1 hall.2 _ (mem_dropWhile_of_not (by decide) h)
  exact absurd hspace (by decide)

/-- A backslash stands in no hexadecimal numeral. -/
theorem hexNumeral?_eq_none {text : Text} (h : '\\' ∈ text) : hexNumeral? text = none := by
  have hplain : '\\' ∈ plain text := by
    rw [plain]
    split
    · exact h
    · exact List.mem_map.2 ⟨'\\', h, by decide⟩
  have hmem := mem_dropWhile_of_not (p := isSpace) (by decide) hplain
  have hbehind {c : Char} {cs : Text} (hc : c ≠ '\\') (h : '\\' ∈ c :: cs) : '\\' ∈ cs :=
    List.mem_of_ne_of_mem (Ne.symm hc) h
  unfold hexNumeral?
  extract_lets unsigned
  have hunsigned {t : Text} (ht : '\\' ∈ t) : unsigned t = none := by
    unfold unsigned
    split
    · exact hexDigits?_eq_none (hbehind (by decide) (hbehind (by decide) (hbehind (by decide) ht)))
    · exact hexDigits?_eq_none (hbehind (by decide) (hbehind (by decide) (hbehind (by decide) ht)))
    · exact hexDigits?_eq_none (hbehind (by decide) (hbehind (by decide) ht))
    · exact hexDigits?_eq_none (hbehind (by decide) (hbehind (by decide) ht))
    · exact hexDigits?_eq_none ht
  split
  · rename_i hsign
    rw [hunsigned (hbehind (by decide) (hsign ▸ hmem))]
    rfl
  · rename_i hsign
    rw [hunsigned (hbehind (by decide) (hsign ▸ hmem))]
    rfl
  · rw [hunsigned hmem]
    rfl

/-- What stands behind the first quote. -/
def behindQuote (text : Text) : Text :=
  (text.dropWhile (· ≠ '\'')).drop 1

/-- The first quote is the one behind letters without a quote. -/
theorem behindQuote_append {letters inner : Text} (h : '\'' ∉ letters) :
    behindQuote (letters ++ '\'' :: inner) = inner := by
  rw [behindQuote, List.dropWhile_append_of_pos, List.dropWhile_cons_of_neg (by decide),
    List.drop_one, List.tail_cons]
  exact fun c hc => decide_eq_true fun hquote => h (hquote ▸ hc)

/-- Behind the first quote the text ends with an escaped quote, which is not all that stands there;
and it does not start as a hexadecimal number. -/
def EndsEscaped (text : Text) : Prop :=
  ['\\', '\''] <:+ behindQuote text ∧ 2 < (behindQuote text).length ∧
    ¬['\\', 'x'] <+: behindQuote text

instance (text : Text) : Decidable (EndsEscaped text) :=
  inferInstanceAs (Decidable (_ ∧ _ ∧ _))

/-- The value of a constant whose quoted part ends with a backslash. -/
theorem character?_of_quotedPart {text body : Text} (h : quotedPart text = body ++ ['\\'])
    (hbody : body ≠ ['\\']) :
    (character? text).isSome = true ↔ body ≠ [] ∧ ¬['\\', 'x'] <+: body ++ ['\\', '\''] := by
  cases body with
  | nil =>
    rw [character?, h]
    exact iff_of_false Bool.false_ne_true fun hne => hne.1 rfl
  | cons c cs =>
    by_cases hc : c = '\\'
    · subst hc
      cases cs with
      | nil => exact absurd rfl hbody
      | cons d ds =>
        have hstarts : ['\\', 'x'] <+: '\\' :: d :: ds ++ ['\\', '\''] ↔ d = 'x' := by
          simp [List.cons_prefix_cons, eq_comm]
        rw [character?, h, hstarts]
        simp only [List.cons_append]
        split
        · rename_i hoctal
          refine iff_of_true rfl ⟨List.cons_ne_nil _ _, ?_⟩
          rintro rfl
          exact absurd hoctal Bool.false_ne_true
        · split
          · rename_i hx
            rw [hexNumeral?_eq_none (List.mem_append_right _ (List.mem_singleton_self _))]
            exact iff_of_false Bool.false_ne_true fun hne => hne.2 hx
          · rename_i hx
            exact iff_of_true rfl ⟨List.cons_ne_nil _ _, hx⟩
    · have hfirst (rest : Text) : c :: cs ++ ['\\'] ≠ '\\' :: rest :=
        fun heq => hc (List.cons.inj heq).1
      unfold character?
      rw [h]
      split
      · rename_i hnil
        cases hnil
      · rename_i hescape
        exact absurd hescape (hfirst _)
      · rename_i hescape
        exact absurd hescape (hfirst _)
      · refine iff_of_true rfl ⟨List.cons_ne_nil _ _, fun hstarts => hc ?_⟩
        exact (List.cons_prefix_cons.1 hstarts).1.symm

/-- **A character constant that is never closed has a value exactly if it ends with an escaped
quote.** -/
theorem character?_isSome_iff {text : Text}
    (hopen : (Lexeme.quotedWidth '\'' (behindQuote text)).2 = false) :
    (character? text).isSome = true ↔ EndsEscaped text := by
  have hpart : quotedPart text =
      if (behindQuote text).getLast? = some '\'' then (behindQuote text).dropLast else [] := rfl
  by_cases hlast : (behindQuote text).getLast? = some '\''
  · obtain ⟨body, hbody⟩ := Lexeme.exists_escape_of_not_closed hopen hlast
    rw [if_pos hlast, hbody, List.dropLast_append_of_ne_nil (List.cons_ne_nil _ _)] at hpart
    have hne : body ≠ ['\\'] := by
      rintro rfl
      rw [hbody] at hopen
      cases hopen
    rw [character?_of_quotedPart hpart hne, EndsEscaped, hbody, List.length_append]
    simp [List.length_pos_iff]
  · rw [if_neg hlast] at hpart
    rw [character?, hpart]
    refine iff_of_false Bool.false_ne_true ?_
    rintro ⟨⟨body, hbody⟩, -⟩
    exact hlast (by simp [← hbody])

end Literal

namespace Expression

/-- **Which character constants that are never closed have a value.**  Such a constant is the last
token of its text.  It is an invalid one, unless it ends with an escaped quote, as
`Literal.EndsEscaped` says.  Where it is invalid, the text has no value as an expression, whatever
is defined and whether the constant counts in it or not. -/
theorem unclosed_character_iff {source : Text} {offset : Nat}
    (h : lexicalError? source = some ⟨.charConst, offset⟩) :
    ∃ ts t, tokenize source = ts ++ [t] ∧ t.kind = .charConst ∧ t.offset = offset ∧
      (Literal.character t = .error (.error ⟨.badCharacter t.text, some offset⟩) ↔
        ¬Literal.EndsEscaped t.text) ∧
      (¬Literal.EndsEscaped t.text → ∀ ctx counter v,
        (evaluate ctx counter (tokenize source)).result ≠ .ok v) := by
  obtain ⟨ts, letters, inner, htokens, hletters, hopen⟩ := exists_unclosed_character h
  refine ⟨ts, _, htokens, rfl, rfl, ?_⟩
  have hbehind : Literal.behindQuote (letters ++ '\'' :: inner) = inner :=
    Literal.behindQuote_append hletters
  rw [← hbehind] at hopen
  have hinvalid := not_congr (Literal.character?_isSome_iff hopen)
  rw [Option.not_isSome_iff_eq_none] at hinvalid
  have hquote : '\'' ∈ letters ++ '\'' :: inner :=
    List.mem_append_right _ (List.mem_cons_self ..)
  constructor
  · rw [← hinvalid, Literal.character]
    split
    · rename_i n hn
      rw [hn]
      exact iff_of_false (fun hv => by cases hv) (Option.some_ne_none n)
    · rename_i hnone
      exact iff_of_true rfl hnone
  · intro hescaped ctx counter v
    have hbad : Token.IsBadOperand ⟨.charConst, letters ++ '\'' :: inner, offset⟩ :=
      Token.isBadOperand_of_character rfl (hinvalid.2 hescaped)
    refine evaluate_ne_ok ⟨rfl, hquote⟩ hbad ?_ ctx counter v
    rw [tokenize, htokens, List.getLast?_concat]

/-- A constant of hexadecimal digits that ends with an escaped quote, on the side of `||` that does
not count. -/
theorem unclosed_character_iff_hexadecimal :
    let source := "1 || '\\x41\\'".toList
    lexicalError? source = some ⟨.charConst, 5⟩ ∧
      ∀ ctx counter v, (evaluate ctx counter (tokenize source)).result ≠ .ok v := by
  intro source
  have herror : lexicalError? source = some ⟨.charConst, 5⟩ := by decide +kernel
  have hlast : (tokenize source).getLast? = some ⟨.charConst, "'\\x41\\'".toList, 5⟩ := by
    decide +kernel
  obtain ⟨ts, t, htokens, -, -, -, hnone⟩ := unclosed_character_iff herror
  rw [htokens, List.getLast?_concat] at hlast
  refine ⟨herror, hnone ?_⟩
  rw [Option.some.inj hlast]
  decide +kernel

/-- A constant that is never closed, and its value: the escaped quote is taken for the closing one,
and the backslash in front of it for a character. -/
theorem evaluate_unclosed_character :
    let source := "'a\\'".toList
    lexicalError? source = some ⟨.charConst, 0⟩ ∧ tokenize source = [⟨.charConst, source, 0⟩] ∧
      (evaluate ⟨{}, "main.dts", 1⟩ 0 (tokenize source)).result = .ok (.int (97 * 256 + 92)) := by
  intro source
  have htokens : tokenize source = [⟨.charConst, source, 0⟩] := by decide +kernel
  have hanswered : answerDefined {} [⟨.charConst, source, 0⟩] = .ok [⟨.charConst, source, 0⟩] := by
    cbv
  have hexpanded : (expandTokens ⟨{}, "main.dts", 1⟩ 0 [⟨.charConst, source, 0⟩]).tokens =
      [⟨.charConst, source, 0⟩] := by
    cbv
  have hspells : Formula.Spells .any [⟨.charConst, source, 0⟩] (.constant (97 * 256 + 92)) :=
    .loosest (.loosen (.character rfl rfl) (by omega) (by omega))
  refine ⟨by decide +kernel, htokens, ?_⟩
  rw [htokens, evaluate, hanswered]
  dsimp only
  rw [hexpanded]
  exact congrArg (Expr.eval false) (Expr.read_of_spells hspells)

end Expression
end DevicetreePrep
