/-
# Inclusions that spell their file

An operand may spell the file that it asks for, or give names that are to be expanded
first.  `Inclusion.spelled?` is the file that it spells; nothing is expanded then, so
the directive does nothing but ask for the file (`Work.inclusion_of_spelled?`).  A
line that is such a directive, on its own and with no comment left open, is a
spelled one (`Inclusion.IsSpelled`); a name between double quotes is spelled
(`Inclusion.isSpelled_line`).
-/

import DevicetreePrep.Proofs.Expansion.Block
import DevicetreePrep.Proofs.PhysicalLine.Continuation
import DevicetreePrep.Run.Step

namespace DevicetreePrep

/-- **Tokens without an identifier expand to themselves.** -/
theorem expandTokens_of_forall {ts : List Token} (h : ∀ t ∈ ts, t.isIdent = false)
    (ctx : Expansion.Context) (counter : Nat) :
    expandTokens ctx counter ts = { tokens := ts, counter, errors := [] } := by
  have hitems : ∀ i ∈ Expansion.Item.ofTokens ts, Expansion.candidate? ctx.table i = none := by
    intro i hi
    have htoken : i.token ∈ ts := by
      rw [← Expansion.Item.map_token_ofTokens ts]
      exact List.mem_map_of_mem hi
    rw [Expansion.candidate?, h i.token htoken]
    rfl
  have hexpand : Expansion.expand ctx counter ts =
      { items := Expansion.Item.ofTokens ts, counter } :=
    Expansion.expandFrom_of_forall hitems _ _ { counter }
  rw [expandTokens, hexpand]
  dsimp only
  rw [Expansion.Item.map_token_ofTokens]
  rfl

namespace Inclusion

/-- The name that an operand spells, and whether its delimiters are angle brackets:
there is nothing in it to be expanded. -/
def spelled? (operand : Text) : Option (Text × Bool) :=
  match direct? operand with
  | some found => some found
  | none => if (tokenize operand).any Token.isIdent then none else ofTokens? (tokenize operand)

/-- The physical line, outside of comments, is a directive that spells this file. -/
structure IsSpelled (line : Text) (name : String) : Prop where
  /-- It leaves no comment open. -/
  uncommented : Comment.leavesOpen false line = false
  /-- It is not continued. -/
  ended : PhysicalLine.isContinued (Comment.mask false line) = false
  spells : ∃ operand angled,
    Directive.ofLine? (Comment.mask false line) = some (.inclusion operand) ∧
      spelled? (Text.trim operand) = some (name.toList, angled)

end Inclusion

/-- **A directive that spells its file does nothing but ask for it.** -/
theorem Work.inclusion_of_spelled? {operand name : Text} {angled : Bool}
    (h : Inclusion.spelled? (Text.trim operand) = some (name, angled)) (w : Work)
    (l : LogicalLine) :
    w.inclusion l operand =
      (w, some { inclusion := { target := String.ofList name, angled, includer := l.file }
                 line := l.number, column := columnOf l.first.raw }) := by
  unfold Inclusion.spelled? at h
  unfold Work.inclusion
  dsimp only
  cases hdirect : Inclusion.direct? (Text.trim operand) with
  | some found =>
    rw [hdirect] at h
    obtain rfl := Option.some.inj h
    rfl
  | none =>
    rw [hdirect] at h
    dsimp only at h
    cases hany : (tokenize (Text.trim operand)).any Token.isIdent with
    | true =>
      rw [hany] at h
      cases h
    | false =>
      rw [hany, if_neg Bool.false_ne_true] at h
      have hplain : ∀ t ∈ tokenize (Text.trim operand), t.isIdent = false := by
        intro t ht
        exact Bool.eq_false_iff.2 (List.any_eq_false.1 hany t ht)
      rw [expandTokens_of_forall hplain]
      dsimp only
      rw [h]
      rfl

namespace Inclusion

/-- The line that includes a file by its name between double quotes. -/
def line (name : String) : Text :=
  "#include ".toList ++ '"' :: (name.toList ++ ['"'])

/-- A character of a literal that is neither a quote nor a backslash. -/
theorem maskIn_quoted_cons {c : Char} (hquote : c ≠ '"') (hescape : c ≠ '\\') (cs : Text) :
    Comment.maskIn (.quoted '"') (c :: cs) = c :: Comment.maskIn (.quoted '"') cs ∧
      Comment.modeAfter (.quoted '"') (c :: cs) = Comment.modeAfter (.quoted '"') cs := by
  rw [Comment.maskIn, Comment.modeAfter, if_neg hquote]
  · exact ⟨rfl, rfl⟩
  · exact fun _ _ hb => absurd hb hescape
  · exact fun _ _ hb => absurd hb hescape

/-- A literal without a quote in it is no comment, and opens none. -/
theorem maskIn_quoted {cs : Text} (h : '"' ∉ cs) :
    Comment.maskIn (.quoted '"') (cs ++ ['"']) = cs ++ ['"'] ∧
      Comment.modeAfter (.quoted '"') (cs ++ ['"']) ≠ .block := by
  match cs with
  | [] => exact ⟨rfl, by decide⟩
  | [c] =>
    by_cases hc : c = '\\'
    · subst hc
      exact ⟨rfl, by decide⟩
    · have hquote : c ≠ '"' := fun hq => h (hq ▸ List.mem_cons_self ..)
      obtain ⟨hmask, hmode⟩ := maskIn_quoted_cons hquote hc ['"']
      rw [List.singleton_append, hmask, hmode]
      exact ⟨rfl, by decide⟩
  | c :: d :: cs =>
    by_cases hc : c = '\\'
    · -- a backslash hides the character behind it
      subst hc
      obtain ⟨hmask, hmode⟩ := maskIn_quoted fun hq =>
        h (List.mem_cons_of_mem _ (List.mem_cons_of_mem _ hq))
      exact ⟨congrArg (fun t => '\\' :: d :: t) hmask, hmode⟩
    · have hquote : c ≠ '"' := fun hq => h (hq ▸ List.mem_cons_self ..)
      obtain ⟨hcons, hnext⟩ := maskIn_quoted_cons hquote hc (d :: (cs ++ ['"']))
      obtain ⟨hmask, hmode⟩ := maskIn_quoted fun hq => h (List.mem_cons_of_mem _ hq)
      rw [List.cons_append, List.cons_append, hcons, hnext]
      exact ⟨congrArg (c :: ·) hmask, hmode⟩
termination_by cs.length

/-- What stands before the first quote. -/
theorem cut_quote {cs : Text} (h : '"' ∉ cs) : Text.cut '"' (cs ++ ['"']) = (cs, some []) := by
  induction cs with
  | nil => rfl
  | cons c cs ih =>
    have hc : c ≠ '"' := fun hq => h (hq ▸ List.mem_cons_self ..)
    rw [List.cons_append, Text.cut, if_neg hc, ih fun hq => h (List.mem_cons_of_mem _ hq)]
    rfl

/-- A quote at the end of a text is not trimmed. -/
theorem trimRight_quote (t : Text) : Text.trimRight (t ++ ['"']) = t ++ ['"'] := by
  have hquote : isBlank '"' = false := by decide
  rw [Text.trimRight, List.reverse_append, List.reverse_singleton, List.singleton_append,
    List.dropWhile_cons_of_neg (by rw [hquote]; exact Bool.false_ne_true), List.reverse_cons,
    List.reverse_reverse]

/-- **A name between double quotes is spelled.** -/
theorem isSpelled_line {name : String} (hquote : '"' ∉ name.toList) (hend : '\n' ∉ name.toList) :
    IsSpelled (line name) name := by
  obtain ⟨hmask, hmode⟩ := maskIn_quoted hquote
  have hmasked : Comment.mask false (line name) = line name :=
    congrArg ("#include \"".toList ++ ·) hmask
  have hline : line name = ("#include \"".toList ++ name.toList) ++ ['"'] := by
    rw [List.append_assoc]
    rfl
  refine ⟨decide_eq_false hmode, ?_, ' ' :: '"' :: (name.toList ++ ['"']), false, ?_, ?_⟩
  · rw [hmasked, PhysicalLine.isContinued, hline, trimRight_quote, List.getLast?_concat]
    decide
  · rw [hmasked]
    rfl
  · have htrim : Text.trim (' ' :: '"' :: (name.toList ++ ['"'])) = '"' :: (name.toList ++ ['"']) :=
      trimRight_quote ('"' :: name.toList)
    rw [htrim]
    cases hname : name.toList with
    | nil => decide +kernel
    | cons c cs =>
      rw [hname] at hquote hend
      have hdirect : direct? ('"' :: (c :: cs ++ ['"'])) = some (c :: cs, false) := by
        simp only [direct?, cut_quote hquote, List.contains_iff_mem, if_neg hend]
        rfl
      rw [spelled?, hdirect]

end Inclusion
end DevicetreePrep
