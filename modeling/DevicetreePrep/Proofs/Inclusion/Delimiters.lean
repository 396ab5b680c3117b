/-
# The name of a file and its delimiters

An including directive asks for a name, and the name with its delimiters should be what the
directive says: its operand, if that is written with delimiters, and otherwise the tokens that
it expands to (`Work.includeText`).  For an operand with delimiters, and for tokens between
angle brackets, it is (`Inclusion.eq_delimited_of_direct?`, `Inclusion.ofTokens?_cases`).

A single literal is taken for a name without a look at its end.  Its first and its last character
go, whatever they are; so the name is what stands between the quotes exactly if a quote stands
there (`Work.reference_inclusion_iff`).  A literal that is never closed loses a character of
its name.
-/

import DevicetreePrep.Proofs.Token.Spelling
import DevicetreePrep.Run.Step
import Mathlib

namespace DevicetreePrep

/-- What is cut off at a character stands on its two sides. -/
theorem Text.eq_of_cut {c : Char} {t front rest : Text} (h : Text.cut c t = (front, some rest)) :
    t = front ++ c :: rest := by
  induction t generalizing front with
  | nil => cases h
  | cons d t ih =>
    rw [Text.cut] at h
    split at h
    · rename_i hd
      obtain ⟨rfl, hrest⟩ := Prod.mk.inj h
      rw [hd, Option.some.inj hrest]
      rfl
    · obtain ⟨rfl, hrest⟩ := Prod.mk.inj h
      have hcut : Text.cut c t = ((Text.cut c t).1, some rest) := Prod.ext rfl hrest
      exact congrArg (d :: ·) (ih hcut)

namespace Inclusion

/-- A name between its delimiters. -/
def delimited (name : Text) (angled : Bool) : Text :=
  if angled then '<' :: (name ++ ['>']) else '"' :: (name ++ ['"'])

/-- The reference of an inclusion is its target between delimiters. -/
theorem toList_reference (i : Inclusion) :
    i.reference.toList = delimited i.target.toList i.angled := by
  rw [reference, delimited]
  split <;> simp

/-- **An operand with delimiters is its name between them.** -/
theorem eq_delimited_of_direct? {operand name : Text} {angled : Bool}
    (h : direct? operand = some (name, angled)) : delimited name angled = operand := by
  -- the rest behind the first delimiter ends with the other one
  have hinside {close c : Char} {rest cs : Text} (hcut : Text.cut close rest = (c :: cs, some []))
      (hname : (if (c :: cs).contains '\n' then none else some (c :: cs)) = some name) :
      rest = name ++ [close] := by
    split at hname
    · cases hname
    · obtain rfl := Option.some.inj hname
      exact Text.eq_of_cut hcut
  unfold direct? at h
  dsimp only at h
  split at h
  · obtain ⟨inner, hinner, hpair⟩ := Option.map_eq_some_iff.1 h
    obtain ⟨rfl, rfl⟩ := Prod.mk.inj hpair
    split at hinner
    · rename_i hcut
      rw [hinside hcut hinner]
      rfl
    · cases hinner
  · obtain ⟨inner, hinner, hpair⟩ := Option.map_eq_some_iff.1 h
    obtain ⟨rfl, rfl⟩ := Prod.mk.inj hpair
    split at hinner
    · rename_i hcut
      rw [hinside hcut hinner]
      rfl
    · cases hinner
  · cases h

/-- The tokens are one literal, a quote with `rest` behind it. -/
def AreLiteral (ts : List Token) (rest : Text) : Prop :=
  ∃ t, trimWhite ts = [t] ∧ t.kind = .stringLiteral ∧ t.text = '"' :: rest

/-- Tokens that are one literal spell it, white space at either end apart. -/
theorem AreLiteral.render_eq {ts : List Token} {rest : Text} (h : AreLiteral ts rest) :
    render (trimWhite ts) = '"' :: rest := by
  obtain ⟨t, hts, -, htext⟩ := h
  rw [hts, render_cons, htext]
  exact List.append_nil _

/-- **Tokens give the name between angle brackets, or the literal without its first and its last
character.** -/
theorem ofTokens?_cases {ts : List Token} {name : Text} {angled : Bool}
    (h : ofTokens? ts = some (name, angled)) :
    (angled = true ∧ delimited name angled = render (trimWhite ts)) ∨
      (angled = false ∧ ∃ rest, AreLiteral ts rest ∧ name = rest.dropLast) := by
  unfold ofTokens? at h
  split at h
  · rename_i t hts
    split at h
    · rename_i ht
      obtain ⟨rfl, rfl⟩ := Prod.mk.inj (Option.some.inj h)
      rw [Bool.and_eq_true, decide_eq_true_eq, decide_eq_true_eq] at ht
      obtain ⟨rest, htext⟩ := List.head?_eq_some_iff.1 ht.2
      exact .inr ⟨rfl, rest, ⟨t, hts, ht.1, htext⟩, by rw [htext, List.drop_one, List.tail_cons]⟩
    · cases h
  · rename_i first second rest hts
    dsimp only at h
    split at h
    · rename_i hbrackets
      obtain ⟨rfl, rfl⟩ := Prod.mk.inj (Option.some.inj h)
      refine .inl ⟨rfl, ?_⟩
      simp only [Bool.and_eq_true, Option.any_eq_true, Token.isPunct, decide_eq_true_eq] at hbrackets
      obtain ⟨⟨-, -, hfirst⟩, last, hlast, -, hclose⟩ := hbrackets
      obtain ⟨inner, hinner⟩ := List.getLast?_eq_some_iff.1 hlast
      rw [hts, render_cons, hfirst, hinner, List.dropLast_concat, render_append, render_cons, hclose]
      rfl
    · cases h
  · cases h

end Inclusion

namespace Work

open Inclusion (delimited AreLiteral)

/-- The tokens that the operand of an inclusion expands to. -/
def includeTokens (w : Work) (l : LogicalLine) (operand : Text) : List Token :=
  (expandTokens (w.context l) w.counter (tokenize (Text.trim operand))).tokens

/-- What an inclusion says: its operand, if that is written with delimiters, and otherwise what
it expands to, without blanks or white space at either end. -/
def includeText (w : Work) (l : LogicalLine) (operand : Text) : Text :=
  if (Inclusion.direct? (Text.trim operand)).isSome then Text.trim operand
  else render (trimWhite (w.includeTokens l operand))

/-- The inclusion takes a literal for its name that has no quote at its end. -/
def IncludesOpenLiteral (w : Work) (l : LogicalLine) (operand : Text) : Prop :=
  Inclusion.direct? (Text.trim operand) = none ∧
    ∃ rest, AreLiteral (w.includeTokens l operand) rest ∧ rest.getLast? ≠ some '"'

variable {w : Work} {l : LogicalLine} {operand : Text} {r : Request}

/-- A file is asked for under a name that the operand or its tokens give. -/
theorem inclusion_cases (h : (w.inclusion l operand).2 = some r) :
    Inclusion.direct? (Text.trim operand) =
        some (r.inclusion.target.toList, r.inclusion.angled) ∨
      (Inclusion.direct? (Text.trim operand) = none ∧
        Inclusion.ofTokens? (w.includeTokens l operand) =
          some (r.inclusion.target.toList, r.inclusion.angled)) := by
  unfold inclusion at h
  dsimp only at h
  split at h
  · rename_i found hfound
    obtain rfl := Option.some.inj h
    left
    rw [hfound, String.toList_ofList]
  · rename_i hnone
    split at h
    · rename_i found hfound
      obtain rfl := Option.some.inj h
      exact .inr ⟨hnone, by rw [includeTokens, hfound, String.toList_ofList]⟩
    · cases h

/-- **A file is asked for under the name between its delimiters, unless the name is a literal
that is not closed.**  The name with its delimiters is what the inclusion says exactly if it is
no literal without a quote at its end; and of such a literal the name is what stands behind its
first quote, without the last character. -/
theorem reference_inclusion_iff (h : (w.inclusion l operand).2 = some r) :
    (r.inclusion.reference.toList = w.includeText l operand ↔ ¬w.IncludesOpenLiteral l operand) ∧
      (w.IncludesOpenLiteral l operand → r.inclusion.angled = false ∧
        ∃ rest, w.includeText l operand = '"' :: rest ∧
          r.inclusion.target.toList = rest.dropLast) := by
  rw [Inclusion.toList_reference]
  rcases inclusion_cases h with hdirect | ⟨hnone, htokens⟩
  · have htext : w.includeText l operand = Text.trim operand := if_pos (by rw [hdirect]; rfl)
    have hopen : ¬w.IncludesOpenLiteral l operand := fun hopen => by
      rw [hopen.1] at hdirect
      cases hdirect
    rw [htext]
    exact ⟨iff_of_true (Inclusion.eq_delimited_of_direct? hdirect) hopen, fun h => absurd h hopen⟩
  · have htext : w.includeText l operand = render (trimWhite (w.includeTokens l operand)) :=
      if_neg (by rw [hnone]; exact Bool.false_ne_true)
    rw [htext]
    rcases Inclusion.ofTokens?_cases htokens with ⟨hangled, hname⟩ | ⟨hangled, rest, hrest, hname⟩
    · have hopen : ¬w.IncludesOpenLiteral l operand := by
        rintro ⟨-, rest, hrest, -⟩
        rw [hrest.render_eq, hangled] at hname
        exact absurd (List.cons.inj hname).1 (by decide)
      exact ⟨iff_of_true hname hopen, fun h => absurd h hopen⟩
    · have hopen : w.IncludesOpenLiteral l operand ↔ rest.getLast? ≠ some '"' := by
        refine ⟨?_, fun hlast => ⟨hnone, rest, hrest, hlast⟩⟩
        rintro ⟨-, rest', hrest', hlast⟩
        obtain ⟨-, rfl⟩ := List.cons.inj (hrest.render_eq.symm.trans hrest'.render_eq)
        exact hlast
      rw [hopen, hrest.render_eq, hangled, hname]
      refine ⟨?_, fun _ => ⟨rfl, rest, rfl, rfl⟩⟩
      rw [Decidable.not_not, List.getLast?_eq_some_iff]
      refine ⟨fun heq => ⟨_, (List.cons.inj heq).2.symm⟩, ?_⟩
      rintro ⟨inner, rfl⟩
      rw [List.dropLast_concat]
      rfl

/-- The definition of `P` as a name in angle brackets. -/
def bracketTable : Table :=
  Table.ofList
    [{ name := ['P'],
       body := [⟨.punctuator, ['<'], 0⟩, ⟨.ident, ['d', 't'], 1⟩, ⟨.punctuator, ['>'], 3⟩] }]

/-- The line that includes a file by an operand. -/
def includingLine (operand : Text) : LogicalLine :=
  { file := "main.dts", number := 1
    first := ⟨"#include".toList ++ operand, "#include".toList ++ operand⟩ }

set_option maxRecDepth 8000 in
/-- A name in angle brackets that is defined elsewhere. -/
theorem reference_inclusion_iff_brackets :
    ∃ r, (inclusion { table := bracketTable } (includingLine " P ".toList) " P ".toList).2 = some r ∧
      r.inclusion.reference = "<dt>" ∧
      ¬IncludesOpenLiteral { table := bracketTable } (includingLine " P ".toList) " P ".toList := by
  have hasks : (inclusion { table := bracketTable } (includingLine " P ".toList) " P ".toList).2 =
      some ⟨⟨"dt", true, "main.dts"⟩, 1, 1⟩ := by cbv
  exact ⟨_, hasks, rfl, (reference_inclusion_iff hasks).1.1 (by cbv)⟩

/-- Of a name whose literal is never closed the last character is lost. -/
theorem reference_inclusion_ne :
    (inclusion { table := {} } (includingLine " \"abc".toList) " \"abc".toList).2 =
        some ⟨⟨"ab", false, "main.dts"⟩, 1, 1⟩ ∧
      Inclusion.reference ⟨"ab", false, "main.dts"⟩ = "\"ab\"" ∧
      includeText { table := {} } (includingLine " \"abc".toList) " \"abc".toList =
        "\"abc".toList := by
  refine ⟨?_, rfl, ?_⟩
  · cbv
  · cbv

end Work
end DevicetreePrep
