/-
# Where an unclosed comment opens

Lines may end inside of a comment.  The mark that opens this comment stands in one of
them: it is read as code there, and wherever one stops behind it, in its line or in a later
one, the comment is still open (`Comment.OpensIn`).  There is exactly one such line
(`Comment.exists_opensIn`, `Comment.OpensIn.eq`).

To know of each line whether it starts inside of a comment is less than that.  It gives the
last line that starts outside of one (`Comment.IsLastOutside`).  The mark stands in this
line if and only if it stands in a line that starts outside of a comment
(`Comment.IsLastOutside.eq_iff`); a line that closes one comment and opens another does not.
-/

import DevicetreePrep.Proofs.Comment.Splicing
import Mathlib.Data.List.Infix

namespace DevicetreePrep
namespace Comment

/-- Wherever one stops in a text that is read in the mode `m`, a comment is open. -/
def StaysInside (m : Mode) (t : Text) : Prop :=
  ∀ front, front <+: t → modeAfter m front = .block

theorem StaysInside.modeAfter {m : Mode} {t : Text} (h : StaysInside m t) :
    modeAfter m t = .block :=
  h t (List.prefix_refl t)

/-- A line that is read in the mode `m` opens a comment behind `front`, and this comment is
open up to the end of the line. -/
structure Opens (m : Mode) (line front rest : Text) : Prop where
  parts : line = front ++ '/' :: '*' :: rest
  /-- The mark does not stand in a comment or in a literal. -/
  code : modeAfter m front = .code
  inside : ∀ t, t <+: rest → modeAfter m (front ++ '/' :: '*' :: t) = .block

instance (m : Mode) (t : Text) : Decidable (StaysInside m t) :=
  decidable_of_iff (∀ front ∈ t.inits, modeAfter m front = .block) (by
    simp only [List.mem_inits, StaysInside])

instance (m : Mode) (line front rest : Text) : Decidable (Opens m line front rest) :=
  decidable_of_iff (line = front ++ '/' :: '*' :: rest ∧ modeAfter m front = .code ∧
      ∀ t ∈ rest.inits, modeAfter m (front ++ '/' :: '*' :: t) = .block) (by
    simp only [List.mem_inits]
    exact ⟨fun h => ⟨h.1, h.2.1, h.2.2⟩, fun h => ⟨h.parts, h.code, h.inside⟩⟩)

/-- The first characters `u` of `u ++ t` take the reader from the mode `m` to the mode
`m'`, wherever one stops in `t`. -/
def Passes (m : Mode) (u : Text) (m' : Mode) (t : Text) : Prop :=
  ∀ front, front <+: t → modeAfter m (u ++ front) = modeAfter m' front

namespace Passes

/-- In code a character that starts no comment goes on in code, or opens a literal. -/
theorem code {c : Char} {cs : Text} (hline : ∀ t, c = '/' → cs = '/' :: t → False)
    (hblock : ∀ t, c = '/' → cs = '*' :: t → False) :
    Passes .code [c] (if c = '"' || c = '\'' then .quoted c else .code) cs := by
  rintro front ⟨rest, rfl⟩
  refine modeAfter.eq_3 c front (fun t hc ht => ?_) fun t hc ht => ?_
  · exact hline (t ++ rest) hc (by rw [ht]; rfl)
  · exact hblock (t ++ rest) hc (by rw [ht]; rfl)

/-- In a literal a character that hides none closes it, or goes on in it. -/
theorem quoted {q c : Char} {cs : Text} (hescape : ∀ d t, c = '\\' → cs = d :: t → False) :
    Passes (.quoted q) [c] (if c = q then .code else .quoted q) cs := by
  rintro front ⟨rest, rfl⟩
  exact modeAfter.eq_5 q c front fun d t hc ht => hescape d (t ++ rest) hc (by rw [ht]; rfl)

/-- In a block comment, a character that does not close it stays in it. -/
theorem block {c : Char} {cs : Text} (hclose : ∀ t, c = '*' → cs = '/' :: t → False) :
    Passes .block [c] .block cs := by
  rintro front ⟨rest, rfl⟩
  exact modeAfter.eq_8 c front fun t hc ht => hclose (t ++ rest) hc (by rw [ht]; rfl)

variable {m m' : Mode} {u line front rest : Text}

/-- What a line opens, it opens behind the first characters, too. -/
theorem opens (hunit : Passes m u m' line) (h : Opens m' line front rest) :
    Opens m (u ++ line) (u ++ front) rest where
  parts := by rw [h.parts, List.append_assoc]
  code := by rw [hunit front ⟨_, h.parts.symm⟩, h.code]
  inside t ht := by
    have hfront : front ++ '/' :: '*' :: t <+: line := by
      obtain ⟨rest', rfl⟩ := ht
      exact ⟨rest', by rw [h.parts, List.append_assoc]; rfl⟩
    rw [List.append_assoc, hunit _ hfront, h.inside t ht]

/-- Inside of a comment, one more character that does not close it makes no difference. -/
theorem staysInside {c : Char} (hunit : Passes .block [c] .block line)
    (h : StaysInside .block line) : StaysInside .block (c :: line) := by
  intro front hfront
  rcases List.prefix_cons_iff.1 hfront with rfl | ⟨t, rfl, ht⟩
  · rfl
  · exact (hunit t ht).trans (h t ht)

end Passes

/-- A line comment goes to the end of the line. -/
theorem modeAfter_line (t : Text) : modeAfter .line t = .line := by
  induction t with
  | nil => rfl
  | cons c cs ih => exact ih

/-- **A line that ends inside of a comment is inside of it all along, or opens it.** -/
theorem staysInside_or_opens {m : Mode} {t : Text} (h : modeAfter m t = .block) :
    StaysInside m t ∨ ∃ front rest, Opens m t front rest := by
  -- the line is read unit by unit; outside of comments, only the second alternative is left
  have step {m m' : Mode} {u t : Text} (hunit : Passes m u m' t) (hm' : m' ≠ .block)
      (ih : StaysInside m' t ∨ ∃ front rest, Opens m' t front rest) :
      ∃ front rest, Opens m (u ++ t) front rest := by
    rcases ih with hinside | ⟨front, rest, hopens⟩
    · exact absurd ((modeAfter_nil m').symm.trans (hinside [] List.nil_prefix)) hm'
    · exact ⟨_, _, hunit.opens hopens⟩
  fun_induction modeAfter m t with
  | case1 cs ih =>
    rw [modeAfter_line] at h
    cases h
  | case2 cs ih =>
    rcases ih h with hinside | ⟨front, rest, hopens⟩
    · exact .inr ⟨[], cs, rfl, rfl, hinside⟩
    · exact .inr ⟨_, _, Passes.opens (u := ['/', '*']) (fun _ _ => rfl) hopens⟩
  | case3 c cs hline hblock ih =>
    exact .inr (step (.code hline hblock) (by split <;> exact Mode.noConfusion) (ih h))
  | case4 q c cs ih =>
    exact .inr (step (u := ['\\', c]) (fun _ _ => rfl) Mode.noConfusion (ih h))
  | case5 q c cs hescape ih =>
    exact .inr (step (.quoted hescape) (by split <;> exact Mode.noConfusion) (ih h))
  | case6 c cs ih =>
    rw [modeAfter_line] at h
    cases h
  | case7 cs ih =>
    exact .inr (step (u := ['*', '/']) (fun _ _ => rfl) Mode.noConfusion (ih h))
  | case8 c cs hclose ih =>
    rcases ih h with hinside | ⟨front, rest, hopens⟩
    · exact .inl ((Passes.block hclose).staysInside hinside)
    · exact .inr ⟨_, _, (Passes.block hclose).opens hopens⟩
  | case9 m =>
    refine .inl fun front hfront => ?_
    rw [List.prefix_nil.1 hfront, modeAfter_nil]
    exact h

/-- Whether the line behind the first `n` lines starts inside of a comment. -/
def openBefore (lines : List Text) (n : Nat) : Bool :=
  (lines.take n).foldl leavesOpen false

section Lines

variable {lines : List Text} {line : Text} {m n k : Nat}

/-- One line more: what is open behind it follows from what is open before it. -/
theorem openBefore_succ (h : lines[n]? = some line) :
    openBefore lines (n + 1) = leavesOpen (openBefore lines n) line := by
  rw [openBefore, List.take_add_one, h, List.foldl_append]
  rfl

theorem openBefore_of_length_le (h : lines.length ≤ n) :
    openBefore lines n = lines.foldl leavesOpen false := by
  rw [openBefore, List.take_of_length_le h]

/-- What is open before a line does not depend on the lines behind. -/
theorem openBefore_append (h : n ≤ lines.length) (more : List Text) :
    openBefore (lines ++ more) n = openBefore lines n := by
  rw [openBefore, List.take_append_of_le_length h]
  rfl

/-- The comment that is open behind the lines opens in the line `n`, counted from zero. -/
structure OpensIn (lines : List Text) (n : Nat) : Prop where
  opens : ∃ line front rest, lines[n]? = some line ∧
    Opens (startMode (openBefore lines n)) line front rest
  inside : ∀ line ∈ lines.drop (n + 1), StaysInside .block line

theorem OpensIn.lt_length (h : OpensIn lines n) : n < lines.length := by
  obtain ⟨_, _, _, hline, -⟩ := h.opens
  exact (List.getElem?_eq_some_iff.1 hline).1

/-- No line behind the one with the mark closes the comment. -/
theorem OpensIn.staysInside (h : OpensIn lines n) (hk : n < k) (hline : lines[k]? = some line) :
    StaysInside .block line := by
  refine h.inside line (List.mem_of_getElem? (i := k - (n + 1)) ?_)
  rw [List.getElem?_drop, Nat.add_sub_cancel' hk, hline]

/-- All lines behind the one with the mark start inside of a comment. -/
theorem OpensIn.openBefore_eq_true (h : OpensIn lines n) (hk : n < k) (hlength : k ≤ lines.length) :
    openBefore lines k = true := by
  induction hk with
  | refl =>
    obtain ⟨line, front, rest, hline, hopens⟩ := h.opens
    rw [openBefore_succ hline, leavesOpen, decide_eq_true_eq, hopens.parts]
    exact hopens.inside rest (List.prefix_refl rest)
  | @step k hk ih =>
    have hline : lines[k]? = some lines[k] := List.getElem?_eq_getElem hlength
    rw [openBefore_succ hline, ih (Nat.le_of_lt hlength), leavesOpen, decide_eq_true_eq]
    exact (h.staysInside hk hline).modeAfter

/-- **An unclosed comment opens in one line only.** -/
theorem OpensIn.eq (hm : OpensIn lines m) (hn : OpensIn lines n) : m = n := by
  have key {m n : Nat} (hm : OpensIn lines m) (hn : OpensIn lines n) : ¬m < n := by
    intro hlt
    obtain ⟨line, front, rest, hline, hopens⟩ := hn.opens
    -- the front of the line would be read as code, inside of the comment that is open
    have hcode := hopens.code
    rw [hm.openBefore_eq_true hlt (Nat.le_of_lt hn.lt_length)] at hcode
    have hblock := hm.staysInside hlt hline front ⟨_, hopens.parts.symm⟩
    exact Mode.noConfusion (hcode.symm.trans hblock)
  exact Nat.le_antisymm (Nat.le_of_not_lt (key hn hm)) (Nat.le_of_not_lt (key hm hn))

/-- One more line that does not close the comment leaves its opening where it is. -/
theorem OpensIn.concat (h : OpensIn lines n) (hline : StaysInside .block line) :
    OpensIn (lines ++ [line]) n := by
  obtain ⟨line', front, rest, hline', hopens⟩ := h.opens
  refine ⟨⟨line', front, rest, ?_, ?_⟩, fun l hl => ?_⟩
  · rw [List.getElem?_append_left h.lt_length, hline']
  · rw [openBefore_append (Nat.le_of_lt h.lt_length)]
    exact hopens
  · rw [List.drop_append_of_le_length h.lt_length, List.mem_append, List.mem_singleton] at hl
    rcases hl with hl | rfl
    · exact h.inside l hl
    · exact hline

/-- A line starts in a block comment only if one is open. -/
theorem eq_true_of_startMode {isOpen : Bool} (h : startMode isOpen = .block) : isOpen = true := by
  cases isOpen with
  | true => rfl
  | false => cases h

/-- **Lines that end inside of a comment have a line that opens it.** -/
theorem exists_opensIn (h : lines.foldl leavesOpen false = true) : ∃ n, OpensIn lines n := by
  induction lines using List.reverseRecOn with
  | nil => cases h
  | append_singleton lines line ih =>
    rw [List.foldl_append, List.foldl_cons, List.foldl_nil, leavesOpen, decide_eq_true_eq] at h
    rcases staysInside_or_opens h with hinside | ⟨front, rest, hopens⟩
    · -- the comment was open before this line, so an earlier one opens it
      have hmode : startMode (lines.foldl leavesOpen false) = .block :=
        (modeAfter_nil _).symm.trans (hinside [] List.nil_prefix)
      rw [hmode] at hinside
      obtain ⟨n, hn⟩ := ih (eq_true_of_startMode hmode)
      exact ⟨n, hn.concat hinside⟩
    · refine ⟨lines.length, ⟨line, front, rest, List.getElem?_concat_length, ?_⟩, ?_⟩
      · rw [openBefore_append (Nat.le_refl _), openBefore_of_length_le (Nat.le_refl _)]
        exact hopens
      · rw [List.drop_of_length_le (by simp)]
        exact fun _ h => absurd h List.not_mem_nil

/-- Among the first `n` lines, the line `m` is the last one that starts outside of a
comment, and a comment is open behind them. -/
structure IsLastOutside (lines : List Text) (n m : Nat) : Prop where
  lt : m < n
  outside : openBefore lines m = false
  inside : ∀ k, m < k → k ≤ n → openBefore lines k = true

/-- A line that starts outside of a comment and leaves one open is the last one so far. -/
theorem IsLastOutside.last (h : openBefore lines n = false) (h' : openBefore lines (n + 1) = true) :
    IsLastOutside lines (n + 1) n where
  lt := Nat.lt_succ_self n
  outside := h
  inside k hk hk' := by
    obtain rfl : k = n + 1 := by omega
    exact h'

/-- A line that starts inside of a comment and leaves one open changes nothing. -/
theorem IsLastOutside.succ (h : IsLastOutside lines n m) (h' : openBefore lines (n + 1) = true) :
    IsLastOutside lines (n + 1) m where
  lt := Nat.lt_succ_of_lt h.lt
  outside := h.outside
  inside k hk hk' := by
    rcases Nat.lt_or_eq_of_le hk' with hk' | rfl
    · exact h.inside k hk (Nat.le_of_lt_succ hk')
    · exact h'

/-- The mark does not stand before the last line that starts outside of a comment. -/
theorem IsLastOutside.le (hm : IsLastOutside lines lines.length m) (hn : OpensIn lines n) :
    m ≤ n := by
  by_contra hlt
  have hinside := hn.openBefore_eq_true (Nat.lt_of_not_le hlt) (Nat.le_of_lt hm.lt)
  rw [hm.outside] at hinside
  cases hinside

/-- **The mark stands in the last line that starts outside of a comment if and only if it
stands in a line that does.** -/
theorem IsLastOutside.eq_iff (hm : IsLastOutside lines lines.length m) (hn : OpensIn lines n) :
    m = n ↔ openBefore lines n = false := by
  constructor
  · rintro rfl
    exact hm.outside
  · intro houtside
    refine Nat.le_antisymm (hm.le hn) (Nat.le_of_not_lt fun hlt => ?_)
    rw [hm.inside n hlt (Nat.le_of_lt hn.lt_length)] at houtside
    cases houtside

end Lines
end Comment
end DevicetreePrep
