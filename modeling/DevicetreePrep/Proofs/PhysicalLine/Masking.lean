/-
# A line without its comments stands over the line itself

A line without its comments has a space in place of some characters, and is the
line itself everywhere else (`blanked_mask`).  When several lines are made one, both
are cut at the same places, so the two stay over each other (`blanked_splice`): a
column in the one is a column in the other.
-/

import DevicetreePrep.Comment
import DevicetreePrep.PhysicalLine
import Mathlib.Data.List.Forall2

namespace DevicetreePrep

/-- A text is another one with a space in place of some characters. -/
def Blanked (base raw : Text) : Prop :=
  List.Forall₂ (fun b r => b = r ∨ b = ' ') base raw

namespace Blanked

variable {base base' raw raw' : Text}

theorem length_eq (h : Blanked base raw) : base.length = raw.length :=
  List.Forall₂.length_eq h

theorem take (h : Blanked base raw) (n : Nat) : Blanked (base.take n) (raw.take n) :=
  List.forall₂_take n h

theorem dropLast (h : Blanked base raw) : Blanked base.dropLast raw.dropLast := by
  rw [List.dropLast_eq_take, List.dropLast_eq_take, h.length_eq]
  exact h.take _

theorem append (h : Blanked base raw) (h' : Blanked base' raw') :
    Blanked (base ++ base') (raw ++ raw') :=
  List.rel_append h h'

end Blanked

/-- Blanking out comments writes a space over some characters. -/
theorem blanked_maskIn (m : Comment.Mode) (t : Text) : Blanked (Comment.maskIn m t) t := by
  have same {c : Char} : c = c ∨ c = ' ' := .inl rfl
  have space {c : Char} : ' ' = c ∨ ' ' = ' ' := .inr rfl
  fun_induction Comment.maskIn m t with
  | case1 cs ih => exact .cons space (.cons space ih)
  | case2 cs ih => exact .cons space (.cons space ih)
  | case3 => exact .cons same ‹_›
  | case4 q c cs ih => exact .cons same (.cons same ih)
  | case5 => exact .cons same ‹_›
  | case6 => exact .cons space ‹_›
  | case7 cs ih => exact .cons space (.cons space ih)
  | case8 => exact .cons space ‹_›
  | case9 => exact .nil

/-- **A line without its comments stands over the line.** -/
theorem blanked_mask (isOpen : Bool) (line : Text) : Blanked (Comment.mask isOpen line) line :=
  blanked_maskIn _ _

namespace PhysicalLine

/-- A continued line is cut where its guide is, whatever stands in it. -/
theorem blanked_cutContinued {base raw : Text} (h : Blanked base raw) (guide : Text) :
    Blanked (cutContinued guide base) (cutContinued guide raw) := by
  unfold cutContinued
  split
  · exact h.take _
  · exact h.dropLast

/-- **Lines that are made one stay over each other**, because the lines without
comments say where both are cut. -/
theorem blanked_splice {lines : List (Text × Text)} (h : ∀ p ∈ lines, Blanked p.1 p.2) :
    Blanked (join (lines.map Prod.fst)) (splice lines) := by
  rw [join, List.map_map]
  induction lines with
  | nil => exact .nil
  | cons p rest ih =>
    obtain ⟨guide, line⟩ := p
    have hp : Blanked guide line := h _ (List.mem_cons_self ..)
    have hrest := ih fun p hp => h p (List.mem_cons_of_mem _ hp)
    cases rest with
    | nil => exact hp
    | cons q rest => exact (blanked_cutContinued hp guide).append hrest

end PhysicalLine
end DevicetreePrep
