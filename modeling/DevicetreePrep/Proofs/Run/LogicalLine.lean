/-
# What a logical line is made of

The physical lines of a file, freed of their comments one behind the other, are a
list that does not depend on the run (`MaskedLine.ofLines`).  A logical line takes a
stretch from its front and leaves the rest (`OpenFile.parts_logicalLineOf`,
`OpenFile.masks_logicalLineOf`).  Every line of the stretch but the last is
continued (`LogicalLine.IsChained`), and the logical line without comments stands
over the raw one (`LogicalLine.blanked_masked`).
-/

import DevicetreePrep.Proofs.PhysicalLine.Masking
import DevicetreePrep.Proofs.Run.Inclusion

namespace DevicetreePrep

/-- The lines of a file have the texts that it is split into. -/
theorem SourceLine.map_text_ofFile (file : String) (source : Text) :
    (SourceLine.ofFile file source).map SourceLine.text = PhysicalLine.split source := by
  rw [SourceLine.ofFile, List.mapIdx_eq_zipIdx_map, List.map_map]
  exact List.zipIdx_map_fst 0 _

/-- Physical lines with their comments blanked out; `isOpen` says whether a comment
is open before the first one. -/
def MaskedLine.ofLines (isOpen : Bool) : List Text → List MaskedLine
  | [] => []
  | t :: ts => ⟨Comment.mask isOpen t, t⟩ :: ofLines (Comment.leavesOpen isOpen t) ts

namespace MaskedLine

/-- Each line of a text is masked as one line. -/
theorem length_ofLines (isOpen : Bool) (ts : List Text) :
    (ofLines isOpen ts).length = ts.length := by
  induction ts generalizing isOpen with
  | nil => rfl
  | cons t ts ih => rw [ofLines, List.length_cons, List.length_cons, ih]

/-- A line without its comments stands over the line. -/
theorem blanked_of_mem_ofLines {isOpen : Bool} {ts : List Text} {p : MaskedLine}
    (h : p ∈ ofLines isOpen ts) : Blanked p.masked p.raw := by
  induction ts generalizing isOpen with
  | nil => cases h
  | cons t ts ih =>
    rcases List.mem_cons.1 h with rfl | h
    · exact blanked_mask isOpen t
    · exact ih h

end MaskedLine

namespace LogicalLine

/-- The physical lines of a logical line, all but the last of them, are continued. -/
def IsChained (l : LogicalLine) : Prop :=
  ∀ p ∈ l.parts.dropLast, PhysicalLine.isContinued p.masked = true

/-- **A logical line without its comments stands over the raw one.** -/
theorem blanked_masked {l : LogicalLine} (h : ∀ p ∈ l.parts, Blanked p.masked p.raw) :
    Blanked l.masked l.raw := by
  have hpairs : ∀ q ∈ l.parts.map fun p => (p.masked, p.raw), Blanked q.1 q.2 := by
    intro q hq
    obtain ⟨p, hp, rfl⟩ := List.mem_map.1 hq
    exact h p hp
  have hsplice := PhysicalLine.blanked_splice hpairs
  rw [List.map_map] at hsplice
  exact hsplice

end LogicalLine

namespace OpenFile

/-- All physical lines that a continued line takes, but the last, are continued. -/
theorem isContinued_of_mem_dropLast (f : OpenFile) (last : MaskedLine) (q : List Pending)
    {p : MaskedLine} (h : p ∈ (last :: (f.continuation last q).1).dropLast) :
    PhysicalLine.isContinued p.masked = true := by
  fun_induction OpenFile.continuation f last q with
  | case1 f last l queue hc more f' rest hr ih =>
    rw [hr] at ih
    rw [List.dropLast_cons_cons, List.mem_cons] at h
    rcases h with rfl | h
    · exact hc
    · exact ih h
  | case2 => cases h
  | case3 => cases h

/-- A logical line of the queue is made of continued lines. -/
theorem isChained_logicalLine (f : OpenFile) (l : SourceLine) (q : List Pending) :
    (f.logicalLine l q).1.IsChained :=
  fun _ hp => (f.after l).isContinued_of_mem_dropLast (f.mask l) q hp

/-- A logical line of a file is made of continued lines. -/
theorem isChained_logicalLineOf (f : OpenFile) (l : SourceLine) (ls : List SourceLine) :
    (f.logicalLineOf l ls).1.IsChained := by
  have hqueue := f.isChained_logicalLine l (ls.map .line ++ [.close f.file])
  rw [f.logicalLine_map_append] at hqueue
  exact hqueue

/-- The lines of a file from here on, with their comments blanked out. -/
def masks (f : OpenFile) (ls : List SourceLine) : List MaskedLine :=
  MaskedLine.ofLines f.inComment (ls.map SourceLine.text)

theorem masks_cons (f : OpenFile) (l : SourceLine) (ls : List SourceLine) :
    f.masks (l :: ls) = f.mask l :: (f.after l).masks ls :=
  rfl

/-- The lines that continue a line are the first ones from here on. -/
theorem continuationOf_eq (f : OpenFile) (last : MaskedLine) (ls : List SourceLine) :
    let r := f.continuationOf last ls
    r.1 = (f.masks ls).take r.1.length ∧ r.2.2 = ls.drop r.1.length ∧
      r.2.1.masks r.2.2 = (f.masks ls).drop r.1.length := by
  fun_induction OpenFile.continuationOf f last ls with
  | case1 => exact ⟨rfl, rfl, rfl⟩
  | case2 f last l ls hc more f' rest hr ih =>
    rw [hr] at ih
    obtain ⟨hmore, hrest, hmasks⟩ := ih
    refine ⟨?_, hrest, hmasks⟩
    dsimp only
    rw [masks_cons, List.length_cons, List.take_succ_cons, ← hmore]
  | case3 => exact ⟨rfl, rfl, rfl⟩

variable (f : OpenFile) (l : SourceLine) (ls : List SourceLine)

/-- A line that is not continued is a logical line by itself. -/
theorem logicalLineOf_of_not_isContinued
    (h : PhysicalLine.isContinued (f.mask l).masked = false) :
    f.logicalLineOf l ls =
      ({ file := l.file, number := l.number, first := f.mask l }, f.after l, ls) := by
  cases ls with
  | nil => rfl
  | cons m ls =>
    rw [logicalLineOf, continuationOf, h]
    rfl

/-- **A logical line takes its physical lines from the front.** -/
theorem parts_logicalLineOf :
    (f.logicalLineOf l ls).1.parts =
      (f.masks (l :: ls)).take ((f.logicalLineOf l ls).1.more.length + 1) := by
  rw [masks_cons, List.take_succ_cons]
  exact congrArg (f.mask l :: ·) ((f.after l).continuationOf_eq (f.mask l) ls).1

/-- What a logical line leaves of the lines. -/
theorem rest_logicalLineOf :
    (f.logicalLineOf l ls).2.2 = (l :: ls).drop ((f.logicalLineOf l ls).1.more.length + 1) := by
  rw [List.drop_succ_cons]
  exact ((f.after l).continuationOf_eq (f.mask l) ls).2.1

/-- **Behind a logical line the comments go on as they would without it.** -/
theorem masks_logicalLineOf :
    (f.logicalLineOf l ls).2.1.masks (f.logicalLineOf l ls).2.2 =
      (f.masks (l :: ls)).drop ((f.logicalLineOf l ls).1.more.length + 1) := by
  rw [masks_cons, List.drop_succ_cons]
  exact ((f.after l).continuationOf_eq (f.mask l) ls).2.2

end OpenFile
end DevicetreePrep
