/-
# Files that are closed in themselves

A file is closed (`IncludedFile.IsClosed`) if its directives neither include a file
nor mark one, its conditionals are balanced, and its last line leaves no comment open
and is not continued.  All of this is said of the text alone: the physical lines
without comments fall into groups, one for each logical line (`MaskedLine.groups`),
and each group may be a directive.

While such a file is read, what is left of it stays closed behind as many
conditionals as are open (`LinesClosed.next`, `Work.length_of_process`), and lines
that follow it do not matter to its logical lines (`OpenFile.logicalLineOf_append`).
-/

import DevicetreePrep.Proofs.Run.Alike
import DevicetreePrep.Proofs.Run.Origins

namespace DevicetreePrep

namespace MaskedLine

/-- Physical lines in groups that make up the logical lines: a line that is continued
stands in one group with the next line. -/
def groups : List MaskedLine → List (List MaskedLine)
  | [] => []
  | p :: ps =>
    if PhysicalLine.isContinued p.masked then
      match groups ps with
      | [] => [[p]]
      | g :: gs => (p :: g) :: gs
    else [p] :: groups ps

/-- The directives among physical lines. -/
def directives (ps : List MaskedLine) : List Directive :=
  (groups ps).filterMap directive?

end MaskedLine

namespace Directive

/-- The number of open conditionals behind a directive. -/
def depthAfter (depth : Nat) : Directive → Nat
  | .ifHolds _ | .ifDefined _ | .ifUndefined _ => depth + 1
  | .endIf => depth - 1
  | _ => depth

/-- Whether directives are balanced behind `depth` open conditionals: none goes on
with a conditional where none is open, and at the end none is open. -/
def isBalanced (depth : Nat) : List Directive → Bool
  | [] => depth = 0
  | d :: ds => (!d.goesOn || 0 < depth) && isBalanced (d.depthAfter depth) ds

end Directive

/-- The lines of a file from here on are closed, where `depth` conditionals are open,
and a comment if `isOpen` says so. -/
structure LinesClosed (depth : Nat) (isOpen : Bool) (ts : List Text) : Prop where
  /-- No directive depends on the file that it stands in. -/
  plain : ∀ d ∈ MaskedLine.directives (MaskedLine.ofLines isOpen ts), d.namesFile = false
  balanced :
    Directive.isBalanced depth (MaskedLine.directives (MaskedLine.ofLines isOpen ts)) = true
  /-- No comment is left open at the end. -/
  uncommented : ts.foldl Comment.leavesOpen isOpen = false
  /-- The last line is not continued. -/
  ended : ∀ p ∈ (MaskedLine.ofLines isOpen ts).getLast?, PhysicalLine.isContinued p.masked = false

/-- The file is closed in itself. -/
def IncludedFile.IsClosed (g : IncludedFile) : Prop :=
  LinesClosed 0 false (PhysicalLine.split g.text)

namespace OpenFile

/-- The conditionals that are open do not change inside of a logical line. -/
theorem branches_logicalLineOf (f : OpenFile) (l : SourceLine) (ls : List SourceLine) :
    (f.logicalLineOf l ls).2.1.branches = f.branches := by
  have key (g : OpenFile) (last : MaskedLine) (ls : List SourceLine) :
      (g.continuationOf last ls).2.1.branches = g.branches := by
    fun_induction OpenFile.continuationOf g last ls with
    | case1 => rfl
    | case2 g last l ls _ more g' rest hr ih => rw [hr] at ih; exact ih
    | case3 => rfl
  exact key (f.after l) (f.mask l) ls

/-- **The first group of lines is the first logical line**, and the other groups are
those of the lines behind it. -/
theorem groups_masks (f : OpenFile) (l : SourceLine) (ls : List SourceLine) :
    MaskedLine.groups (f.masks (l :: ls)) =
      (f.logicalLineOf l ls).1.parts ::
        MaskedLine.groups ((f.logicalLineOf l ls).2.1.masks (f.logicalLineOf l ls).2.2) := by
  have key (g : OpenFile) (last : MaskedLine) (ls : List SourceLine) :
      MaskedLine.groups (last :: g.masks ls) =
        (last :: (g.continuationOf last ls).1) :: MaskedLine.groups
          ((g.continuationOf last ls).2.1.masks (g.continuationOf last ls).2.2) := by
    fun_induction OpenFile.continuationOf g last ls with
    | case1 g last =>
      change MaskedLine.groups [last] = [[last]]
      rw [MaskedLine.groups]
      split <;> rfl
    | case2 g last l ls hc more g' rest hr ih =>
      rw [hr] at ih
      rw [masks_cons, MaskedLine.groups, if_pos hc, ih]
    | case3 g last l ls hc => rw [MaskedLine.groups, if_neg hc]
  exact key (f.after l) (f.mask l) ls

/-- A comment is open behind lines whether some of them are one logical line or not. -/
theorem foldl_leavesOpen_logicalLineOf (f : OpenFile) (l : SourceLine) (ls : List SourceLine) :
    ((f.logicalLineOf l ls).2.2.map SourceLine.text).foldl Comment.leavesOpen
        (f.logicalLineOf l ls).2.1.inComment =
      ((l :: ls).map SourceLine.text).foldl Comment.leavesOpen f.inComment := by
  have key (g : OpenFile) (last : MaskedLine) (ls : List SourceLine) :
      ((g.continuationOf last ls).2.2.map SourceLine.text).foldl Comment.leavesOpen
          (g.continuationOf last ls).2.1.inComment =
        (ls.map SourceLine.text).foldl Comment.leavesOpen g.inComment := by
    fun_induction OpenFile.continuationOf g last ls with
    | case1 => rfl
    | case2 g last l ls _ more g' rest hr ih => rw [hr] at ih; exact ih
    | case3 => rfl
  exact key (f.after l) (f.mask l) ls

/-- **Lines that follow do not matter to a logical line**, if the last line before
them is not continued. -/
theorem logicalLineOf_append {f : OpenFile} {l : SourceLine} {ls : List SourceLine}
    (h : ∀ p ∈ (f.masks (l :: ls)).getLast?, PhysicalLine.isContinued p.masked = false)
    (ms : List SourceLine) :
    f.logicalLineOf l (ls ++ ms) =
      ((f.logicalLineOf l ls).1, (f.logicalLineOf l ls).2.1, (f.logicalLineOf l ls).2.2 ++ ms) := by
  have key (g : OpenFile) (last : MaskedLine) (ls : List SourceLine)
      (h : ∀ p ∈ (last :: g.masks ls).getLast?, PhysicalLine.isContinued p.masked = false) :
      g.continuationOf last (ls ++ ms) =
        ((g.continuationOf last ls).1, (g.continuationOf last ls).2.1,
          (g.continuationOf last ls).2.2 ++ ms) := by
    fun_induction OpenFile.continuationOf g last ls with
    | case1 g last =>
      have hlast : PhysicalLine.isContinued last.masked = false := h last rfl
      cases ms with
      | nil => rfl
      | cons m ms =>
        rw [List.nil_append, OpenFile.continuationOf, hlast]
        rfl
    | case2 g last l ls hc more g' rest hr ih =>
      rw [masks_cons, List.getLast?_cons_cons] at h
      have hrest := ih h
      rw [hr] at hrest
      rw [List.cons_append, OpenFile.continuationOf, if_pos hc, hrest]
    | case3 g last l ls hc => rw [List.cons_append, OpenFile.continuationOf, if_neg hc]
  rw [logicalLineOf, key (f.after l) (f.mask l) ls h]
  rfl

end OpenFile

/-- Behind a logical line the lines end as they did before it. -/
theorem OpenFile.ended_logicalLineOf {f : OpenFile} {l : SourceLine} {ls : List SourceLine}
    (h : ∀ p ∈ (f.masks (l :: ls)).getLast?, PhysicalLine.isContinued p.masked = false) :
    ∀ p ∈ ((f.logicalLineOf l ls).2.1.masks (f.logicalLineOf l ls).2.2).getLast?,
      PhysicalLine.isContinued p.masked = false := by
  intro p hp
  rw [f.masks_logicalLineOf, List.getLast?_drop] at hp
  split at hp
  · cases hp
  · exact h p hp

/-- **What is left of closed lines behind a logical line is closed.**  A directive
among them depends on no file and finds the conditional that it goes on with. -/
theorem LinesClosed.next {depth : Nat} {f : OpenFile} {l : SourceLine} {ls : List SourceLine}
    (h : LinesClosed depth f.inComment ((l :: ls).map SourceLine.text)) :
    (∀ d ∈ MaskedLine.directive? (f.logicalLineOf l ls).1.parts,
        d.namesFile = false ∧ (d.goesOn = true → 0 < depth)) ∧
      LinesClosed
        ((MaskedLine.directive? (f.logicalLineOf l ls).1.parts).elim depth (·.depthAfter depth))
        (f.logicalLineOf l ls).2.1.inComment
        ((f.logicalLineOf l ls).2.2.map SourceLine.text) := by
  have hgroups : MaskedLine.directives (f.masks (l :: ls)) =
      (MaskedLine.directive? (f.logicalLineOf l ls).1.parts).toList ++
        MaskedLine.directives ((f.logicalLineOf l ls).2.1.masks (f.logicalLineOf l ls).2.2) := by
    rw [MaskedLine.directives, f.groups_masks, List.filterMap_cons]
    cases MaskedLine.directive? (f.logicalLineOf l ls).1.parts <;> rfl
  have hplain : ∀ d ∈ MaskedLine.directives (f.masks (l :: ls)), d.namesFile = false := h.plain
  have hbalanced : Directive.isBalanced depth (MaskedLine.directives (f.masks (l :: ls))) = true :=
    h.balanced
  have hended := OpenFile.ended_logicalLineOf h.ended
  have huncommented := (f.foldl_leavesOpen_logicalLineOf l ls).trans h.uncommented
  rw [hgroups] at hplain hbalanced
  cases hd : MaskedLine.directive? (f.logicalLineOf l ls).1.parts with
  | none =>
    rw [hd] at hplain hbalanced
    exact ⟨fun d hnone => (nomatch hnone), hplain, hbalanced, huncommented, hended⟩
  | some d =>
    rw [hd] at hplain hbalanced
    rw [Option.toList_some, List.singleton_append] at hplain hbalanced
    rw [Directive.isBalanced, Bool.and_eq_true, Bool.or_eq_true, decide_eq_true_eq] at hbalanced
    refine ⟨?_, fun e he => hplain e (List.mem_cons_of_mem _ he), hbalanced.2, huncommented, hended⟩
    intro e he
    obtain rfl := Option.some.inj he
    refine ⟨hplain d (List.mem_cons_self ..), fun hgoes => ?_⟩
    rw [hgoes] at hbalanced
    exact hbalanced.1.resolve_left Bool.false_ne_true

namespace Branches

variable {bs cs : Branches}

/-- A further branch leaves as many conditionals open. -/
theorem length_nextBranch {condition : Bool} (h : nextBranch bs condition = .ok cs) :
    cs.length = bs.length := by
  unfold nextBranch at h
  repeat' split at h
  all_goals first | cases h; done | (obtain rfl := Except.ok.inj h; rfl)

/-- The last branch leaves as many conditionals open. -/
theorem length_lastBranch (h : lastBranch bs = .ok cs) : cs.length = bs.length := by
  unfold lastBranch at h
  repeat' split at h
  all_goals first | cases h; done | (obtain rfl := Except.ok.inj h; rfl)

end Branches

namespace Work

variable {w w' : Work} {bs bs' : Branches} {l : LogicalLine} {r : Option Request}

/-- An operation that does not fit leaves the conditionals as they are. -/
theorem length_settle (w : Work) (bs : Branches) (l : LogicalLine)
    {r : Except BranchError Branches} (h : ∀ cs, r = .ok cs → cs.length = bs.length) :
    (w.settle bs l r).2.length = bs.length := by
  cases r with
  | error e => rfl
  | ok cs => exact h cs rfl

/-- A conditional on a name opens one conditional. -/
theorem length_openNamed (w : Work) (bs : Branches) (l : LogicalLine) (directive : String)
    (operand : Text) {opened : Bool → Branches} (h : ∀ b, (opened b).length = bs.length + 1) :
    (w.openNamed bs l directive operand opened).2.length = bs.length + 1 := by
  unfold openNamed
  split
  · rfl
  · exact h _

/-- Only a directive that depends on its file asks for another one. -/
theorem request_perform {d : Directive} (hd : d.namesFile = false) (w : Work) (l : LogicalLine) :
    (w.perform l d).2 = none := by
  cases d with
  | inclusion | pragma => cases hd
  | nameless operand =>
    unfold perform
    dsimp only
    split <;> rfl
  | _ => rfl

/-- What a directive leaves: the number of open conditionals, and no request unless it
depends on its file. -/
theorem length_of_direct {d : Directive} (h : w.direct bs l d = .ok (w', bs', r)) :
    bs'.length = d.depthAfter bs.length ∧ (d.namesFile = false → r = none) := by
  cases hd : d.isConditional with
  | false =>
    have hdepth : d.depthAfter bs.length = bs.length := by cases d <;> first | rfl | cases hd
    rw [direct_of_not_isConditional hd] at h
    rw [hdepth]
    split at h
    · cases h
      exact ⟨rfl, fun hplain => request_perform hplain w l⟩
    · cases h
      exact ⟨rfl, fun _ => rfl⟩
  | true =>
    cases d with
    | ifHolds operand =>
      rw [direct_ifHolds] at h
      cases hc : w.conditionIf (Branches.active bs) l operand with
      | error e => rw [hc] at h; cases h
      | ok p =>
        rw [hc] at h
        cases h
        exact ⟨rfl, fun _ => rfl⟩
    | elseIf operand =>
      rw [direct_elseIf] at h
      cases hc : w.conditionIf (Branches.asksCondition bs) l operand with
      | error e => rw [hc] at h; cases h
      | ok p =>
        rw [hc] at h
        cases h
        exact ⟨p.2.length_settle bs l fun _ => Branches.length_nextBranch, fun _ => rfl⟩
    | ifDefined operand =>
      rw [direct_ifDefined] at h
      cases h
      exact ⟨w.length_openNamed bs l _ operand fun _ => rfl, fun _ => rfl⟩
    | ifUndefined operand =>
      rw [direct_ifUndefined] at h
      cases h
      exact ⟨w.length_openNamed bs l _ operand fun _ => rfl, fun _ => rfl⟩
    | otherwise =>
      cases h
      exact ⟨w.length_settle bs l fun _ => Branches.length_lastBranch, fun _ => rfl⟩
    | endIf =>
      cases h
      cases bs with
      | nil => exact ⟨rfl, fun _ => rfl⟩
      | cons b bs => exact ⟨rfl, fun _ => rfl⟩
    | _ => cases hd

/-- **What a logical line leaves**: as many open conditionals as its directive says,
and no request unless that depends on its file. -/
theorem length_of_process (h : w.process bs l = .ok (w', bs', r)) :
    bs'.length = (MaskedLine.directive? l.parts).elim bs.length (·.depthAfter bs.length) ∧
      ((∀ d ∈ MaskedLine.directive? l.parts, d.namesFile = false) → r = none) := by
  unfold process at h
  cases hfirst : Directive.ofLine? l.first.masked with
  | none =>
    have hd : MaskedLine.directive? l.parts = none := congrArg (Option.bind · _) hfirst
    rw [hfirst] at h
    rw [hd]
    dsimp only at h
    split at h
    · cases h
      exact ⟨rfl, fun _ => rfl⟩
    · cases h
      exact ⟨rfl, fun _ => rfl⟩
  | some d₀ =>
    rw [hfirst] at h
    cases hline : Directive.ofLine? l.masked with
    | none => rw [hline] at h; cases h
    | some d =>
      have hd : MaskedLine.directive? l.parts = some d :=
        (congrArg (Option.bind · _) hfirst).trans hline
      rw [hline] at h
      rw [hd]
      obtain ⟨hlength, hrequest⟩ := length_of_direct h
      exact ⟨hlength, fun hplain => hrequest (hplain d rfl)⟩

end Work
end DevicetreePrep
