/-
# What is heard of a skipped group

A group of lines that lies inside of a block that is not active, and in which every
conditional is opened before it goes on or ends, should pass in silence.  All that is
looked at in it is how its conditionals nest.  Two things are heard all the same.  The
name behind `#ifdef` and `#ifndef` is asked for also in a skipped place, unlike the
conditions of `#if` and `#elif`.  And a line that starts as a directive, but is none as a
whole, ends the run wherever it stands.

`Work.skip` is what is heard of one line.  A run over a group does just that, line by line
(`State.passes_of_group?`): the conditionals of the group lie above those that were open
before it, and none of them is in an active place (`Branches.Above`).  So a group passes in
silence exactly if no line of it is of these two kinds (`State.silent_iff_of_group?`).
-/

import DevicetreePrep.Proofs.Run.Skipping
import DevicetreePrep.Proofs.Run.Termination

namespace DevicetreePrep

namespace Directive

/-- The conditionals that a group of lines has open, the innermost one first: whether the
last branch of each is reached.  A directive changes them, unless it goes on with a
conditional from outside of the group, or behind its last branch. -/
def openAfter (opened : List Bool) : Directive → Option (List Bool)
  | .ifHolds _ | .ifDefined _ | .ifUndefined _ => some (false :: opened)
  | .elseIf _ =>
    match opened with
    | false :: outer => some (false :: outer)
    | _ => none
  | .otherwise =>
    match opened with
    | false :: outer => some (true :: outer)
    | _ => none
  | .endIf =>
    match opened with
    | _ :: outer => some outer
    | [] => none
  | _ => some opened

/-- The problem of a directive that opens a conditional on a name and has none. -/
def nameProblem? : Directive → Option Problem
  | .ifDefined operand => problem? (requireName "ifdef" operand)
  | .ifUndefined operand => problem? (requireName "ifndef" operand)
  | _ => none
where
  problem? : Except DirectiveError Text → Option Problem
    | .ok _ => none
    | .error e => some e.problem

end Directive

namespace LogicalLine

/-- The conditionals of a group behind one of its lines. -/
def openAfter (opened : List Bool) (l : LogicalLine) : Option (List Bool) :=
  match MaskedLine.directive? l.parts with
  | some d => d.openAfter opened
  | none => some opened

/-- Every directive of the lines that goes on with a conditional, or ends one, has one that
the lines opened, and no branch follows the last one. -/
def AreNested (ls : List LogicalLine) : Prop :=
  (ls.foldlM openAfter []).isSome

/-- Nothing is heard of the line where it is skipped. -/
structure IsQuiet (l : LogicalLine) : Prop where
  /-- What starts as a directive is one as a whole. -/
  whole : (Directive.ofLine? l.first.masked).isSome → (Directive.ofLine? l.masked).isSome
  /-- A conditional on a name has a name. -/
  named {operand : Text} (h : MaskedLine.directive? l.parts = some (.ifDefined operand) ∨
    MaskedLine.directive? l.parts = some (.ifUndefined operand)) :
    (Text.name? (Text.trim operand)).isSome

end LogicalLine

/-- The next `n` logical lines of the queue, and what is left of it behind them. -/
def OpenFile.group? (f : OpenFile) : Nat → List Pending → Option (List LogicalLine × List Pending)
  | 0, q => some ([], q)
  | n + 1, .line l :: q =>
    let (line, f, rest) := f.logicalLine l q
    (f.group? n rest).map fun g => (line :: g.1, g.2)
  | _ + 1, _ => none

namespace OpenFile

/-- A group of lines has a first line and a group behind it. -/
theorem exists_of_group?_succ {f : OpenFile} {n : Nat} {q rest : List Pending}
    {ls : List LogicalLine} (h : f.group? (n + 1) q = some (ls, rest)) :
    ∃ l q' ls', q = .line l :: q' ∧ ls = (f.logicalLine l q').1 :: ls' ∧
      (f.logicalLine l q').2.1.group? n (f.logicalLine l q').2.2 = some (ls', rest) := by
  match q with
  | [] => cases h
  | .close file :: q => cases h
  | .line l :: q =>
    obtain ⟨g, hg, heq⟩ := Option.map_eq_some_iff.1 h
    obtain ⟨rfl, rfl⟩ := Prod.mk.inj heq
    exact ⟨l, q, g.1, rfl, rfl, hg⟩

/-- The conditionals that are open do not matter to the logical lines. -/
theorem logicalLine_branches (f : OpenFile) (bs : Branches) (l : SourceLine) (q : List Pending) :
    { f with branches := bs }.logicalLine l q =
      ((f.logicalLine l q).1, { (f.logicalLine l q).2.1 with branches := bs },
        (f.logicalLine l q).2.2) := by
  have hafter (g : OpenFile) (l : SourceLine) :
      OpenFile.after { g with branches := bs } l = { g.after l with branches := bs } := rfl
  have hmask (g : OpenFile) (l : SourceLine) :
      OpenFile.mask { g with branches := bs } l = g.mask l := rfl
  have key (g : OpenFile) (last : MaskedLine) (q : List Pending) :
      { g with branches := bs }.continuation last q =
        ((g.continuation last q).1, { (g.continuation last q).2.1 with branches := bs },
          (g.continuation last q).2.2) := by
    induction q generalizing g last with
    | nil => rfl
    | cons p q ih =>
      cases p with
      | close file => rfl
      | line l =>
        by_cases hc : PhysicalLine.isContinued last.masked
        · rw [continuation, continuation, if_pos hc, if_pos hc, hafter, hmask]
          dsimp only
          rw [ih]
        · rw [continuation, continuation, if_neg hc, if_neg hc]
  rw [logicalLine, logicalLine, hafter, hmask]
  dsimp only
  rw [key]

/-- Which lines the group has does not depend on the open conditionals. -/
theorem group?_branches (f : OpenFile) (bs : Branches) (n : Nat) (q : List Pending) :
    { f with branches := bs }.group? n q = f.group? n q := by
  fun_induction OpenFile.group? f n q with
  | case1 f q => rfl
  | case2 f n l q line f' rest hline ih =>
    rw [group?, logicalLine_branches, hline]
    dsimp only
    rw [ih]
  | case3 f n q hq =>
    match q with
    | [] => rfl
    | .close file :: q => rfl
    | .line l :: q => exact absurd rfl (hq l q)

end OpenFile

/-! ### One line -/

namespace Directive

/-- A directive that needs a name has no problem exactly if one stands in its operand. -/
theorem problem?_eq_none_iff (directive : String) (operand : Text) :
    nameProblem?.problem? (requireName directive operand) = none ↔
      (Text.name? (Text.trim operand)).isSome := by
  unfold requireName
  cases Text.trim operand with
  | nil => simp [nameProblem?.problem?, Text.name?]
  | cons c cs =>
    dsimp only
    split <;> rename_i h <;> simp [nameProblem?.problem?, h]

/-- A directive has the problem exactly if it is one on a name and has none. -/
theorem nameProblem?_eq_none_iff (d : Directive) :
    d.nameProblem? = none ↔ ∀ operand, d = .ifDefined operand ∨ d = .ifUndefined operand →
      (Text.name? (Text.trim operand)).isSome := by
  cases d with
  | ifDefined operand => simpa [nameProblem?] using problem?_eq_none_iff "ifdef" operand
  | ifUndefined operand => simpa [nameProblem?] using problem?_eq_none_iff "ifndef" operand
  | _ => simp [nameProblem?]

end Directive

namespace LogicalLine

variable {l : LogicalLine} {d : Directive}

/-- A directive is quiet unless it lacks a name. -/
theorem isQuiet_iff_of_eq_some (hd : MaskedLine.directive? l.parts = some d) :
    l.IsQuiet ↔ d.nameProblem? = none := by
  rw [d.nameProblem?_eq_none_iff]
  constructor
  · intro h operand hoperand
    refine h.named ?_
    rw [hd]
    exact hoperand.imp (congrArg some) (congrArg some)
  · intro h
    refine ⟨fun _ => ?_, fun hoperand => ?_⟩
    · obtain ⟨_, -, hline⟩ := Option.bind_eq_some_iff.1 hd
      exact Option.isSome_iff_exists.2 ⟨d, hline⟩
    · rw [hd] at hoperand
      exact h _ (hoperand.imp Option.some.inj Option.some.inj)

/-- What is no directive is quiet unless it starts as one. -/
theorem isQuiet_iff_of_eq_none (hd : MaskedLine.directive? l.parts = none) :
    l.IsQuiet ↔ Directive.ofLine? l.first.masked = none := by
  constructor
  · intro h
    rw [← Option.not_isSome_iff_eq_none]
    intro hfirst
    obtain ⟨d₀, hd₀⟩ := Option.isSome_iff_exists.1 hfirst
    obtain ⟨d, hline⟩ := Option.isSome_iff_exists.1 (h.whole hfirst)
    rw [l.directive?_parts hd₀ hline] at hd
    cases hd
  · intro h
    refine ⟨fun hfirst => ?_, fun hoperand => ?_⟩
    · rw [h] at hfirst
      cases hfirst
    · rw [hd] at hoperand
      rcases hoperand with hoperand | hoperand <;> cases hoperand

instance (l : LogicalLine) : Decidable l.IsQuiet :=
  match hd : MaskedLine.directive? l.parts with
  | some _ => decidable_of_iff _ (isQuiet_iff_of_eq_some hd).symm
  | none => decidable_of_iff _ (isQuiet_iff_of_eq_none hd).symm

end LogicalLine

namespace Work

variable {w w' : Work} {l : LogicalLine} {bs : Branches} {d : Directive}

/-- What is heard of a line where it is skipped. -/
def skip (w : Work) (l : LogicalLine) : Except Stopped Work :=
  match Directive.ofLine? l.first.masked with
  | none => .ok w
  | some _ =>
    match Directive.ofLine? l.masked with
    | none => .error ⟨.notDirective, w.diagnostics⟩
    | some d => .ok (w.complainAll l d.nameProblem?.toList)

/-- A line that is a directive is skipped with the problem of its name, if it has one. -/
theorem skip_of_eq_some (hd : MaskedLine.directive? l.parts = some d) (w : Work) :
    w.skip l = .ok (w.complainAll l d.nameProblem?.toList) := by
  obtain ⟨d₀, hfirst, hline⟩ := Option.bind_eq_some_iff.1 hd
  have hfirst : Directive.ofLine? l.first.masked = some d₀ := hfirst
  have hline : Directive.ofLine? l.masked = some d := hline
  rw [skip, hfirst, hline]

/-- **Nothing is heard of a quiet line.** -/
theorem skip_of_isQuiet (h : l.IsQuiet) (w : Work) : w.skip l = .ok w := by
  cases hd : MaskedLine.directive? l.parts with
  | some d =>
    rw [skip_of_eq_some hd, (LogicalLine.isQuiet_iff_of_eq_some hd).1 h]
    rfl
  | none => rw [skip, (LogicalLine.isQuiet_iff_of_eq_none hd).1 h]

/-- **Of every other line something is heard**, and it is not taken back. -/
theorem size_of_skip (h : w.skip l = .ok w') :
    w.diagnostics.size ≤ w'.diagnostics.size ∧
      (w'.diagnostics.size = w.diagnostics.size → l.IsQuiet) := by
  cases hd : MaskedLine.directive? l.parts with
  | some d =>
    rw [skip_of_eq_some hd] at h
    obtain rfl := Except.ok.inj h
    rw [LogicalLine.isQuiet_iff_of_eq_some hd]
    cases d.nameProblem? with
    | none => exact ⟨Nat.le_refl _, fun _ => rfl⟩
    | some p =>
      have hsize : (w.complain l p).diagnostics.size = w.diagnostics.size + 1 :=
        w.diagnostics.size_push _
      show w.diagnostics.size ≤ (w.complain l p).diagnostics.size ∧
        ((w.complain l p).diagnostics.size = w.diagnostics.size → some p = none)
      constructor
      · omega
      · omega
  | none =>
    rw [LogicalLine.isQuiet_iff_of_eq_none hd]
    unfold skip at h
    split at h
    · obtain rfl := Except.ok.inj h
      exact ⟨Nat.le_refl _, fun _ => ‹_›⟩
    · rename_i hfirst
      split at h
      · cases h
      · rename_i hline
        rw [l.directive?_parts hfirst hline] at hd
        cases hd

/-- Quiet lines are skipped without a trace. -/
theorem foldlM_skip_of_isQuiet {ls : List LogicalLine} (h : ∀ l ∈ ls, l.IsQuiet) (w : Work) :
    ls.foldlM skip w = .ok w := by
  induction ls with
  | nil => rfl
  | cons l ls ih =>
    rw [List.foldlM_cons, skip_of_isQuiet (h l (List.mem_cons_self ..))]
    exact ih fun k hk => h k (List.mem_cons_of_mem _ hk)

/-- Skipping lines only adds diagnostics, and adds none only if all of them are quiet. -/
theorem size_of_foldlM_skip {ls : List LogicalLine} (h : ls.foldlM skip w = .ok w') :
    w.diagnostics.size ≤ w'.diagnostics.size ∧
      (w'.diagnostics.size = w.diagnostics.size → ∀ l ∈ ls, l.IsQuiet) := by
  induction ls generalizing w with
  | nil =>
    obtain rfl := Except.ok.inj h
    exact ⟨Nat.le_refl _, fun _ => List.forall_mem_nil _⟩
  | cons l ls ih =>
    rw [List.foldlM_cons] at h
    cases hl : w.skip l with
    | error e => rw [hl] at h; cases h
    | ok w₁ =>
      rw [hl] at h
      obtain ⟨hle, hquiet⟩ := size_of_skip hl
      obtain ⟨hle', hrest⟩ := ih h
      refine ⟨by omega, fun heq => List.forall_mem_cons.2 ⟨hquiet (by omega), hrest (by omega)⟩⟩

end Work

/-! ### The conditionals of the group -/

/-- The conditionals `bs` are those from before the group, `base`, and above them the ones
that the group opened.  None of these stands in an active place. -/
inductive Branches.Above (base : Branches) : List Bool → Branches → Prop
  | base : Above base [] base
  | cons {last : Bool} {opened : List Bool} {b : Branch} {bs : Branches}
      (enclosed_eq : b.enclosed = false) (isLast_eq : b.isLast = last)
      (h : Above base opened bs) : Above base (last :: opened) (b :: bs)

namespace Branches.Above

variable {base bs : Branches} {opened opened' : List Bool}

/-- Above a place that is not active none is. -/
theorem active_eq (h : Above base opened bs) (hbase : active base = false) :
    active bs = false := by
  cases h with
  | base => exact hbase
  | @cons _ _ b _ hb =>
    show b.active = false
    rw [Branch.active, hb]
    rfl

/-- A conditional that is opened in the group stands in a place that is not active. -/
theorem opening (h : Above base opened bs) (hbase : active base = false) (kind : BranchKind)
    (condition : Bool) (line : Option Int) :
    Above base (false :: opened) (Branches.opened bs kind condition line) :=
  .cons (h.active_eq hbase) rfl h

/-- A conditional of the group goes on to a further branch, and asks for no condition. -/
theorem furtherBranch (h : Above base opened bs) {operand : Text}
    (hd : (Directive.elseIf operand).openAfter opened = some opened') :
    asksCondition bs = false ∧ ∃ bs', nextBranch bs false = .ok bs' ∧ Above base opened' bs' := by
  cases h with
  | base => cases hd
  | @cons last outer b bs hb hlast h =>
    cases last with
    | true => cases hd
    | false =>
      obtain rfl := Option.some.inj hd
      have hask : asksCondition (b :: bs) = false := by
        simp [asksCondition, hb]
      refine ⟨hask, { b with holds := false } :: bs, ?_, .cons hb hlast h⟩
      simp [nextBranch, hlast, hask]

/-- A conditional of the group goes on to its last branch. -/
theorem finalBranch (h : Above base opened bs)
    (hd : Directive.otherwise.openAfter opened = some opened') :
    ∃ bs', lastBranch bs = .ok bs' ∧ Above base opened' bs' := by
  cases h with
  | base => cases hd
  | @cons last outer b bs hb hlast h =>
    cases last with
    | true => cases hd
    | false =>
      obtain rfl := Option.some.inj hd
      refine ⟨{ b with isLast := true, holds := !b.chosen, chosen := true } :: bs, ?_,
        .cons hb rfl h⟩
      simp [lastBranch, hlast]

/-- A conditional of the group ends. -/
theorem closed (h : Above base opened bs)
    (hd : Directive.endIf.openAfter opened = some opened') :
    ∃ bs', (close bs).map Prod.snd = .ok bs' ∧ Above base opened' bs' := by
  cases h with
  | base => cases hd
  | cons _ _ h =>
    obtain rfl := Option.some.inj hd
    exact ⟨_, rfl, h⟩

end Branches.Above

namespace Work

variable {w : Work} {l : LogicalLine} {base bs : Branches} {opened opened' : List Bool}

/-- A conditional on a name is opened in any case, and a missing name is reported. -/
theorem openNamed_of_above (hbase : Branches.active base = false)
    (h : Branches.Above base opened bs) (w : Work) (l : LogicalLine) (directive : String)
    (operand : Text) {op : Bool → Branches}
    (hop : ∀ defined, Branches.Above base (false :: opened) (op defined)) :
    (w.openNamed bs l directive operand op).1 = w.complainAll l
        (Directive.nameProblem?.problem? (Directive.requireName directive operand)).toList ∧
      Branches.Above base (false :: opened) (w.openNamed bs l directive operand op).2 := by
  unfold openNamed
  cases Directive.requireName directive operand with
  | error e => exact ⟨rfl, h.opening hbase ..⟩
  | ok name => exact ⟨rfl, hop _⟩

/-- **A directive of the group** acts on the conditionals of the group alone, and all that is
heard of it is that it lacks a name. -/
theorem direct_of_above (hbase : Branches.active base = false) (h : Branches.Above base opened bs)
    {d : Directive} (hd : d.openAfter opened = some opened') (w : Work) (l : LogicalLine) :
    ∃ bs', Branches.Above base opened' bs' ∧
      w.direct bs l d = .ok (w.complainAll l d.nameProblem?.toList, bs', none) := by
  have hbs := h.active_eq hbase
  cases hc : d.isConditional with
  | false =>
    have hsame : d.openAfter opened = some opened ∧ d.nameProblem? = none := by
      cases d <;> first | exact ⟨rfl, rfl⟩ | cases hc
    obtain rfl := Option.some.inj (hsame.1.symm.trans hd)
    refine ⟨bs, h, ?_⟩
    rw [direct_of_not_isConditional hc, hbs, hsame.2]
    rfl
  | true =>
    cases d with
    | ifHolds operand =>
      obtain rfl := Option.some.inj hd
      refine ⟨Branches.openIf bs false (some l.number), h.opening hbase _ _ _, ?_⟩
      rw [direct_ifHolds, hbs]
      rfl
    | ifDefined operand =>
      obtain rfl := Option.some.inj hd
      obtain ⟨hwork, habove⟩ := openNamed_of_above hbase h w l "ifdef" operand
        fun defined => h.opening hbase .ifDefined defined (some l.number)
      exact ⟨_, habove, hwork ▸ direct_ifDefined w bs l operand⟩
    | ifUndefined operand =>
      obtain rfl := Option.some.inj hd
      obtain ⟨hwork, habove⟩ := openNamed_of_above hbase h w l "ifndef" operand
        fun defined => h.opening hbase .ifUndefined (!defined) (some l.number)
      exact ⟨_, habove, hwork ▸ direct_ifUndefined w bs l operand⟩
    | elseIf operand =>
      obtain ⟨hask, bs', hnext, habove⟩ := h.furtherBranch hd
      refine ⟨bs', habove, ?_⟩
      rw [direct_elseIf, hask]
      show Except.ok ((w.settle bs l (Branches.nextBranch bs false)).1,
        (w.settle bs l (Branches.nextBranch bs false)).2, none) = _
      rw [hnext]
      rfl
    | otherwise =>
      obtain ⟨bs', hlast, habove⟩ := h.finalBranch hd
      refine ⟨bs', habove, ?_⟩
      show Except.ok ((w.settle bs l (Branches.lastBranch bs)).1,
        (w.settle bs l (Branches.lastBranch bs)).2, none) = _
      rw [hlast]
      rfl
    | endIf =>
      obtain ⟨bs', hclose, habove⟩ := h.closed hd
      refine ⟨bs', habove, ?_⟩
      show Except.ok ((w.settle bs l ((Branches.close bs).map Prod.snd)).1,
        (w.settle bs l ((Branches.close bs).map Prod.snd)).2, none) = _
      rw [hclose]
      rfl
    | _ => cases hc

/-- **A line of the group** acts on the conditionals of the group alone, and asks for no
file. -/
theorem process_of_above (hbase : Branches.active base = false)
    (h : Branches.Above base opened bs) {l : LogicalLine}
    (hl : l.openAfter opened = some opened') (w : Work) :
    ∃ bs', Branches.Above base opened' bs' ∧
      w.process bs l = (w.skip l).map fun w' => (w', bs', none) := by
  unfold LogicalLine.openAfter at hl
  cases hd : MaskedLine.directive? l.parts with
  | some d =>
    rw [hd] at hl
    obtain ⟨bs', habove, hdirect⟩ := direct_of_above hbase h hl w l
    refine ⟨bs', habove, ?_⟩
    rw [process_eq_direct hd, hdirect, skip_of_eq_some hd]
    rfl
  | none =>
    rw [hd] at hl
    obtain rfl := Option.some.inj hl
    refine ⟨bs, h, ?_⟩
    unfold process skip
    cases hfirst : Directive.ofLine? l.first.masked with
    | none =>
      rw [h.active_eq hbase]
      rfl
    | some d₀ =>
      cases hline : Directive.ofLine? l.masked with
      | none => rfl
      | some d =>
        rw [l.directive?_parts hfirst hline] at hd
        cases hd

end Work

/-! ### The whole group -/

namespace State

/-- **A run over a skipped group** hears of it what is heard of its lines, one by one, and
comes to what stands behind it. -/
theorem passes_of_group? (resolve : Resolver) {base : Branches}
    (hbase : Branches.active base = false)
    {opened : List Bool} {f : OpenFile} (h : Branches.Above base opened f.branches) {n : Nat}
    {q rest : List Pending} {ls : List LogicalLine} (hgroup : f.group? n q = some (ls, rest))
    (hnested : (ls.foldlM LogicalLine.openAfter opened).isSome) (fs : List OpenFile) (w : Work) :
    (passes resolve n ⟨q, f :: fs, w⟩).map (fun t => (t.queue, t.work)) =
      (ls.foldlM Work.skip w).map fun w' => (rest, w') := by
  -- the induction follows the group: each line leaves its own conditionals open, above `base`
  induction n generalizing opened f q ls w with
  | zero =>
    obtain ⟨rfl, rfl⟩ := Prod.mk.inj (Option.some.inj hgroup)
    rfl
  | succ n ih =>
    obtain ⟨l, q', ls', rfl, rfl, hrest⟩ := OpenFile.exists_of_group?_succ hgroup
    obtain ⟨opened', hopened⟩ := Option.isSome_iff_exists.1 hnested
    rw [List.foldlM_cons] at hopened
    obtain ⟨opened₁, hl, hls⟩ := Option.bind_eq_some_iff.1 hopened
    have hbranches := congrArg OpenFile.branches (f.logicalLine_eq l q')
    obtain ⟨bs', habove, hprocess⟩ := Work.process_of_above hbase h hl w
    rw [passes, if_neg (List.cons_ne_nil _ _), step, next_line, hbranches, hprocess,
      List.foldlM_cons]
    cases w.skip (f.logicalLine l q').1 with
    | error e => rfl
    | ok w' =>
      rw [← OpenFile.group?_branches _ bs'] at hrest
      exact ih habove hrest (Option.isSome_iff_exists.2 ⟨_, hls⟩) w'

/-- **When a skipped group passes in silence.**  In any state, let the innermost file stand in
a place that is not active, and let the conditionals of its next `n` logical lines be nested
in themselves.  Whatever the operands of the directives are, the run passes over these lines
without a diagnostic, and does not break off, exactly if each of them is quiet: it is a
directive as a whole if it starts as one, and has a name if it is an `#ifdef` or an
`#ifndef`. -/
theorem silent_iff_of_group? {resolve : Resolver} {s : State} {f : OpenFile} {fs : List OpenFile}
    (hfiles : s.files = f :: fs) (hinactive : Branches.active f.branches = false) {n : Nat}
    {ls : List LogicalLine} {rest : List Pending} (hgroup : f.group? n s.queue = some (ls, rest))
    (hnested : LogicalLine.AreNested ls) :
    (∃ t, s.passes resolve n = .ok t ∧ t.queue = rest ∧
        t.work.diagnostics = s.work.diagnostics) ↔
      ∀ l ∈ ls, l.IsQuiet := by
  obtain ⟨queue, files, w⟩ := s
  obtain rfl : files = _ := hfiles
  have hrun := passes_of_group? resolve hinactive .base hgroup hnested fs w
  constructor
  · rintro ⟨t, ht, -, hdiagnostics⟩
    rw [ht] at hrun
    cases hfold : ls.foldlM Work.skip w with
    | error e => rw [hfold] at hrun; cases hrun
    | ok w' =>
      rw [hfold] at hrun
      obtain ⟨-, rfl⟩ := Prod.mk.inj (Except.ok.inj hrun)
      exact (Work.size_of_foldlM_skip hfold).2 (congrArg Diagnostics.size hdiagnostics)
  · intro hquiet
    rw [Work.foldlM_skip_of_isQuiet hquiet] at hrun
    cases hpasses : passes resolve n ⟨queue, f :: fs, w⟩ with
    | error e => rw [hpasses] at hrun; cases hrun
    | ok t =>
      rw [hpasses] at hrun
      obtain ⟨hqueue, hwork⟩ := Prod.mk.inj (Except.ok.inj hrun)
      exact ⟨t, rfl, hqueue, congrArg Work.diagnostics hwork⟩

/-- Inside of a block that is not active. -/
def skippedBranch : Branch :=
  { kind := .ifDefined, holds := false, chosen := false, enclosed := true, line := some 1 }

/-- Conditions that make no sense, a missing file and an error: all of it passes in silence
where it is skipped. -/
theorem silent_of_senseless_conditions :
    ∃ s t : State, Reaches Resolver.pathMissing (start {} {} "m"
        "#ifdef A\n#if ( 1 +\n#elif\n#else x\n#include y\n#error z\n#endif\n#endif".toList) s ∧
      s.passes Resolver.pathMissing 6 = .ok t ∧
      t.queue = [.line ⟨"#endif".toList, "m", 8⟩, .close "m"] ∧
      t.work.diagnostics = s.work.diagnostics := by
  let f : OpenFile := { file := "m", branches := [skippedBranch] }
  let texts : List (Text × Nat) :=
    [("#if ( 1 +".toList, 2), ("#elif".toList, 3), ("#else x".toList, 4),
      ("#include y".toList, 5), ("#error z".toList, 6), ("#endif".toList, 7)]
  let rest : List Pending := [.line ⟨"#endif".toList, "m", 8⟩, .close "m"]
  let s : State :=
    ⟨texts.map (fun p => .line ⟨p.1, "m", p.2⟩) ++ rest, [f], { table := {} }⟩
  let ls : List LogicalLine :=
    texts.map fun p => { file := "m", number := p.2, first := ⟨p.1, p.1⟩ }
  have hs : Reaches Resolver.pathMissing (start {} {} "m"
      "#ifdef A\n#if ( 1 +\n#elif\n#else x\n#include y\n#error z\n#endif\n#endif".toList) s :=
    .single rfl
  have hgroup : f.group? 6 s.queue = some (ls, rest) := rfl
  have hquiet : ∀ l ∈ ls, l.IsQuiet := by decide
  obtain ⟨t, ht⟩ := (silent_iff_of_group? rfl rfl hgroup rfl).2 hquiet
  exact ⟨s, t, hs, ht⟩

/-- A conditional on a name that is missing is heard of where it is skipped. -/
theorem not_silent_of_missing_name :
    ∃ (s t : State) (f : OpenFile) (ls : List LogicalLine) (rest : List Pending),
      Reaches (Resolver.ofList [])
        (start {} {} "main.dts" "#ifdef A\n#ifdef\n#endif\n#endif\n".toList) s ∧
      s.files = [f] ∧ Branches.active f.branches = false ∧
      f.group? 2 s.queue = some (ls, rest) ∧ LogicalLine.AreNested ls ∧
      s.passes (Resolver.ofList []) 2 = .ok t ∧ t.work.diagnostics ≠ s.work.diagnostics := by
  let f : OpenFile := { file := "main.dts", branches := [skippedBranch] }
  let s : State :=
    ⟨[.line ⟨"#ifdef".toList, "main.dts", 2⟩, .line ⟨"#endif".toList, "main.dts", 3⟩,
        .line ⟨"#endif".toList, "main.dts", 4⟩, .close "main.dts"], [f], { table := {} }⟩
  exact ⟨s, _, f, _, _, .single rfl, rfl, rfl, rfl, rfl, rfl, by decide⟩

end State
end DevicetreePrep
