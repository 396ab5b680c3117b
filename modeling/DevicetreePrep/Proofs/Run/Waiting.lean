/-
# What waits at the end of the queue

A run works through its queue from the front.  Until it comes to what waits at the
end, it does not look at it, but for the number of files whose ends are there.  So if
a run comes to the point where just this is left, it comes to the same point with
anything else in its place (`State.Reaches.before`).

Two things have to be seen.  A step either leaves all of what waits, and then it is
the same step for anything that waits, or it takes a line of it to continue another
one (`State.step_before`).  In the second case there is less unread than what waits,
and as each step leaves less unread, the run cannot come back to it.
-/

import DevicetreePrep.Proofs.Run.Inclusion
import Mathlib.Order.WellFounded

namespace DevicetreePrep

/-- A line that is continued takes nothing of what waits behind the queue, whatever
that is, or it takes a line of it. -/
theorem OpenFile.continuation_append (f : OpenFile) (last : MaskedLine) (q : List Pending)
    (m : SourceLine) (rest : List Pending) :
    (∀ rest', f.continuation last (q ++ rest') =
        ((f.continuation last q).1, (f.continuation last q).2.1,
          (f.continuation last q).2.2 ++ rest')) ∨
      ∃ a b ns, a < b ∧
        Unread.countsOf (f.continuation last (q ++ .line m :: rest)).2.2 = a :: ns ∧
        Unread.countsOf (.line m :: rest) = b :: ns := by
  fun_induction OpenFile.continuation f last q with
  | case1 f last l queue hc more f' left hr ih =>
    rw [hr] at ih
    rcases ih with ih | ⟨a, b, ns, hab, ha, hb⟩
    · left
      intro rest'
      rw [List.cons_append, OpenFile.continuation, if_pos hc, ih rest']
    · right
      refine ⟨a, b, ns, hab, ?_, hb⟩
      rw [List.cons_append, OpenFile.continuation, if_pos hc]
      exact ha
  | case2 f last l queue hc =>
    left
    intro rest'
    rw [List.cons_append, OpenFile.continuation, if_neg hc]
  | case3 f last queue hqueue =>
    rcases queue with _ | ⟨l | file, queue⟩
    · by_cases hc : PhysicalLine.isContinued last.masked = true
      · right
        obtain ⟨a, n, ns, han, ha, hn⟩ := State.countsOf_continuation (f.after m) (f.mask m) rest
        obtain ⟨n', ns', hn', hline⟩ := Unread.countsOf_line m rest
        rw [hn] at hn'
        obtain ⟨rfl, rfl⟩ := List.cons.inj hn'
        refine ⟨a, n + 1, ns, by omega, ?_, hline⟩
        rw [List.nil_append, OpenFile.continuation, if_pos hc]
        exact ha
      · left
        intro rest'
        rw [List.nil_append]
        rcases rest' with _ | ⟨l | file, rest'⟩
        · rfl
        · rw [OpenFile.continuation, if_neg hc]
        · rfl
    · exact absurd rfl (hqueue l queue)
    · exact .inl fun rest' => rfl

namespace State

variable {resolve : Resolver} {s t : State}

/-- The state with something more waiting behind its queue. -/
def before (s : State) (rest : List Pending) : State :=
  { s with queue := s.queue ++ rest }

theorem openFile_before (s : State) (file : String) (source : Text) (rest : List Pending) :
    (s.openFile file source).before rest = (s.before rest).openFile file source :=
  congrArg (State.mk · ({ file } :: s.files) s.work) (List.append_assoc ..)

/-- The answer to a request is taken in alike whatever waits, if as many files are
open. -/
theorem receive_before (s : State) (r : Request) (a : Resolution) (n : Nat) :
    ∃ x : Except Stopped State, ∀ rest : List Pending, rest.countP Pending.isClose = n →
      (s.before rest).receive r a = x.map (before · rest) := by
  let refused (e : InclusionError) : State :=
    { s with work := s.work.report r.inclusion.includer r.line e.problem }
  cases a with
  | broken e => exact ⟨.error ⟨.system e, s.work.diagnostics⟩, fun _ _ => rfl⟩
  | failed e => exact ⟨.ok (refused e), fun _ _ => rfl⟩
  | found g =>
    by_cases honce : s.work.once.contains g.file = true
    · refine ⟨.ok s, fun rest _ => ?_⟩
      exact if_pos honce
    by_cases hopen : s.files.any (·.file = g.file) = true
    · refine ⟨.ok (refused (.circular g.file)), fun rest _ => ?_⟩
      exact (if_neg honce).trans (if_pos hopen)
    by_cases hlimit : s.depth + n < openLimit
    · let noted : State := { s with work := { s.work with
        includes := g.file :: s.work.includes
        statements := { file := r.inclusion.includer, line := r.line, column := r.column
                        target := r.inclusion.target, resolved := g.file } :: s.work.statements } }
      refine ⟨.ok (noted.openFile g.file g.text), fun rest hrest => ?_⟩
      have hdepth : (s.before rest).depth < openLimit := by
        rw [depth, before, List.countP_append, hrest]
        exact hlimit
      refine (if_neg honce).trans ((if_neg hopen).trans ((if_pos hdepth).trans ?_))
      exact congrArg Except.ok (noted.openFile_before g.file g.text rest).symm
    · refine ⟨.ok (refused .nestedTooDeeply), fun rest hrest => ?_⟩
      have hdepth : ¬(s.before rest).depth < openLimit := by
        rw [depth, before, List.countP_append, hrest]
        exact hlimit
      exact (if_neg honce).trans ((if_neg hopen).trans (if_neg hdepth))

/-- To take in an answer leaves less unread than a queue that is behind. -/
theorem shrinks_receive {r : Request} {a : Resolution} (h : s.receive r a = .ok t) {m n : Nat}
    {ns : List Nat} (hmn : m < n) (hs : Unread.countsOf s.queue = m :: ns) :
    Unread.Shrinks (Unread.countsOf t.queue) (n :: ns) := by
  rcases countsOf_receive h with hq | ⟨hlimit, k, hk⟩
  · rw [hq, hs]
    exact .advance hmn
  · have hlength := Unread.length_countsOf s.queue
    rw [hs, List.length_cons] at hlength
    rw [hk, hs]
    rw [depth] at hlimit
    exact .enter hmn (by omega)

/-- **A step is the same whatever waits**, or it takes a line of what waits, so that
less than this is unread. -/
theorem step_before (hs : s.queue ≠ []) (m : SourceLine) (rest : List Pending) :
    (∃ x : Except Stopped State, ∀ rest' : List Pending,
        rest'.countP Pending.isClose = rest.countP Pending.isClose →
          (s.before rest').step resolve = x.map (before · rest')) ∨
      ∀ t, (s.before (.line m :: rest)).step resolve = .ok t →
        Unread.Shrinks (Unread.countsOf t.queue) (Unread.countsOf (.line m :: rest)) := by
  obtain ⟨queue, files, w⟩ := s
  rcases queue with _ | ⟨p, q⟩
  · exact absurd rfl hs
  rcases files with _ | ⟨f, fs⟩
  · left
    cases p <;> exact ⟨.ok ⟨q, [], w⟩, fun _ _ => rfl⟩
  cases p with
  | close file => exact .inl ⟨.ok ⟨q, fs, w.reportEnd file f⟩, fun _ _ => rfl⟩
  | line l =>
    have hstep (rest' : List Pending) :
        (before ⟨.line l :: q, f :: fs, w⟩ rest').step resolve =
          (next ⟨.line l :: (q ++ rest'), f :: fs, w⟩).bind fun p =>
            p.2.elim (.ok p.1) fun r => p.1.receive r (resolve r.inclusion) := by
      refine congrArg (Except.bind _) (funext fun p => ?_)
      obtain ⟨t, _ | r⟩ := p <;> rfl
    simp only [hstep, next_line]
    rcases (f.after l).continuation_append (f.mask l) q m rest with hall | ⟨a, b, ns, hab, ha, hb⟩
    · left
      have hline (rest' : List Pending) : f.logicalLine l (q ++ rest') =
          ((f.logicalLine l q).1, (f.logicalLine l q).2.1, (f.logicalLine l q).2.2 ++ rest') := by
        rw [OpenFile.logicalLine, hall rest']
        rfl
      simp only [hline]
      cases w.process (f.logicalLine l q).2.1.branches (f.logicalLine l q).1 with
      | error e => exact ⟨.error e, fun _ _ => rfl⟩
      | ok p =>
        obtain ⟨w', bs, r⟩ := p
        let t : State :=
          ⟨(f.logicalLine l q).2.2, { (f.logicalLine l q).2.1 with branches := bs } :: fs, w'⟩
        cases r with
        | none => exact ⟨.ok t, fun _ _ => rfl⟩
        | some r => exact t.receive_before r (resolve r.inclusion) _
    · right
      intro t h
      rw [hb]
      cases hw : w.process (f.logicalLine l (q ++ .line m :: rest)).2.1.branches
          (f.logicalLine l (q ++ .line m :: rest)).1 with
      | error e => rw [hw] at h; cases h
      | ok p =>
        obtain ⟨w', bs, r⟩ := p
        rw [hw] at h
        cases r with
        | none =>
          obtain rfl := Except.ok.inj h
          have hleft := ha
          change Unread.countsOf (f.logicalLine l (q ++ .line m :: rest)).2.2 = _ at hleft
          rw [hleft]
          exact .advance hab
        | some r => exact shrinks_receive h hab ha

/-- A run never comes back to what is unread. -/
theorem not_reaches_of_shrinks
    (h : Unread.Shrinks (Unread.countsOf s.queue) (Unread.countsOf t.queue)) :
    ¬Reaches resolve s t := by
  intro hreach
  have hleft : Relation.ReflTransGen Unread.Shrinks (Unread.countsOf t.queue)
      (Unread.countsOf s.queue) := by
    clear h
    induction hreach with
    | refl => exact .refl
    | @tail u v _ hstep ih =>
      by_cases hu : u.queue = []
      · rw [step_of_queue_eq_nil hu] at hstep
        rw [← Except.ok.inj hstep]
        exact ih
      · exact .head (shrinks_step hstep hu) ih
  have hwf : WellFounded Unread.Shrinks := ⟨Unread.acc⟩
  exact hwf.transGen.irrefl.irrefl _ (Relation.TransGen.tail' hleft h)

/-- **A run that comes to what waits comes there whatever waits.** -/
theorem Reaches.before {m : SourceLine} {rest : List Pending}
    (h : Reaches resolve (s.before (.line m :: rest)) t) (ht : t.queue = .line m :: rest) :
    ∃ u : State, u.queue = [] ∧ t = u.before (.line m :: rest) ∧
      ∀ rest' : List Pending, rest'.countP Pending.isClose = rest.countP Pending.isClose →
        Reaches resolve (s.before rest') (u.before rest') := by
  generalize hs : s.before (.line m :: rest) = s₀ at h
  induction h using Relation.ReflTransGen.head_induction_on generalizing s with
  | refl =>
    subst hs
    have hqueue : s.queue ++ .line m :: rest = [] ++ .line m :: rest := ht
    exact ⟨s, List.append_cancel_right hqueue, rfl, fun _ _ => .refl⟩
  | @head a b hstep hrest ih =>
    subst hs
    have hback (hshrinks : Unread.Shrinks (Unread.countsOf b.queue)
        (Unread.countsOf (.line m :: rest))) : False := by
      rw [← ht] at hshrinks
      exact not_reaches_of_shrinks hshrinks hrest
    by_cases hqueue : s.queue = []
    · -- the run is there, and would have to come there again
      have hshrinks := shrinks_step hstep (by rw [before, hqueue]; exact List.cons_ne_nil _ _)
      rw [before, hqueue] at hshrinks
      exact absurd hshrinks hback
    · rcases step_before hqueue m rest with ⟨x, hx⟩ | hshrinks
      · have hb := (hx (.line m :: rest) rfl).symm.trans hstep
        cases x with
        | error e => cases hb
        | ok u =>
          obtain rfl := Except.ok.inj hb
          obtain ⟨v, hv, htv, hreach⟩ := ih rfl
          exact ⟨v, hv, htv, fun rest' hrest' => .head (hx rest' hrest') (hreach rest' hrest')⟩
      · exact absurd (hshrinks b hstep) hback

end State
end DevicetreePrep
