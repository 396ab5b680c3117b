/-
# Runs

A run takes steps until its queue is empty.  Each step leaves less unread in the
sense of `Unread`, so every run comes to its end, whatever files the resolver
gives it.
-/

import DevicetreePrep.Run.Step
import DevicetreePrep.Run.Unread

namespace DevicetreePrep

/-- What a run brings about. -/
structure Result where
  lines : List Line
  table : Table
  includes : List String
  statements : List IncludeStatement
  diagnostics : Diagnostics
  counter : Nat

/-- The text of the output. -/
def Result.text (r : Result) : Text :=
  Text.joinWith ['\n'] (r.lines.map Line.text)

/-- What a state has brought about. -/
def State.result (s : State) : Result where
  lines := s.work.output.reverse
  table := s.work.table
  includes := s.work.includes.reverse
  statements := s.work.statements.reverse
  diagnostics := s.work.diagnostics
  counter := s.work.counter

namespace State

/-- The lines that continue a line are taken from the front of the queue. -/
theorem countsOf_continuation (f : OpenFile) (last : MaskedLine) (q : List Pending) :
    ∃ m n ns, m ≤ n ∧ Unread.countsOf (f.continuation last q).2.2 = m :: ns ∧
      Unread.countsOf q = n :: ns := by
  fun_induction OpenFile.continuation f last q with
  | case1 f last l queue hc more f' rest hr ih =>
    obtain ⟨m, n, ns, hmn, hrest, hq⟩ := ih
    obtain ⟨n', ns', hq', hl⟩ := Unread.countsOf_line l queue
    rw [hq] at hq'
    obtain ⟨rfl, rfl⟩ := List.cons.inj hq'
    exact ⟨m, n + 1, ns, by omega, by rw [hr] at hrest; exact hrest, hl⟩
  | case2 f last l queue hc =>
    obtain ⟨n, ns, -, hl⟩ := Unread.countsOf_line l queue
    exact ⟨n + 1, n + 1, ns, Nat.le_refl _, hl, hl⟩
  | case3 f last queue _ =>
    have := Unread.length_countsOf queue
    cases h : Unread.countsOf queue with
    | nil => simp [h] at this
    | cons n ns => exact ⟨n, n, ns, Nat.le_refl _, rfl, rfl⟩

/-- To take the next thing from the queue is to advance in the innermost file or
to close it. -/
theorem countsOf_next {s t : State} {r : Option Request} (h : s.next = .ok (t, r))
    (hs : s.queue ≠ []) :
    (∃ m n ns, m < n ∧ Unread.countsOf t.queue = m :: ns ∧ Unread.countsOf s.queue = n :: ns) ∨
      (r = none ∧ ∃ n, Unread.countsOf s.queue = n :: Unread.countsOf t.queue) := by
  obtain ⟨queue, files, work⟩ := s
  unfold next at h
  split at h
  · rename_i l queue f files hq hf
    subst hq
    left
    simp only [bind, Except.bind] at h
    split at h
    · cases h
    · simp only [pure, Except.pure, Except.ok.injEq, Prod.mk.injEq] at h
      rw [← h.1]
      obtain ⟨m, n, ns, hmn, hrest, hqueue⟩ :=
        countsOf_continuation (f.after l) (f.mask l) queue
      obtain ⟨n', ns', hq', hl⟩ := Unread.countsOf_line l queue
      rw [hqueue] at hq'
      obtain ⟨rfl, rfl⟩ := List.cons.inj hq'
      exact ⟨m, n + 1, ns, by omega, hrest, hl⟩
  · rename_i file queue f files hq hf
    subst hq
    right
    simp only [Except.ok.injEq, Prod.mk.injEq] at h
    rw [← h.1]
    exact ⟨h.2.symm, 0, rfl⟩
  · rename_i p queue hq hf
    subst hq
    simp only [Except.ok.injEq, Prod.mk.injEq] at h
    rw [← h.1]
    cases p with
    | close file => exact .inr ⟨h.2.symm, 0, rfl⟩
    | line l =>
      obtain ⟨n, ns, hq, hl⟩ := Unread.countsOf_line l queue
      exact .inl ⟨n, n + 1, ns, Nat.lt_succ_self n, hq, hl⟩
  · rename_i hq
    exact absurd hq hs

/-- To take in an answer leaves the queue as it is, or puts the lines of a file
before it where not too many files are open. -/
theorem countsOf_receive {s t : State} {r : Request} {a : Resolution} (h : s.receive r a = .ok t) :
    t.queue = s.queue ∨
      (s.depth < openLimit ∧ ∃ k, Unread.countsOf t.queue = k :: Unread.countsOf s.queue) := by
  unfold receive at h
  simp only at h
  split at h
  · cases h
  · exact .inl (by rw [← Except.ok.inj h])
  · split at h
    · exact .inl (by rw [← Except.ok.inj h])
    · split at h
      · exact .inl (by rw [← Except.ok.inj h])
      · split at h
        · rename_i hd
          rw [← Except.ok.inj h]
          exact .inr ⟨hd, Unread.countsOf_entries _ _ _⟩
        · exact .inl (by rw [← Except.ok.inj h])

/-- **A step leaves less unread.** -/
theorem shrinks_step {resolve : Resolver} {s t : State} (h : s.step resolve = .ok t)
    (hs : s.queue ≠ []) :
    Unread.Shrinks (Unread.countsOf t.queue) (Unread.countsOf s.queue) := by
  unfold step at h
  simp only [bind, Except.bind] at h
  split at h
  · cases h
  · rename_i sr hn
    obtain ⟨s', r⟩ := sr
    have hnext := countsOf_next hn hs
    cases r with
    | none =>
      simp only [pure, Except.pure, Except.ok.injEq] at h
      subst h
      rcases hnext with ⟨m, n, ns, hmn, ht, hs⟩ | ⟨-, n, hn⟩
      · rw [ht, hs]
        exact .advance hmn
      · rw [hn]
        exact .close
    | some r =>
      rcases hnext with ⟨m, n, ns, hmn, ht, hs⟩ | ⟨hr, -⟩
      · rcases countsOf_receive h with hq | ⟨hd, k, hk⟩
        · rw [hq, ht, hs]
          exact .advance hmn
        · rw [hk, ht, hs]
          have hlen := Unread.length_countsOf s'.queue
          rw [ht, List.length_cons] at hlen
          have hd : s'.queue.countP Pending.isClose < openLimit := hd
          exact .enter hmn (by omega)
      · cases hr

/-- Takes steps until the queue is empty. -/
def run (resolve : Resolver) (s : State) : Except Stopped Result :=
  if _hs : s.queue = [] then .ok s.result
  else match _h : s.step resolve with
    | .error stopped => .error stopped
    | .ok t => run resolve t
termination_by Unread.ofQueue s.queue
decreasing_by exact shrinks_step ‹_› ‹_›

end State

/-- Works through a file: its text is `source`, it goes by the name `file`, and
`table` holds the definitions made before.  New diagnostics are added to those
given. -/
def preprocess (resolve : Resolver) (table : Table) (diagnostics : Diagnostics) (file : String)
    (source : Text) : Except Stopped Result :=
  (State.start table diagnostics file source).run resolve

end DevicetreePrep
