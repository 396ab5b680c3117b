/-
# Every run comes to its end

The loop of a run is taken pass by pass (`State.passes`).  Whatever files the resolver
gives, also files that include themselves or each other, the loop is left after finitely
many passes (`State.exists_passes_run`): a file is opened only while not too many are,
so each step leaves less unread in the sense of `Unread`.

The loop is left with an empty queue, or at a line that stops the run.
`exists_passes_end` says which of the two it is: the queue is emptied exactly if the run
comes to no such line.

A limit on the depth of recursion, such as interpreters have, is not modelled: a condition
in any number of brackets is read and evaluated.
-/

import DevicetreePrep.Proofs.Run.Endings

namespace DevicetreePrep

namespace State

variable {resolve : Resolver} {s t : State}

/-- So many passes of the loop, each of which takes a step unless the queue is empty. -/
def passes (resolve : Resolver) : Nat → State → Except Stopped State
  | 0, s => .ok s
  | n + 1, s => if s.queue = [] then .ok s else (s.step resolve).bind (passes resolve n)

/-- The states behind the passes of the loop are those that the run comes to. -/
theorem Reaches.of_passes {n : Nat} (h : s.passes resolve n = .ok t) : Reaches resolve s t := by
  induction n generalizing s with
  | zero =>
    obtain rfl := Except.ok.inj h
    exact .refl
  | succ n ih =>
    rw [passes] at h
    split at h
    · obtain rfl := Except.ok.inj h
      exact .refl
    · cases hstep : s.step resolve with
      | error e => rw [hstep] at h; cases h
      | ok u =>
        rw [hstep] at h
        exact .head hstep (ih h)

/-- **The loop is left after finitely many passes**: then the queue is empty, or the
next step fails. -/
theorem exists_passes_run (resolve : Resolver) (s : State) :
    ∃ n t, s.passes resolve n = .ok t ∧
      (t.queue = [] ∨ ∃ stopped, t.step resolve = .error stopped) := by
  -- the recursion of `run` is that of the loop, and is known to come to its end
  fun_induction State.run resolve s with
  | case1 s hqueue => exact ⟨0, s, rfl, .inl hqueue⟩
  | case2 s _ stopped hstep => exact ⟨0, s, rfl, .inr ⟨stopped, hstep⟩⟩
  | case3 s hqueue t hstep ih =>
    obtain ⟨n, u, hpasses, hend⟩ := ih
    refine ⟨n + 1, u, ?_, hend⟩
    rw [passes, if_neg hqueue, hstep]
    exact hpasses

end State

/-- **Every run comes to its end after finitely many steps.**  The resolver may be any
that answers every inclusion.  After some number of passes of the loop the queue is
empty, or a line stands at its front that stops the run; and the queue is emptied exactly
if the run comes to no such line.  A limit on the depth of recursion is not modelled. -/
theorem exists_passes_end {resolve : Resolver} (hresolve : resolve.IsTotal) (table : Table)
    (diagnostics : Diagnostics) (file : String) (source : Text) :
    (∃ n s, (State.start table diagnostics file source).passes resolve n = .ok s ∧
        (s.queue = [] ∨ s.Breaks)) ∧
      ((∃ n s, (State.start table diagnostics file source).passes resolve n = .ok s ∧
          s.queue = []) ↔
        ∀ s, State.Reaches resolve (State.start table diagnostics file source) s → ¬s.Breaks) := by
  obtain ⟨n, s, hpasses, hend⟩ :=
    State.exists_passes_run resolve (State.start table diagnostics file source)
  rw [State.step_eq_error_iff_of_isTotal hresolve] at hend
  refine ⟨⟨n, s, hpasses, hend⟩, ?_, fun hnone => ⟨n, s, hpasses, ?_⟩⟩
  · rintro ⟨m, t, ht, hqueue⟩
    have hok : ∃ r, (State.start table diagnostics file source).run resolve = .ok r :=
      ⟨t.result, (State.Reaches.of_passes ht).run_eq.trans (State.run_of_queue_eq_nil hqueue)⟩
    rw [State.run_eq_ok_iff] at hok
    intro u hu hbreaks
    exact hok u hu ((State.step_eq_error_iff_of_isTotal hresolve u).2 hbreaks)
  · exact hend.resolve_right (hnone s (.of_passes hpasses))

/-- Every file that is asked for exists and includes two others: the run comes to its
end all the same. -/
theorem exists_passes_end_cyclic :
    ∃ n s, (State.start {} {} "a" "#include \"a\"\n#include \"b\"".toList).passes
        (fun i => .found ⟨i.target, "#include \"a\"\n#include \"b\"".toList⟩) n = .ok s ∧
      (s.queue = [] ∨ s.Breaks) :=
  (exists_passes_end (fun _ _ => Resolution.noConfusion) {} {} "a" _).1

/-- A property whose name is continued stops the run, and the queue is never emptied:
the line behind it is not read. -/
theorem not_exists_passes_continued_property :
    ¬∃ n s, (State.start {} {} "main.dts" "#size\\\n-cells = <1>;\nnext\n".toList).passes
      (Resolver.ofList []) n = .ok s ∧ s.queue = [] := by
  let start : State := .start {} {} "main.dts" "#size\\\n-cells = <1>;\nnext\n".toList
  have hqueue : start.queue ≠ [] := List.cons_ne_nil _ _
  have hstep : start.step (Resolver.ofList []) = .error ⟨.notDirective, {}⟩ := rfl
  rintro ⟨n, s, h, hs⟩
  cases n with
  | zero =>
    obtain rfl := Except.ok.inj h
    exact hqueue hs
  | succ n =>
    rw [State.passes, if_neg hqueue, hstep] at h
    cases h

end DevicetreePrep
