/-
# Why a run comes to its end

A run is measured by the numbers of lines that are unread, file by file, the
innermost file first.  To read on lowers the first number.  To close a file
drops the first number.  To open one lowers the first number and puts any
number before it, but only if there are not too many numbers yet.  There is no
endless sequence of such steps, because the numbers of the outer files cannot
be raised again.
-/

import DevicetreePrep.Run.State

namespace DevicetreePrep

/-- The numbers of unread lines, the innermost file first.  The last number counts
what stands behind the end of the outermost file. -/
structure Unread where
  counts : List Nat

namespace Unread

/-- The numbers of unread lines of a queue. -/
def countsOf : List Pending → List Nat
  | [] => [0]
  | .close _ :: q => 0 :: countsOf q
  | .line _ :: q =>
    match countsOf q with
    | n :: ns => (n + 1) :: ns
    | [] => [1]

/-- The numbers of unread lines of a queue. -/
def ofQueue (q : List Pending) : Unread :=
  ⟨countsOf q⟩

/-- The steps of a run. -/
inductive Shrinks : List Nat → List Nat → Prop
  | advance {m n : Nat} {ns : List Nat} (h : m < n) : Shrinks (m :: ns) (n :: ns)
  | close {n : Nat} {ns : List Nat} : Shrinks ns (n :: ns)
  | enter {k m n : Nat} {ns : List Nat} (h : m < n) (room : ns.length < openLimit) :
      Shrinks (k :: m :: ns) (n :: ns)

/-- Whatever stands in front of numbers from which there is no endless sequence
of steps, there is none from the whole; `room` more files can be opened. -/
theorem acc_cons (room : Nat) :
    ∀ ns : List Nat, openLimit ≤ ns.length + room → Acc Shrinks ns →
      ∀ n, Acc Shrinks (n :: ns) := by
  induction room with
  | zero =>
    intro ns hr hns n
    induction n using Nat.strongRecOn with
    | ind n ih =>
      refine Acc.intro _ fun y hy => ?_
      cases hy with
      | advance h => exact ih _ h
      | close => exact hns
      | enter h room => omega
  | succ room ihRoom =>
    intro ns hr hns n
    induction n using Nat.strongRecOn with
    | ind n ih =>
      refine Acc.intro _ fun y hy => ?_
      cases hy with
      | advance h => exact ih _ h
      | close => exact hns
      | enter h room => exact ihRoom _ (by simp only [List.length_cons]; omega) (ih _ h) _

/-- There is no endless sequence of steps. -/
theorem acc (ns : List Nat) : Acc Shrinks ns := by
  induction ns with
  | nil => exact Acc.intro _ fun y hy => nomatch hy
  | cons n ns ih => exact acc_cons openLimit ns (by omega) ih n

instance : WellFoundedRelation Unread where
  rel m n := Shrinks m.counts n.counts
  wf := InvImage.wf Unread.counts ⟨acc⟩

/-- There is one number for each end of a file, and one more. -/
theorem length_countsOf (q : List Pending) :
    (countsOf q).length = q.countP Pending.isClose + 1 := by
  induction q with
  | nil => rfl
  | cons p q ih =>
    cases p with
    | close f => simp [countsOf, List.countP_cons, Pending.isClose, ih]
    | line l =>
      simp only [countsOf, List.countP_cons, Pending.isClose]
      cases h : countsOf q with
      | nil => simp [h] at ih
      | cons n ns => rw [h] at ih; simpa using ih

/-- A line in front of a queue is one line more in the innermost file. -/
theorem countsOf_line (l : SourceLine) (q : List Pending) :
    ∃ n ns, countsOf q = n :: ns ∧ countsOf (.line l :: q) = (n + 1) :: ns := by
  cases h : countsOf q with
  | nil => have := length_countsOf q; simp [h] at this
  | cons n ns => exact ⟨n, ns, rfl, by simp [countsOf, h]⟩

/-- The lines of a file put their number, and nothing else, before the rest. -/
theorem countsOf_entries (file : String) (source : Text) (q : List Pending) :
    ∃ k, countsOf (State.entries file source ++ q) = k :: countsOf q := by
  have key (ls : List Pending) (h : ∀ p ∈ ls, p.isClose = false) :
      ∃ k, countsOf (ls ++ (.close file :: q)) = k :: countsOf q := by
    induction ls with
    | nil => exact ⟨0, rfl⟩
    | cons p ls ih =>
      obtain ⟨k, hk⟩ := ih fun p hp => h p (List.mem_cons_of_mem _ hp)
      cases p with
      | close f => simpa [Pending.isClose] using h (.close f) (List.mem_cons_self ..)
      | line l => exact ⟨k + 1, by simp [countsOf, hk]⟩
  rw [State.entries, List.append_assoc, List.singleton_append]
  refine key _ fun p hp => ?_
  obtain ⟨i, hi, rfl⟩ := List.mem_mapIdx.1 hp
  rfl

end Unread
end DevicetreePrep
