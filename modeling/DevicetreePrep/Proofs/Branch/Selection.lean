/-
# The open conditionals select as nested blocks do

A source with conditionals is a tree.  A block is a row of lines and chains; a
chain has a first condition with its block, further conditions with theirs, and
perhaps a last block without a condition.  What the tree selects is said without
any record of open conditionals.  Every line has its guards, one for each chain
around it: the guard holds if the block of the line is the first one whose
condition is true, or the last one where no condition is true.  A line is
selected if the place around the tree is active and all guards of the line hold;
the condition of a further block is asked for if the place around its chain is
selected and no condition before it is true (`Mark.note`).

`feedAll_steps` says that the open conditionals come to the same.  Whatever is
open at the start, the directives of a tree are taken without an error, they leave
open what was open before, and they select the lines and ask for the conditions
that the tree does.  The way there is the recursion `Block.notes`, which carries
down only whether the place is selected; what carries it through a chain is that
the record of the chain knows whether it stands in an active place, and remembers
whether a condition was true so far (`Branch.Follows`).
-/

import DevicetreePrep.Branch

namespace DevicetreePrep

/-- The first directive of a chain: what it asks for, and the answer.  For a name
the answer is whether it is defined. -/
structure Opening where
  kind : BranchKind
  answer : Bool
  line : Option Int := none
  deriving DecidableEq, Repr

/-- Whether the condition of the first block is true. -/
def Opening.holds (o : Opening) : Bool :=
  match o.kind with
  | .ifCondition | .ifDefined => o.answer
  | .ifUndefined => !o.answer

/-- What the open conditionals are told, line by line. -/
inductive BranchStep
  /-- A chain starts. -/
  | opening (o : Opening)
  /-- A further condition, with its truth. -/
  | further (condition : Bool)
  /-- The last block starts. -/
  | otherwise
  /-- A chain ends. -/
  | endIf
  /-- A line that is no conditional directive. -/
  | leaf
  deriving DecidableEq, Repr

/-- What can be seen of the open conditionals. -/
inductive BranchNote
  /-- Whether a line is active. -/
  | reached (active : Bool)
  /-- Whether a further condition is asked for. -/
  | asked (evaluated : Bool)
  deriving DecidableEq, Repr

namespace Branches

/-- The open conditionals behind a directive, and what was seen of them there.  A
further condition is false unless it is asked for. -/
def feed (bs : Branches) : BranchStep → Except BranchError (Branches × List BranchNote)
  | .opening ⟨.ifCondition, answer, line⟩ => .ok (openIf bs answer line, [])
  | .opening ⟨.ifDefined, answer, line⟩ => .ok (openIfDefined bs answer line, [])
  | .opening ⟨.ifUndefined, answer, line⟩ => .ok (openIfUndefined bs answer line, [])
  | .further condition =>
    (nextBranch bs (asksCondition bs && condition)).map fun bs' =>
      (bs', [.asked (asksCondition bs)])
  | .otherwise => (lastBranch bs).map fun bs' => (bs', [])
  | .endIf => (close bs).map fun r => (r.2, [])
  | .leaf => .ok (bs, [.reached (active bs)])

/-- The open conditionals behind a row of directives, and all that was seen. -/
def feedAll (bs : Branches) : List BranchStep → Except BranchError (Branches × List BranchNote)
  | [] => .ok (bs, [])
  | s :: ss => (feed bs s).bind fun r => (feedAll r.1 ss).map (Prod.map id (r.2 ++ ·))

end Branches

mutual

/-- A row of lines and chains. -/
inductive Block
  | done
  | leaf (rest : Block)
  | chain (start : Opening) (body : Block) (arms : Arms) (rest : Block)

/-- The blocks of a chain behind its first one. -/
inductive Arms
  | endIf
  | otherwise (body : Block)
  | further (condition : Bool) (body : Block) (arms : Arms)

end

mutual

/-- The directives and lines of a block in their order. -/
def Block.steps : Block → List BranchStep
  | .done => []
  | .leaf rest => .leaf :: rest.steps
  | .chain start body arms rest => .opening start :: (body.steps ++ (arms.steps ++ rest.steps))

/-- The directives and lines of the further blocks, with the end of the chain. -/
def Arms.steps : Arms → List BranchStep
  | .endIf => [.endIf]
  | .otherwise body => .otherwise :: (body.steps ++ [.endIf])
  | .further condition body arms => .further condition :: (body.steps ++ arms.steps)

end

/-- Where a line stands in a chain around it: the conditions before its block, and
the condition of the block, which counts as true for the last one. -/
structure Guard where
  earlier : List Bool
  own : Bool := true
  deriving DecidableEq, Repr

/-- The block is the first one whose condition is true, or the last one where none
is. -/
def Guard.holds (g : Guard) : Bool :=
  g.earlier.all (!·) && g.own

/-- A line of a tree, or a further condition, with the guards around it, the
outermost one first. -/
inductive Mark
  | leaf (guards : List Guard)
  /-- A further condition with those before it in its chain. -/
  | further (guards : List Guard) (earlier : List Bool)
  deriving DecidableEq, Repr

/-- What there is to see at a line or at a further condition, if the place around
the tree is active or not. -/
def Mark.note (around : Bool) : Mark → BranchNote
  | leaf guards => .reached (around && guards.all Guard.holds)
  | further guards earlier => .asked (around && guards.all Guard.holds && earlier.all (!·))

mutual

/-- The lines and further conditions of a block, which stands inside of the given
guards. -/
def Block.marks (guards : List Guard) : Block → List Mark
  | .done => []
  | .leaf rest => .leaf guards :: rest.marks guards
  | .chain start body arms rest =>
    body.marks (guards ++ [⟨[], start.holds⟩]) ++
      (arms.marks guards [start.holds] ++ rest.marks guards)

/-- The lines and further conditions of the further blocks of a chain, behind the
conditions `earlier`. -/
def Arms.marks (guards : List Guard) (earlier : List Bool) : Arms → List Mark
  | .endIf => []
  | .otherwise body => body.marks (guards ++ [⟨earlier, true⟩])
  | .further condition body arms =>
    .further guards earlier ::
      (body.marks (guards ++ [⟨earlier, condition⟩]) ++
        arms.marks guards (earlier ++ [condition]))

end

mutual

/-- What a block selects where the place around it is active or not. -/
def Block.notes (around : Bool) : Block → List BranchNote
  | .done => []
  | .leaf rest => .reached around :: rest.notes around
  | .chain start body arms rest =>
    body.notes (around && start.holds) ++ (arms.notes around [start.holds] ++ rest.notes around)

/-- What the further blocks of a chain select behind the conditions `earlier`. -/
def Arms.notes (around : Bool) (earlier : List Bool) : Arms → List BranchNote
  | .endIf => []
  | .otherwise body => body.notes (around && earlier.all (!·))
  | .further condition body arms =>
    .asked (around && earlier.all (!·)) ::
      (body.notes (around && earlier.all (!·) && condition) ++
        arms.notes around (earlier ++ [condition]))

end

mutual

/-- To carry down whether the place is selected comes to the same as to look at
all guards of a line. -/
theorem map_note_marks (around : Bool) (guards : List Guard) (block : Block) :
    (block.marks guards).map (Mark.note around) =
      block.notes (around && guards.all Guard.holds) := by
  match block with
  | .done => rw [Block.marks, Block.notes, List.map_nil]
  | .leaf rest =>
    rw [Block.marks, Block.notes, List.map_cons, map_note_marks around guards rest, Mark.note]
  | .chain start body arms rest =>
    have hguard : Guard.holds ⟨[], start.holds⟩ = start.holds := rfl
    rw [Block.marks, Block.notes, List.map_append, List.map_append, map_note_marks,
      map_note_marks_arms, map_note_marks around guards rest, List.all_append, List.all_cons,
      List.all_nil, Bool.and_true, hguard, Bool.and_assoc]

/-- What is seen at the marks of the further blocks is what these select. -/
theorem map_note_marks_arms (around : Bool) (guards : List Guard) (earlier : List Bool)
    (arms : Arms) :
    (arms.marks guards earlier).map (Mark.note around) =
      arms.notes (around && guards.all Guard.holds) earlier := by
  match arms with
  | .endIf => rw [Arms.marks, Arms.notes, List.map_nil]
  | .otherwise body =>
    have hguard : Guard.holds ⟨earlier, true⟩ = earlier.all (!·) := Bool.and_true _
    rw [Arms.marks, Arms.notes, map_note_marks, List.all_append, List.all_cons, List.all_nil,
      Bool.and_true, hguard, Bool.and_assoc]
  | .further condition body arms =>
    have hguard : Guard.holds ⟨earlier, condition⟩ = (earlier.all (!·) && condition) := rfl
    rw [Arms.marks, Arms.notes, List.map_cons, List.map_append, map_note_marks,
      map_note_marks_arms around guards, Mark.note, List.all_append, List.all_cons, List.all_nil,
      Bool.and_true, hguard]
    simp only [Bool.and_assoc]

end

/-- The record of a chain in a place that is active or not, behind the conditions
`earlier` and before its last block. -/
structure Branch.Follows (b : Branch) (around : Bool) (earlier : List Bool) : Prop where
  enclosed : b.enclosed = around
  chosen : b.chosen = (around && !earlier.all (!·))
  isLast : b.isLast = false

namespace Branches

variable {bs bs₁ bs₂ : Branches} {seen₁ seen₂ : List BranchNote}

/-- A directive and the directives behind it, none of which fails. -/
theorem feedAll_cons_of_ok {s : BranchStep} {ss : List BranchStep}
    (h₁ : feed bs s = .ok (bs₁, seen₁)) (h₂ : feedAll bs₁ ss = .ok (bs₂, seen₂)) :
    feedAll bs (s :: ss) = .ok (bs₂, seen₁ ++ seen₂) := by
  rw [feedAll, h₁, Except.bind, h₂]
  rfl

/-- Two rows of directives that are taken one behind the other are taken as one
row. -/
theorem feedAll_append_of_ok {ss ts : List BranchStep} (h₁ : feedAll bs ss = .ok (bs₁, seen₁))
    (h₂ : feedAll bs₁ ts = .ok (bs₂, seen₂)) :
    feedAll bs (ss ++ ts) = .ok (bs₂, seen₁ ++ seen₂) := by
  induction ss generalizing bs seen₁ with
  | nil =>
    obtain ⟨rfl, rfl⟩ := Prod.mk.inj (Except.ok.inj h₁)
    exact h₂
  | cons s ss ih =>
    rw [feedAll] at h₁
    cases hs : feed bs s with
    | error e => rw [hs] at h₁; cases h₁
    | ok r =>
      obtain ⟨bs', seen⟩ := r
      rw [hs, Except.bind] at h₁
      cases hss : feedAll bs' ss with
      | error e => rw [hss] at h₁; cases h₁
      | ok r =>
        rw [hss] at h₁
        obtain ⟨rfl, rfl⟩ := Prod.mk.inj (Except.ok.inj h₁)
        have htail := feedAll_cons_of_ok hs (ih hss)
        rw [← List.append_assoc] at htail
        exact htail

/-- A chain is opened with a record of its first condition. -/
theorem feed_opening (bs : Branches) (o : Opening) :
    ∃ b : Branch, feed bs (.opening o) = .ok (b :: bs, []) ∧ b.active = (active bs && o.holds) ∧
      b.Follows (active bs) [o.holds] := by
  obtain ⟨kind, answer, line⟩ := o
  cases kind <;>
    refine ⟨_, rfl, ?_, rfl, ?_, rfl⟩ <;>
    cases h : active bs <;> cases answer <;> simp [Branch.active, Opening.holds]

/-- A further condition is asked for where no condition before it was true, and it
goes on record. -/
theorem feed_further {b : Branch} {bs : Branches} {earlier : List Bool}
    (h : b.Follows (active bs) earlier) (condition : Bool) :
    ∃ b' : Branch,
      feed (b :: bs) (.further condition) =
        .ok (b' :: bs, [.asked (active bs && earlier.all (!·))]) ∧
      b'.active = (active bs && earlier.all (!·) && condition) ∧
      b'.Follows (active bs) (earlier ++ [condition]) := by
  have hasks : asksCondition (b :: bs) = (active bs && earlier.all (!·)) := by
    rw [asksCondition, h.enclosed, h.chosen, h.isLast]
    cases active bs <;> simp
  obtain ⟨kind, holds, chosen, enclosed, isLast, line⟩ := b
  obtain ⟨rfl, rfl, rfl⟩ := h
  cases hsel : active bs && earlier.all (!·) with
  | false =>
    rw [hsel] at hasks
    refine ⟨_, by simp only [feed, nextBranch, hasks]; rfl, ?_, rfl, ?_, rfl⟩
    · simp [Branch.active]
    · cases ha : active bs with
      | false => rfl
      | true =>
        rw [ha, Bool.true_and] at hsel
        simp [List.all_append, hsel]
  | true =>
    rw [hsel] at hasks
    obtain ⟨ha, hall⟩ := Bool.and_eq_true_iff.1 hsel
    refine ⟨_, by simp only [feed, nextBranch, hasks]; rfl, ?_, rfl, ?_, rfl⟩
    · simp [Branch.active, ha]
    · simp [List.all_append, hall, ha]

/-- The last block is active where no condition was true. -/
theorem feed_otherwise {b : Branch} {bs : Branches} {earlier : List Bool}
    (h : b.Follows (active bs) earlier) :
    ∃ b' : Branch, feed (b :: bs) .otherwise = .ok (b' :: bs, []) ∧
      b'.active = (active bs && earlier.all (!·)) := by
  refine ⟨_, by simp only [feed, lastBranch, h.isLast]; rfl, ?_⟩
  simp only [Branch.active, h.enclosed, h.chosen]
  cases active bs <;> simp

end Branches

open Branches

mutual

/-- The directives of a block are taken without an error, leave open what was open
before, and select what the block does. -/
theorem feedAll_block (bs : Branches) (block : Block) :
    feedAll bs block.steps = .ok (bs, block.notes (active bs)) := by
  match block with
  | .done => simp only [Block.steps, Block.notes, feedAll]
  | .leaf rest =>
    rw [Block.steps, Block.notes]
    exact feedAll_cons_of_ok (s := .leaf) rfl (feedAll_block bs rest)
  | .chain start body arms rest =>
    obtain ⟨b, hopen, hactive, hb⟩ := feed_opening bs start
    have hbody := feedAll_block (b :: bs) body
    rw [active, hactive] at hbody
    have htail := feedAll_append_of_ok (feedAll_arms hb arms) (feedAll_block bs rest)
    have hchain := feedAll_cons_of_ok hopen (feedAll_append_of_ok hbody htail)
    rw [Block.steps, Block.notes]
    exact hchain

/-- The further blocks of a chain are taken to its end, and they select what they
say. -/
theorem feedAll_arms {b : Branch} {bs : Branches} {earlier : List Bool}
    (h : b.Follows (active bs) earlier) (arms : Arms) :
    feedAll (b :: bs) arms.steps = .ok (bs, arms.notes (active bs) earlier) := by
  match arms with
  | .endIf => simp only [Arms.steps, Arms.notes, feedAll, feed]; rfl
  | .otherwise body =>
    obtain ⟨b', hlast, hactive⟩ := feed_otherwise h
    have hbody := feedAll_block (b' :: bs) body
    have hend : feedAll (b' :: bs) [.endIf] = .ok (bs, []) := rfl
    rw [active, hactive] at hbody
    have harms := feedAll_cons_of_ok hlast (feedAll_append_of_ok hbody hend)
    rw [List.append_nil] at harms
    rw [Arms.steps, Arms.notes]
    exact harms
  | .further condition body arms =>
    obtain ⟨b', hnext, hactive, hb'⟩ := feed_further h condition
    have hbody := feedAll_block (b' :: bs) body
    rw [active, hactive] at hbody
    have harms := feedAll_cons_of_ok hnext (feedAll_append_of_ok hbody (feedAll_arms hb' arms))
    rw [Arms.steps, Arms.notes]
    exact harms

end

/-- **The open conditionals select what the tree selects.**  Whatever conditionals
are open at the start, the directives of a tree are taken without an error and
leave them open as they were.  A line is active exactly if the place at the start
is and the guards of the line hold; a further condition is asked for exactly if
the place around its chain is active and the conditions before it are false. -/
theorem feedAll_steps (bs : Branches) (block : Block) :
    feedAll bs block.steps = .ok (bs, (block.marks []).map (Mark.note (active bs))) := by
  have hmarks := map_note_marks (active bs) [] block
  rw [List.all_nil, Bool.and_true] at hmarks
  rw [hmarks, feedAll_block]

/-- In a skipped block the last block of a chain is skipped as well, and a further
condition is not asked for. -/
example :
    let inner := Block.chain ⟨.ifDefined, true, none⟩ (.leaf .done)
      (.further true (.leaf .done) (.otherwise (.leaf .done))) .done
    let tree := Block.chain ⟨.ifUndefined, true, none⟩ inner (.otherwise (.leaf .done)) .done
    feedAll [] tree.steps =
      .ok ([], [.reached false, .asked false, .reached false, .reached false, .reached true]) := by
  intro inner tree
  rfl

end DevicetreePrep
