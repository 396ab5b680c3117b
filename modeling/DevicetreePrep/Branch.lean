/-
# Nested conditionals

An open conditional remembers whether its current branch is taken, whether any
branch so far was, and whether the conditional around it was active when it
opened.  The innermost conditional is first in the list.  A line is active if
the innermost conditional is, or if there is none.
-/

import DevicetreePrep.Problem

namespace DevicetreePrep

/-- What opened a conditional. -/
inductive BranchKind
  | ifCondition
  | ifDefined
  | ifUndefined
  deriving DecidableEq, Repr

/-- An open conditional. -/
structure Branch where
  kind : BranchKind
  /-- Whether the condition of the current branch holds. -/
  holds : Bool
  /-- Whether the current branch or one before it was chosen. -/
  chosen : Bool
  /-- Whether the conditional stands in an active place. -/
  enclosed : Bool
  /-- Whether the current branch is the last one. -/
  isLast : Bool := false
  /-- The line that opened it. -/
  line : Option Int := none
  deriving DecidableEq, Repr

/-- Whether the current branch is active. -/
def Branch.active (b : Branch) : Bool :=
  b.enclosed && b.holds

/-- Why a directive does not fit the conditionals that are open. -/
inductive BranchError
  /-- No conditional is open. -/
  | noElif
  | noElse
  | noEndif
  /-- A further condition behind the last branch. -/
  | elifAfterElse
  /-- A second last branch. -/
  | repeatedElse
  deriving DecidableEq, Repr

/-- The wording of the error. -/
def BranchError.message : BranchError → String
  | noElif => "#elif without #if"
  | noElse => "#else without #if"
  | noEndif => "#endif without #if"
  | elifAfterElse => "#elif after #else"
  | repeatedElse => "Duplicate #else"

/-- The error as it is reported. -/
def BranchError.problem (e : BranchError) : Problem :=
  { message := e.message, code := .badDirective }

/-- The open conditionals, the innermost one first. -/
abbrev Branches := List Branch

namespace Branches

/-- Whether the place inside of all open conditionals is active. -/
def active : Branches → Bool
  | [] => true
  | b :: _ => b.active

/-- Opens a conditional. -/
def opened (bs : Branches) (kind : BranchKind) (condition : Bool) (line : Option Int) : Branches :=
  let holds := active bs && condition
  { kind, holds, chosen := holds, enclosed := active bs, line } :: bs

/-- Opens a conditional that asks for a condition. -/
def openIf (bs : Branches) (condition : Bool) (line : Option Int := none) : Branches :=
  opened bs .ifCondition condition line

/-- Opens a conditional that asks for a name to be defined. -/
def openIfDefined (bs : Branches) (defined : Bool) (line : Option Int := none) : Branches :=
  opened bs .ifDefined defined line

/-- Opens a conditional that asks for a name to be undefined. -/
def openIfUndefined (bs : Branches) (defined : Bool) (line : Option Int := none) : Branches :=
  opened bs .ifUndefined (!defined) line

/-- Whether a further condition has to be known: no branch was chosen before, the
conditional stands in an active place, and the last branch is still to come. -/
def asksCondition : Branches → Bool
  | [] => false
  | b :: _ => !b.isLast && b.enclosed && !b.chosen

/-- Goes on to a branch with a further condition, which counts only if
`asksCondition` says so. -/
def nextBranch (bs : Branches) (condition : Bool) : Except BranchError Branches :=
  match bs with
  | [] => .error .noElif
  | b :: rest =>
    if b.isLast then .error .elifAfterElse
    else if asksCondition bs then .ok ({ b with holds := condition, chosen := condition } :: rest)
    else .ok ({ b with holds := false } :: rest)

/-- Goes on to the last branch. -/
def lastBranch (bs : Branches) : Except BranchError Branches :=
  match bs with
  | [] => .error .noElse
  | b :: rest =>
    if b.isLast then .error .repeatedElse
    else .ok ({ b with isLast := true, holds := !b.chosen, chosen := true } :: rest)

/-- Closes the innermost conditional. -/
def close (bs : Branches) : Except BranchError (Branch × Branches) :=
  match bs with
  | [] => .error .noEndif
  | b :: rest => .ok (b, rest)

/-- The conditionals that are still open, the outermost one first. -/
def unterminated (bs : Branches) : List Branch :=
  bs.reverse

end Branches
end DevicetreePrep
