/-
# The steps of a run

A step takes the next logical line, or the end of a file, from the queue.  A
line that is no directive is expanded and put out, if it is active.  A directive
changes the conditionals, the table, or asks for a file to be included.  What is
wrong is reported, and the run goes on; only a number that cannot be handled, a
failure of the system, and a directive that its continuation turns into a
property end it.
-/

import DevicetreePrep.Definition.Reading
import DevicetreePrep.Expression
import DevicetreePrep.Run.LogicalLine

namespace DevicetreePrep

/-- Why a run ends before its time. -/
inductive Abort
  | number (o : NumberOverrun)
  | system (e : SystemError)
  /-- A line that starts like a directive is none as a whole. -/
  | notDirective
  deriving DecidableEq, Repr

/-- The wording of the reason. -/
def Abort.message : Abort → String
  | number o => o.message
  | system e => e.message
  | notDirective => "a continued directive reads as a property"

/-- A run that ended before its time, with the diagnostics until then. -/
structure Stopped where
  reason : Abort
  diagnostics : Diagnostics
  deriving DecidableEq, Repr

/-- An inclusion that waits for its file, with the place of its directive. -/
structure Request where
  inclusion : Inclusion
  line : Nat
  column : Nat
  deriving DecidableEq, Repr

namespace Work

/-- What expansion needs to know at a line. -/
def context (w : Work) (l : LogicalLine) : Expansion.Context :=
  { table := w.table, file := l.file, line := l.number }

/-- Reports a problem of a logical line. -/
def complain (w : Work) (l : LogicalLine) (p : Problem) : Work :=
  w.report l.file l.number p

/-- Reports problems of a logical line. -/
def complainAll (w : Work) (l : LogicalLine) (ps : List Problem) : Work :=
  ps.foldl (fun w p => w.complain l p) w

/-- Expands a line and puts it out. -/
def emit (w : Work) (l : LogicalLine) : Work :=
  let w := (lexicalError? l.masked).toList.foldl (fun w e =>
    w.reportAt .lexical l.file l.number e.problem) w
  let r := expandLine (w.context l) w.counter l.raw (tokenize l.masked)
  let w := r.errors.foldl (fun w e =>
    w.reportAt .preprocessing l.file l.number e.problem) { w with counter := r.counter }
  { w with output := Line.build l.raw l.masked l.number l.file r.subs :: w.output }

/-- The truth of a condition.  One that has no value is false. -/
def condition (w : Work) (l : LogicalLine) (operand : Text) : Except Stopped (Bool × Work) :=
  if Text.isAllBlank operand then
    .ok (false, w.complain l DirectiveError.conditionMissing.problem)
  else
    let r := Expression.evaluate (w.context l) w.counter (tokenize operand)
    let w := { w with counter := r.counter }
    let problems := r.errors.map ExpansionError.problem
    match r.result with
    | .ok v => .ok (v.truth, w.complainAll l problems)
    | .error (.error e) => .ok (false, (w.complain l e.problem).complainAll l problems)
    | .error (.overrun o) => .error ⟨.number o, (w.complainAll l problems).diagnostics⟩

/-- Adds a definition to the table. -/
def define (w : Work) (l : LogicalLine) (operand : Text) : Work :=
  match Definition.read operand (some l.file) (some l.number) with
  | .error e => w.complain l e.problem
  | .ok d =>
    let previous := w.table.displaced? d
    let w := { w with table := w.table.insert d }
    match previous with
    | none => w
    | some p =>
      let place := match p.file, p.line with
        | some file, some line => some (file, line)
        | _, _ => none
      w.complain l (DirectiveError.redefined d.name place).problem

/-- Takes a name out of the table. -/
def undefine (w : Work) (l : LogicalLine) (operand : Text) : Work :=
  match Directive.requireName "undef" operand with
  | .error e => w.complain l e.problem
  | .ok name => { w with table := w.table.erase name }

/-- Carries out a pragma. -/
def pragma (w : Work) (l : LogicalLine) (operand : Text) : Work :=
  if Text.trim operand = "once".toList then
    { w with once := if w.once.contains l.file then w.once else l.file :: w.once }
  else w.complain l (DirectiveError.unknownPragma (Text.trim operand)).problem

/-- The column of the first visible character of a text. -/
def columnOf (t : Text) : Nat :=
  (t.takeWhile isBlank).length + 1

/-- The inclusion that an operand asks for. -/
def inclusion (w : Work) (l : LogicalLine) (operand : Text) : Work × Option Request :=
  let request (found : Text × Bool) : Request :=
    { inclusion := { target := String.ofList found.1, angled := found.2, includer := l.file }
      line := l.number
      column := columnOf l.first.raw }
  let operand := Text.trim operand
  match Inclusion.direct? operand with
  | some found => (w, some (request found))
  | none =>
    let r := expandTokens (w.context l) w.counter (tokenize operand)
    let w := { w with counter := r.counter }.complainAll l (r.errors.map ExpansionError.problem)
    match Inclusion.ofTokens? r.tokens with
    | some found => (w, some (request found))
    | none => (w.complain l DirectiveError.badInclude.problem, none)

/-- Carries out a directive other than a conditional one in an active place. -/
def perform (w : Work) (l : LogicalLine) (d : Directive) : Work × Option Request :=
  match d with
  | .define operand => (w.define l operand, none)
  | .undefine operand => (w.undefine l operand, none)
  | .inclusion operand => w.inclusion l operand
  | .pragma operand => (w.pragma l operand, none)
  | .error operand => (w.complain l (DirectiveError.userError (Text.trim operand)).problem, none)
  | .warning operand =>
    (w.complain l (DirectiveError.userWarning (Text.trim operand)).problem, none)
  | .nameless operand =>
    if Text.isAllBlank operand then (w, none)
    else (w.complain l DirectiveError.malformed.problem, none)
  | .unknown name => (w.complain l (DirectiveError.unknown name).problem, none)
  | _ => (w, none)

/-- Opens a conditional on a name.  Without a name it counts as false. -/
def openNamed (w : Work) (bs : Branches) (l : LogicalLine) (directive : String) (operand : Text)
    (opened : Bool → Branches) : Work × Branches :=
  match Directive.requireName directive operand with
  | .error e => (w.complain l e.problem, Branches.openIf bs false (some l.number))
  | .ok name => (w, opened (w.table.contains name))

/-- The conditionals behind an operation on them, which may not fit. -/
def settle (w : Work) (bs : Branches) (l : LogicalLine) (r : Except BranchError Branches) :
    Work × Branches :=
  match r with
  | .ok bs => (w, bs)
  | .error e => (w.complain l e.problem, bs)

/-- Carries out a directive.  A conditional one counts in every place, the
others in an active place only. -/
def direct (w : Work) (bs : Branches) (l : LogicalLine) (d : Directive) :
    Except Stopped (Work × Branches × Option Request) := do
  match d with
  | .ifHolds operand =>
    let (holds, w) ← if Branches.active bs then w.condition l operand else .ok (false, w)
    return (w, Branches.openIf bs holds (some l.number), none)
  | .ifDefined operand =>
    let (w, bs) := w.openNamed bs l "ifdef" operand (Branches.openIfDefined bs · (some l.number))
    return (w, bs, none)
  | .ifUndefined operand =>
    let (w, bs) := w.openNamed bs l "ifndef" operand
      (Branches.openIfUndefined bs · (some l.number))
    return (w, bs, none)
  | .elseIf operand =>
    let (holds, w) ← if Branches.asksCondition bs then w.condition l operand else .ok (false, w)
    let (w, bs) := w.settle bs l (Branches.nextBranch bs holds)
    return (w, bs, none)
  | .otherwise =>
    let (w, bs) := w.settle bs l (Branches.lastBranch bs)
    return (w, bs, none)
  | .endIf =>
    let (w, bs) := w.settle bs l ((Branches.close bs).map Prod.snd)
    return (w, bs, none)
  | d =>
    if Branches.active bs then
      let (w, request) := w.perform l d
      return (w, bs, request)
    else return (w, bs, none)

/-- Carries out a logical line. -/
def process (w : Work) (bs : Branches) (l : LogicalLine) :
    Except Stopped (Work × Branches × Option Request) :=
  match Directive.ofLine? l.first.masked with
  | none =>
    if Branches.active bs && !Text.isAllBlank l.masked then .ok (w.emit l, bs, none)
    else .ok (w, bs, none)
  | some _ =>
    match Directive.ofLine? l.masked with
    | none => .error ⟨.notDirective, w.diagnostics⟩
    | some d => w.direct bs l d

end Work

namespace State

/-- Takes the next thing from the queue.  The file that it may ask for is still to
be found. -/
def next (s : State) : Except Stopped (State × Option Request) :=
  match s.queue, s.files with
  | .line l :: queue, f :: files => do
    let (line, f, rest) := f.logicalLine l queue
    let (work, branches, request) ← s.work.process f.branches line
    return ({ queue := rest, files := { f with branches } :: files, work }, request)
  | .close file :: queue, f :: files =>
    .ok ({ queue, files, work := s.work.reportEnd file f }, none)
  | _ :: queue, [] => .ok ({ s with queue }, none)
  | [], _ => .ok (s, none)

/-- Takes in the answer to a request.  A file is opened unless it is not to be
included again, is open already, or too many files are. -/
def receive (s : State) (r : Request) (answer : Resolution) : Except Stopped State :=
  let refuse (e : InclusionError) : State :=
    { s with work := s.work.report r.inclusion.includer r.line e.problem }
  match answer with
  | .broken e => .error ⟨.system e, s.work.diagnostics⟩
  | .failed e => .ok (refuse e)
  | .found f =>
    if s.work.once.contains f.file then .ok s
    else if s.files.any (·.file = f.file) then .ok (refuse (.circular f.file))
    else if s.depth < openLimit then
      let statement : IncludeStatement :=
        { file := r.inclusion.includer, line := r.line, column := r.column
          target := r.inclusion.target, resolved := f.file }
      let work := { s.work with
        includes := f.file :: s.work.includes
        statements := statement :: s.work.statements }
      .ok ({ s with work }.openFile f.file f.text)
    else .ok (refuse .nestedTooDeeply)

/-- One step of a run. -/
def step (resolve : Resolver) (s : State) : Except Stopped State := do
  let (s, request) ← s.next
  match request with
  | none => return s
  | some r => s.receive r (resolve r.inclusion)

end State
end DevicetreePrep
