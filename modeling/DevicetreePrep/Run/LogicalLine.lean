/-
# Logical lines

A logical line is a physical line with all lines that continue it.  Comments are
blanked out first, so a backslash inside of one continues nothing, and the
comment state goes on from line to line.
-/

import DevicetreePrep.Run.State

namespace DevicetreePrep

/-- A physical line and the same line without its comments. -/
structure MaskedLine where
  masked : Text
  raw : Text
  deriving DecidableEq, Repr

/-- A logical line: the first of its physical lines and those that continue it. -/
structure LogicalLine where
  file : String
  number : Nat
  first : MaskedLine
  more : List MaskedLine := []
  deriving DecidableEq, Repr

namespace LogicalLine

/-- All physical lines of a logical line. -/
def parts (l : LogicalLine) : List MaskedLine :=
  l.first :: l.more

/-- The logical line without its comments. -/
def masked (l : LogicalLine) : Text :=
  PhysicalLine.join (l.parts.map MaskedLine.masked)

/-- The logical line as it stands in the source, cut where the line without
comments is cut. -/
def raw (l : LogicalLine) : Text :=
  PhysicalLine.splice (l.parts.map fun p => (p.masked, p.raw))

end LogicalLine

/-- The file behind a physical line. -/
def OpenFile.after (f : OpenFile) (l : SourceLine) : OpenFile :=
  let leaves := Comment.leavesOpen f.inComment l.text
  { f with
    inComment := leaves
    commentLine := if leaves && !f.inComment then some l.number else f.commentLine }

/-- A physical line without its comments. -/
def OpenFile.mask (f : OpenFile) (l : SourceLine) : MaskedLine :=
  ⟨Comment.mask f.inComment l.text, l.text⟩

/-- The lines that continue a line: as long as the last one is continued, and
another line follows in the queue.  Also the file behind them and what is left
of the queue. -/
def OpenFile.continuation (f : OpenFile) (last : MaskedLine) :
    List Pending → List MaskedLine × OpenFile × List Pending
  | .line l :: queue =>
    if PhysicalLine.isContinued last.masked then
      let (more, f', rest) := (f.after l).continuation (f.mask l) queue
      (f.mask l :: more, f', rest)
    else ([], f, .line l :: queue)
  | queue => ([], f, queue)

/-- The logical line that starts with a physical line, the file behind it and
what is left of the queue. -/
def OpenFile.logicalLine (f : OpenFile) (l : SourceLine) (queue : List Pending) :
    LogicalLine × OpenFile × List Pending :=
  let first := f.mask l
  let (more, f, rest) := (f.after l).continuation first queue
  ({ file := l.file, number := l.number, first, more }, f, rest)

end DevicetreePrep
