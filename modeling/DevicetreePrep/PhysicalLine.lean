/-
# Physical lines

A text is cut into lines at every carriage return, line feed, or pair of the
two; an end of line at the very end of the text starts no further line.  A
line whose last visible character is a backslash is continued: the backslash
and what follows it are cut off and the next line is appended.
-/

import DevicetreePrep.Text.Basic

namespace DevicetreePrep
namespace PhysicalLine

/-- The lines of a text, the first of which starts with `start`, spelled
backwards. -/
def splitFrom (start : Text) : Text → List Text
  | [] => if start.isEmpty then [] else [start.reverse]
  | '\r' :: '\n' :: cs => start.reverse :: splitFrom [] cs
  | c :: cs =>
    if c = '\r' || c = '\n' then start.reverse :: splitFrom [] cs
    else splitFrom (c :: start) cs

/-- The lines of a text, without their ends. -/
def split (source : Text) : List Text :=
  splitFrom [] source

/-- Whether a line is continued by the next one. -/
def isContinued (line : Text) : Bool :=
  (Text.trimRight line).getLast? = some '\\'

/-- The index of the last backslash of a line. -/
def lastBackslash? (line : Text) : Option Nat :=
  (line.reverse.findIdx? (· = '\\')).map (line.length - 1 - ·)

/-- The part of a continued line that stays: what stands before the last
backslash of `guide`, a text of the same width.  Without a backslash in
`guide`, only the last character goes. -/
def cutContinued (guide line : Text) : Text :=
  match lastBackslash? guide with
  | some i => line.take i
  | none => line.dropLast

/-- Appends the lines to each other, each but the last cut as its guide says. -/
def splice : List (Text × Text) → Text
  | [] => []
  | [(_, line)] => line
  | (guide, line) :: rest => cutContinued guide line ++ splice rest

/-- The logical line that a group of continued lines makes up. -/
def join (lines : List Text) : Text :=
  splice (lines.map fun line => (line, line))

end PhysicalLine
end DevicetreePrep
