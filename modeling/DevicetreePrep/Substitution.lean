/-
# Substitutions in a line

A substitution replaces a stretch of a line by the text that a definition
expanded to.  An expanded line keeps its substitutions, in the order of their
starts, so that an offset in the expanded text can be taken back to an offset
in the raw line: outside of substitutions it moves with the text, and inside of
one it goes to the start or to the end of the stretch that was replaced.
-/

import DevicetreePrep.Definition

namespace DevicetreePrep

/-- A stretch of a line and the text that took its place. -/
structure Substitution where
  /-- The definition at the start of the stretch. -/
  definition : Definition
  /-- What stood there. -/
  raw : Text
  /-- What stands there now. -/
  insert : Text
  /-- The offset of the stretch in the raw line. -/
  start : Nat
  deriving DecidableEq, Repr

namespace Substitution

/-- The offset behind the stretch in the raw line. -/
def stop (s : Substitution) : Nat :=
  s.start + s.raw.length

/-- The line with one stretch replaced. -/
def apply (line : Text) (s : Substitution) : Text :=
  line.take s.start ++ s.insert ++ line.drop s.stop

/-- The line with all stretches replaced, from the last to the first, so that
the offsets of those still to come stay valid.  Of two that start together the
one given first is applied first. -/
def applyAll (line : Text) (subs : List Substitution) : Text :=
  (subs.mergeSort fun s t => t.start ≤ s.start).foldl apply line

end Substitution

/-- A line of output with the substitutions that produced it. -/
structure Line where
  /-- The line as it stands in the source. -/
  raw : Text
  /-- The line after substitution. -/
  text : Text
  /-- The number of the line in its file. -/
  number : Int
  file : String
  /-- The substitutions in the order of their starts. -/
  subs : List Substitution := []
  deriving DecidableEq, Repr

namespace Line

/-- Builds the line of output.  The substitutions are applied to `base`, the
raw line without its comments, and blanks at the end are dropped. -/
def build (raw base : Text) (number : Int) (file : String) (subs : List Substitution) : Line :=
  let subs := subs.mergeSort fun s t => s.start ≤ t.start
  { raw, text := Text.trimRight (Substitution.applyAll base subs), number, file, subs }

/-- Which end of a replaced stretch stands for the offsets inside of it. -/
inductive Side
  | start
  | stop
  deriving DecidableEq, Repr

/-- Takes an offset behind the substitutions seen so far, which made the text
longer by `shift`, back to the raw line of width `width`. -/
def rawOffsetFrom (side : Side) (offset : Int) (width : Nat) (shift : Int) :
    List Substitution → Int
  | [] => min (offset - shift) width
  | s :: subs =>
    if offset ≤ s.start + shift then min (offset - shift) width
    else if offset < s.start + shift + s.insert.length then
      match side with
      | .start => s.start
      | .stop => s.stop
    else rawOffsetFrom side offset width (shift + (s.insert.length - s.raw.length)) subs

/-- The offset in the raw line for an offset in the expanded text. -/
def rawOffset (l : Line) (side : Side) (offset : Int) : Int :=
  rawOffsetFrom side (max 0 offset) l.raw.length 0 l.subs

/-- The stretch of the raw line for a stretch of the expanded text. -/
def rawRange (l : Line) (start stop : Int) : Int × Int :=
  (l.rawOffset .start start, l.rawOffset .stop stop)

/-- The substitution that replaced the character at an offset of the raw line. -/
def substitutionAt? (l : Line) (offset : Int) : Option Substitution :=
  l.subs.find? fun s => s.start ≤ offset && offset < s.stop

/-- Whether the line is this line of this file. -/
def isAt (l : Line) (file : String) (number : Int) : Bool :=
  l.file = file && l.number = number

end Line
end DevicetreePrep
