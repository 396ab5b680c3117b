/-
# Blanking out comments

A physical line is freed of its comments by writing a space over each of their
characters, so that columns stay what they were.  Quotes hide comment marks.  A
comment that is open at the end of one line goes on in the next, so the reader
starts in a mode and ends in one.
-/

import DevicetreePrep.Text.Basic

namespace DevicetreePrep
namespace Comment

/-- What the reader of comments is inside of. -/
inductive Mode
  /-- Text outside of quotes and comments. -/
  | code
  /-- A literal that ends with this quote. -/
  | quoted (quote : Char)
  /-- A comment that runs to the end of the text. -/
  | line
  /-- A comment that runs to its closing mark. -/
  | block
  deriving DecidableEq, Repr

/-- The text with a space in place of every character of a comment. -/
def maskIn : Mode → Text → Text
  | .code, '/' :: '/' :: cs => ' ' :: ' ' :: maskIn .line cs
  | .code, '/' :: '*' :: cs => ' ' :: ' ' :: maskIn .block cs
  | .code, c :: cs => c :: maskIn (if c = '"' || c = '\'' then .quoted c else .code) cs
  | .quoted q, '\\' :: c :: cs => '\\' :: c :: maskIn (.quoted q) cs
  | .quoted q, c :: cs => c :: maskIn (if c = q then .code else .quoted q) cs
  | .line, _ :: cs => ' ' :: maskIn .line cs
  | .block, '*' :: '/' :: cs => ' ' :: ' ' :: maskIn .code cs
  | .block, _ :: cs => ' ' :: maskIn .block cs
  | _, [] => []

/-- The mode in which the text ends. -/
def modeAfter : Mode → Text → Mode
  | .code, '/' :: '/' :: cs => modeAfter .line cs
  | .code, '/' :: '*' :: cs => modeAfter .block cs
  | .code, c :: cs => modeAfter (if c = '"' || c = '\'' then .quoted c else .code) cs
  | .quoted q, '\\' :: _ :: cs => modeAfter (.quoted q) cs
  | .quoted q, c :: cs => modeAfter (if c = q then .code else .quoted q) cs
  | .line, _ :: cs => modeAfter .line cs
  | .block, '*' :: '/' :: cs => modeAfter .code cs
  | .block, _ :: cs => modeAfter .block cs
  | m, [] => m

/-- The mode in which a line starts, by whether a comment is open there. -/
def startMode (isOpen : Bool) : Mode :=
  if isOpen then .block else .code

/-- A line without its comments; `isOpen` says whether it starts inside one. -/
def mask (isOpen : Bool) (line : Text) : Text :=
  maskIn (startMode isOpen) line

/-- Whether a line leaves a comment open for the next one. -/
def leavesOpen (isOpen : Bool) (line : Text) : Bool :=
  modeAfter (startMode isOpen) line = .block

/-- Blanking out comments keeps the width. -/
theorem length_maskIn (m : Mode) (t : Text) : (maskIn m t).length = t.length := by
  fun_induction maskIn m t <;> simp_all

end Comment
end DevicetreePrep
