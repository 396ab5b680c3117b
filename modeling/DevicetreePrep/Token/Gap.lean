/-
# Gaps between tokens

White space and comments between two tokens are read as one stretch.  It
spells its white space as it stands, and every comment as a single space.  A
comment that starts with two slashes runs up to the end of its line; one that
starts with a slash and a star runs to the first star and slash behind its
opening, or, if there is none, to the end of the text.
-/

import DevicetreePrep.Token

namespace DevicetreePrep

/-- A stretch of white space and comments at the front of a text. -/
structure Gap where
  /-- What the stretch spells. -/
  text : Text := []
  /-- The number of characters it covers. -/
  width : Nat := 0
  /-- The offset of a comment in it that is never closed. -/
  unclosed : Option Nat := none
  deriving DecidableEq, Repr

namespace Gap

/-- What the reader of a gap is inside of. -/
inductive Mode
  /-- White space. -/
  | space
  /-- A comment that ends with its line. -/
  | line
  /-- A comment that opened at an offset and ends with its closing mark. -/
  | block (opened : Nat)
  deriving DecidableEq, Repr

/-- The gap with `n` more characters in front of it, which spell `t`. -/
def behind (n : Nat) (t : Text) (g : Gap) : Gap :=
  { g with text := t ++ g.text, width := n + g.width }

/-- Reads on inside a gap, at the offset `here`. -/
def readIn (here : Nat) : Mode → Text → Gap
  | .space, '/' :: '/' :: cs => behind 2 [' '] (readIn (here + 2) .line cs)
  | .space, '/' :: '*' :: cs => behind 2 [' '] (readIn (here + 2) (.block here) cs)
  | .space, c :: cs => if isSpace c then behind 1 [c] (readIn (here + 1) .space cs) else {}
  | .line, c :: cs =>
    if c = '\n' then behind 1 [c] (readIn (here + 1) .space cs)
    else behind 1 [] (readIn (here + 1) .line cs)
  | .block _, '*' :: '/' :: cs => behind 2 [] (readIn (here + 2) .space cs)
  | .block opened, _ :: cs => behind 1 [] (readIn (here + 1) (.block opened) cs)
  | .block opened, [] => { unclosed := some opened }
  | _, [] => {}

/-- The gap at the front of a text that stands at the offset `here`. -/
def read (here : Nat) (source : Text) : Gap :=
  readIn here .space source

end Gap
end DevicetreePrep
