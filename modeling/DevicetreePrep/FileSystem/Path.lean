/-
# Paths

A path is a list of names, behind one slash or two if it starts at the root.
Empty names and single dots in it do not count; double dots stay.
-/

import DevicetreePrep.Text.Basic

namespace DevicetreePrep

/-- A path. -/
structure Path where
  /-- The slashes in front; none in a relative path. -/
  anchor : Text := []
  names : List Text := []
  deriving DecidableEq, Repr

namespace Path

/-- The slashes in front of a path.  Two of them stay, any other number is one. -/
def anchorOf (t : Text) : Text :=
  match (t.takeWhile (· = '/')).length with
  | 0 => []
  | 2 => ['/', '/']
  | _ => ['/']

/-- The path that a text spells. -/
def ofText (t : Text) : Path :=
  { anchor := anchorOf t, names := (Text.split '/' t).filter fun n => n ≠ [] && n ≠ ['.'] }

/-- The spelling of a path.  The empty path is a dot. -/
def toText (p : Path) : Text :=
  if p.anchor.isEmpty && p.names.isEmpty then ['.'] else p.anchor ++ Text.joinWith ['/'] p.names

/-- Whether a path starts at the root. -/
def isAbsolute (p : Path) : Bool :=
  !p.anchor.isEmpty

/-- The path without its last name. -/
def parent (p : Path) : Path :=
  { p with names := p.names.dropLast }

/-- The second path, taken from the first one unless it starts at the root. -/
def append (p q : Path) : Path :=
  if q.isAbsolute then q else { p with names := p.names ++ q.names }

/-- The path from the root along the names. -/
def ofNames (names : List Text) : Path :=
  { anchor := ['/'], names }

end Path
end DevicetreePrep
