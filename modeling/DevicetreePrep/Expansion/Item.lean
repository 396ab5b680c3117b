/-
# Tokens in flight

While a line is expanded, each token carries the names that may not be replaced
in it any more, and the stretch of the line that it came from.  Here too are the
two ways to make a string literal: of the tokens of an argument, and of a text.
-/

import DevicetreePrep.Definition

namespace DevicetreePrep
namespace Expansion

/-- The tokens of the line from number `lo` through number `hi`. -/
structure Span where
  lo : Nat
  hi : Nat
  deriving DecidableEq, Repr

/-- The smallest span around two spans. -/
def Span.hull (s t : Span) : Span :=
  ⟨min s.lo t.lo, max s.hi t.hi⟩

/-- A token on its way to the output. -/
structure Item where
  token : Token
  /-- The names that are not replaced here. -/
  hidden : List Text := []
  /-- The tokens of the line that it stands for. -/
  span : Span
  /-- Whether a replacement brought it in. -/
  produced : Bool := false
  deriving DecidableEq, Repr

/-- A token of a replacement before it has its place in the line. -/
structure Piece where
  token : Token
  hidden : List Text := []
  deriving DecidableEq, Repr

namespace Item

/-- Whether the item is the punctuator spelled `s`. -/
def isPunct (s : Text) (i : Item) : Bool :=
  i.token.isPunct s

/-- Whether the item is white space. -/
def isWhite (i : Item) : Bool :=
  i.token.isWhite

/-- The items of a line. -/
def ofTokens (ts : List Token) : List Item :=
  ts.mapIdx fun n t => { token := t, span := ⟨n, n⟩ }

/-- The items without the white space at either end. -/
def trim (is : List Item) : List Item :=
  trimWhere isWhite is

/-- The smallest span around an item and further items. -/
def spanOf (i : Item) (is : List Item) : Span :=
  is.foldl (fun s j => s.hull j.span) i.span

/-- The item as a piece of a replacement. -/
def toPiece (i : Item) : Piece :=
  ⟨i.token, i.hidden⟩

end Item

/-- The names of either list, without those of the second that the first has. -/
def hideAlso (hidden more : List Text) : List Text :=
  more.filter (fun n => !hidden.contains n) ++ hidden

/-- The piece in its place, with more names hidden. -/
def Piece.toItem (span : Span) (hide : List Text) (p : Piece) : Item :=
  { token := p.token, hidden := hideAlso p.hidden hide, span, produced := true }

/-- The text with a backslash before every backslash and every double quote. -/
def escape (t : Text) : Text :=
  t.flatMap fun c => if c = '\\' || c = '"' then ['\\', c] else [c]

/-- The string literal that stands for a text. -/
def quote (t : Text) : Text :=
  '"' :: escape t ++ ['"']

/-- The text of a string made of items: their spellings, with one space in
place of any white space between two of them.  `spaced` says whether white
space came before, `first` whether nothing was written so far. -/
def stringizeFrom (spaced first : Bool) : List Item → Text
  | [] => []
  | i :: is =>
    if i.isWhite then stringizeFrom (spaced || !i.token.text.isEmpty) first is
    else
      let text :=
        if i.token.kind = .stringLiteral || i.token.kind = .charConst then escape i.token.text
        else i.token.text
      (if spaced && !first then [' '] else []) ++ text ++ stringizeFrom false false is

/-- The string literal made of an argument. -/
def stringize (is : List Item) : Text :=
  '"' :: stringizeFrom false true is ++ ['"']

end Expansion
end DevicetreePrep
