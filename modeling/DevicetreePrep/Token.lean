/-
# Tokens

A token is a stretch of source text with its kind and the offset where it
starts.  White space is a token too: a line is the rendering of its tokens.
-/

import DevicetreePrep.Text.Basic

namespace DevicetreePrep

/-- The kinds of token. -/
inductive TokenKind
  | ident
  | number
  | charConst
  | stringLiteral
  | punctuator
  | whitespace
  deriving DecidableEq, Repr

/-- A token: its kind, its spelling and the offset of its first character. -/
structure Token where
  kind : TokenKind
  text : Text
  offset : Nat := 0
  deriving DecidableEq, Repr

namespace Token

/-- The offset behind a token, taken from its spelling. -/
def stop (t : Token) : Nat :=
  t.offset + t.text.length

/-- White space, comments included. -/
def isWhite (t : Token) : Bool :=
  t.kind = .whitespace

/-- An identifier. -/
def isIdent (t : Token) : Bool :=
  t.kind = .ident

/-- The punctuator spelled `s`. -/
def isPunct (s : Text) (t : Token) : Bool :=
  t.kind = .punctuator && t.text = s

end Token

/-- The text that the tokens spell. -/
def render (ts : List Token) : Text :=
  ts.flatMap Token.text

/-- The list without the members at either end that satisfy `p`. -/
def trimWhere {α : Type} (p : α → Bool) (xs : List α) : List α :=
  ((xs.dropWhile p).reverse.dropWhile p).reverse

/-- The tokens without the white space at either end. -/
def trimWhite (ts : List Token) : List Token :=
  trimWhere Token.isWhite ts

end DevicetreePrep
