/-
# Pasting

The operator `##` makes one token of the two pieces beside it.  An empty piece
stands in for an empty argument: pasted with it, the other piece stays as it
is.  Where the two spellings do not make up one token, both stay.
-/

import DevicetreePrep.Expansion.Item
import DevicetreePrep.Expansion.Report
import DevicetreePrep.Token.Lexer

namespace DevicetreePrep
namespace Expansion

/-- A filled-in replacement before pasting. -/
inductive Entry
  | paste
  | piece (p : Piece)
  deriving DecidableEq, Repr

/-- What stands for an empty argument beside `##`. -/
def placeholder : Piece :=
  ⟨{ kind := .whitespace, text := [] }, []⟩

/-- What comes of two pieces with `##` between them. -/
def pastePair (left right : Piece) : List Piece × Option Cause :=
  if left.token.text.isEmpty then ([right], none)
  else if right.token.text.isEmpty then ([left], none)
  else match lexSingle? (left.token.text ++ right.token.text) with
    | some t => ([⟨t, left.hidden.filter right.hidden.contains⟩], none)
    | none => ([left, right], some (.badPaste left.token.text right.token.text))

/-- A paste in progress. -/
structure Pasting where
  /-- The pieces so far, the last one first. -/
  out : List Piece := []
  /-- Whether the next piece is to be pasted to the last one. -/
  pending : Bool := false
  causes : List Cause := []
  deriving DecidableEq, Repr

namespace Pasting

/-- Takes in one entry. -/
def step (s : Pasting) : Entry → Pasting
  | .paste =>
    if s.out.isEmpty || s.pending then { s with causes := s.causes ++ [.looseOperator] }
    else { s with pending := true }
  | .piece p =>
    match s.pending, s.out with
    | true, left :: out =>
      let (pieces, cause?) := pastePair left p
      { out := pieces.reverse ++ out, pending := false, causes := s.causes ++ cause?.toList }
    | _, out => { s with out := p :: out, pending := false }

end Pasting

/-- Carries out the pastes and drops the pieces that are empty. -/
def pasteAll (entries : List Entry) : List Piece × List Cause :=
  let s := entries.foldl Pasting.step {}
  (s.out.reverse.filter fun p => !p.token.text.isEmpty,
    if s.pending then s.causes ++ [.looseOperator] else s.causes)

end Expansion
end DevicetreePrep
