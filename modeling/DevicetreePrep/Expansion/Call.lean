/-
# Argument lists

A function is replaced when an argument list follows its name: white space, an
opening bracket, and everything up to the bracket that closes it.  Commas
outside of inner brackets divide the arguments.  A function with fixed
parameters needs one argument for each; what comes behind them goes into its
rest, with the commas between.
-/

import DevicetreePrep.Expansion.Item

namespace DevicetreePrep
namespace Expansion

/-- An argument list. -/
structure Call where
  /-- The arguments, one at least. -/
  args : List (List Item)
  /-- The commas between them. -/
  commas : List Item
  /-- The closing bracket. -/
  close : Item
  /-- How many items the list takes up, the brackets included. -/
  size : Nat
  deriving DecidableEq, Repr

/-- What follows the name of a function. -/
inductive Following
  /-- No argument list. -/
  | absent
  /-- An argument list that is not closed. -/
  | unclosed
  | call (c : Call)
  deriving DecidableEq, Repr

namespace Call

/-- What stands before the bracket that closes a list, and that bracket.  There
are `depth` inner brackets open, and `seen` was read before, in reverse order. -/
def untilClose (depth : Nat) (seen : List Item) : List Item → Option (List Item × Item)
  | [] => none
  | i :: is =>
    if i.isPunct ['('] then untilClose (depth + 1) (i :: seen) is
    else if i.isPunct [')'] then
      match depth with
      | 0 => some (seen.reverse, i)
      | depth + 1 => untilClose depth (i :: seen) is
    else untilClose depth (i :: seen) is

/-- Divides the inside of a list at its commas.  There are `depth` inner
brackets open. -/
def divide (depth : Nat) : List Item → List (List Item) × List Item
  | [] => ([[]], [])
  | i :: is =>
    let depth' :=
      if i.isPunct ['('] then depth + 1 else if i.isPunct [')'] then depth - 1 else depth
    let (args, commas) := divide depth' is
    if i.isPunct [','] && depth = 0 then ([] :: args, i :: commas)
    else match args with
      | [] => ([[i]], commas)
      | a :: as => ((i :: a) :: as, commas)

/-- What follows the name of a function. -/
def following (is : List Item) : Following :=
  let white := is.takeWhile Item.isWhite
  match is.drop white.length with
  | [] => .absent
  | i :: rest =>
    if i.isPunct ['('] then
      match untilClose 0 [] rest with
      | none => .unclosed
      | some (inner, close) =>
        let (args, commas) := divide 0 inner
        .call { args, commas, close, size := white.length + inner.length + 2 }
    else .absent

/-- The arguments behind the first `n`, with the commas between them. -/
def restOf (n : Nat) (args : List (List Item)) (commas : List Item) : List Item :=
  match args.drop n with
  | [] => []
  | a :: as => a ++ ((commas.drop n).zip as).flatMap fun (comma, b) => comma :: b

end Call

/-- What the parameters of a function stand for in one call. -/
structure Arguments where
  /-- The fixed parameters with their arguments. -/
  fixed : List (Text × List Item) := []
  /-- The name of the rest and what it holds, if the function has one. -/
  rest : Option (Text × List Item) := none
  deriving DecidableEq, Repr

namespace Arguments

/-- What a parameter stands for.  The rest comes before a fixed parameter of
its name, and the last of several fixed parameters of one name before the others. -/
def get (a : Arguments) (name : Text) : List Item :=
  match a.rest with
  | some (rest, items) =>
    if name = rest || name = restName then items else (a.fixed.reverse.lookup name).getD []
  | none => (a.fixed.reverse.lookup name).getD []

/-- The arguments of a call as a function counts them: a blank one alone is none
for a function without fixed parameters. -/
def counted (fixed : List Text) (args : List (List Item)) : List (List Item) :=
  match fixed, args with
  | [], [a] => if (Item.trim a).isEmpty then [] else [a]
  | _, _ => args

/-- Binds the parameters of a function to the arguments of a call.  The error
is the number of arguments given. -/
def bind (fixed : List Text) (rest : Rest) (c : Call) : Except Nat Arguments :=
  let args := counted fixed c.args
  if args.length < fixed.length || (!rest.isOpen && fixed.length < args.length) then
    .error args.length
  else
    .ok {
      fixed := fixed.zip (args.map Item.trim)
      rest := if rest.isOpen then
          some (rest.name, Item.trim (Call.restOf fixed.length args c.commas))
        else none }

end Arguments
end Expansion
end DevicetreePrep
