/-
# Definitions

A definition gives a name a replacement.  It has one of three shapes: an object
is replaced as it stands; a function is replaced when an argument list follows
its name; a builtin has its meaning from its name alone.  A function takes its
fixed parameters and may collect all further arguments in a rest, which has a
name of its own or none and is always known as `__VA_ARGS__`.
-/

import DevicetreePrep.Token

namespace DevicetreePrep

/-- The name under which every rest is known. -/
def restName : Text :=
  "__VA_ARGS__".toList

/-- What a function does with the arguments behind its fixed ones. -/
inductive Rest
  /-- It takes no more arguments. -/
  | none
  /-- It collects them without giving them a name of its own. -/
  | anonymous
  /-- It collects them under a name. -/
  | named (name : Text)
  deriving DecidableEq, Repr

namespace Rest

/-- Whether further arguments are taken. -/
def isOpen : Rest → Bool
  | none => false
  | _ => true

/-- The name that stands for the further arguments. -/
def name : Rest → Text
  | named n => n
  | _ => restName

end Rest

/-- The shape of a definition. -/
inductive Shape
  | object
  | function (fixed : List Text) (rest : Rest)
  | builtin
  deriving DecidableEq, Repr

/-- A definition, with the file and the line it was read from. -/
structure Definition where
  name : Text
  shape : Shape := .object
  body : List Token := []
  file : Option String := none
  line : Option Int := none
  deriving DecidableEq, Repr

namespace Definition

/-- The spelling of the replacement. -/
def value (d : Definition) : Text :=
  render d.body

/-- The parameters in the order in which they are declared, a named rest among
them; an object and a builtin have no parameter list. -/
def parameters? (d : Definition) : Option (List Text) :=
  match d.shape with
  | .function fixed (.named n) => some (fixed ++ [n])
  | .function fixed _ => some fixed
  | _ => none

/-- What the function does with further arguments. -/
def rest (d : Definition) : Rest :=
  match d.shape with
  | .function _ r => r
  | _ => .none

/-- A replacement as far as redefinition goes: kinds and spellings, one stretch
of white space being as good as any other. -/
def outline (body : List Token) : List (TokenKind × Text) :=
  body.map fun t => (t.kind, if t.isWhite then [' '] else t.text)

/-- Whether two definitions of a name may stand for each other. -/
def sameAs (d e : Definition) : Bool :=
  d.shape = e.shape && outline d.body = outline e.body

/-- Whether two definitions agree in all but where they were read. -/
def agrees (d e : Definition) : Bool :=
  d.name = e.name && d.shape = e.shape && d.body = e.body

/-- The head of a definition as it is declared. -/
def signature (d : Definition) : Text :=
  let declare (params : List Text) := d.name ++ ['('] ++ Text.joinWith [','] params ++ [')']
  match d.shape with
  | .function fixed .none => declare fixed
  | .function fixed .anonymous => declare (fixed ++ [['.', '.', '.']])
  | .function fixed (.named n) => declare (fixed ++ [n ++ ['.', '.', '.']])
  | _ => d.name

/-- The builtins: the current file, the current line, and a number that is
never given twice. -/
def builtins : List Definition :=
  ["__FILE__", "__LINE__", "__COUNTER__"].map fun n => { name := n.toList, shape := .builtin }

end Definition
end DevicetreePrep
