/-
# Inclusion

An including directive names its file in double quotes or in angle brackets, or
gives tokens that expand to one of the two.  A resolver finds the file for the
name.
-/

import DevicetreePrep.Directive
import DevicetreePrep.SystemError
import DevicetreePrep.Token

namespace DevicetreePrep

/-- What an including directive asks for. -/
structure Inclusion where
  /-- The name between the delimiters. -/
  target : String
  /-- Whether these are angle brackets. -/
  angled : Bool
  /-- The file of the directive. -/
  includer : String
  deriving DecidableEq, Repr

/-- The name with its delimiters. -/
def Inclusion.reference (i : Inclusion) : String :=
  if i.angled then "<" ++ i.target ++ ">" else "\"" ++ i.target ++ "\""

/-- A file that was found: the name it goes by, and what it says. -/
structure IncludedFile where
  file : String
  text : Text
  deriving DecidableEq, Repr

/-- Why an inclusion brings in no file. -/
inductive InclusionError
  | notFound (i : Inclusion)
  /-- The file for this name cannot be read, with the reason. -/
  | unreadable (target reason : String)
  /-- The file is open already. -/
  | circular (file : String)
  | nestedTooDeeply
  deriving DecidableEq, Repr

namespace InclusionError

/-- The wording of the error. -/
def message : InclusionError → String
  | notFound i => "Include not found: " ++ i.reference
  | unreadable target reason => "Unable to read include: " ++ target ++ ": " ++ reason
  | circular file => "Circular include detected: " ++ file
  | nestedTooDeeply => "#include nested too deeply"

/-- The error as it is reported. -/
def problem (e : InclusionError) : Problem :=
  match e with
  | notFound _ => { message := e.message, code := .includeNotFound, severity := .warning }
  | unreadable _ _ => { message := e.message, code := .includeUnreadable }
  | circular _ | nestedTooDeeply => { message := e.message, code := .includeCycle }

end InclusionError

/-- What a resolver answers. -/
inductive Resolution
  | found (f : IncludedFile)
  | failed (e : InclusionError)
  | broken (e : SystemError)
  deriving DecidableEq, Repr

/-- Finds the file for an inclusion. -/
abbrev Resolver := Inclusion → Resolution

/-- Resolves names by a list of texts.  A file goes by the name it is asked
for. -/
def Resolver.ofList (files : List (String × Text)) : Resolver := fun i =>
  match files.lookup i.target with
  | some text => .found ⟨i.target, text⟩
  | none => .failed (.notFound i)

/-- Resolves nothing, for want of a directory to search. -/
def Resolver.pathMissing : Resolver := fun _ =>
  .broken .pathMissing

namespace Inclusion

/-- The name in an operand that is written with its delimiters, and whether they
are angle brackets. -/
def direct? (operand : Text) : Option (Text × Bool) :=
  let inside (close : Char) (rest : Text) : Option Text :=
    match Text.cut close rest with
    | (c :: cs, some []) => if (c :: cs).contains '\n' then none else some (c :: cs)
    | _ => none
  match operand with
  | '"' :: rest => (inside '"' rest).map (·, false)
  | '<' :: rest => (inside '>' rest).map (·, true)
  | _ => none

/-- The name that tokens give, and whether its delimiters are angle brackets: one
string literal, or tokens between angle brackets. -/
def ofTokens? (ts : List Token) : Option (Text × Bool) :=
  match trimWhite ts with
  | [t] =>
    if t.kind = .stringLiteral && t.text.head? = some '"' then
      some ((t.text.drop 1).dropLast, false)
    else none
  | first :: second :: rest =>
    let inner := (second :: rest).dropLast
    if !inner.isEmpty && first.isPunct ['<'] && (second :: rest).getLast?.any (·.isPunct ['>']) then
      some (render inner, true)
    else none
  | [] => none

end Inclusion
end DevicetreePrep
