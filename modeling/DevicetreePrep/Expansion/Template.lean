/-
# Templates

The replacement of a definition, read once for its operators, is a list of
parts: tokens that stand for themselves, uses of parameters, `#` in front of a
parameter, `##` between two parts, and the comma that `##` ties to the rest and
that goes away with it.
-/

import DevicetreePrep.Definition

namespace DevicetreePrep

/-- Whether a name is a parameter of the definition, its rest included. -/
def Definition.takes (d : Definition) (name : Text) : Bool :=
  match d.shape with
  | .function fixed rest =>
    fixed.contains name || (rest.isOpen && (name = restName || name = rest.name))
  | _ => false

/-- Whether a comma can be tied to the parameter: the names of the rest. -/
def Definition.tiesComma (d : Definition) (name : Text) : Bool :=
  d.takes name && (name = restName || name = d.rest.name)

namespace Expansion

/-- A part of a replacement. -/
inductive Part
  /-- A token that stands for itself. -/
  | token (t : Token)
  /-- The operator `##`. -/
  | paste
  /-- The operator `#` with its parameter. -/
  | stringize (name : Text)
  /-- A comma that is tied to the rest. -/
  | commaRest (comma : Token) (name : Text)
  /-- A parameter next to `##`, which stands for its argument as it is given. -/
  | operand (name : Text)
  /-- A parameter that stands for its expanded argument. -/
  | parameter (name : Text)
  deriving DecidableEq, Repr

/-- The first token that is not white space, and the tokens behind it. -/
def significant? : List Token → Option (Token × List Token)
  | [] => none
  | t :: ts => if t.isWhite then significant? ts else some (t, ts)

/-- What follows the first significant token is shorter than the whole. -/
theorem length_lt_of_significant? {ts after : List Token} {t : Token}
    (h : significant? ts = some (t, after)) : after.length < ts.length := by
  induction ts with
  | nil => simp [significant?] at h
  | cons u us ih =>
    by_cases hu : u.isWhite
    · have := ih (by simpa [significant?, hu] using h)
      simp only [List.length_cons]
      omega
    · simp only [significant?, hu, if_false, Option.some.injEq, Prod.mk.injEq,
        Bool.false_eq_true] at h
      simp [← h.2]

/-- Whether a token is the operator `##`. -/
def isPaste (t : Token) : Bool :=
  t.isPunct ['#', '#']

/-- The parameter that a `#` applies to, and what follows it. -/
def stringized? (d : Definition) (t : Token) (ts : List Token) : Option (Token × List Token) :=
  if t.isPunct ['#'] then
    (significant? ts).filter fun (name, _) => name.isIdent && d.takes name.text
  else none

/-- The rest that a comma is tied to, and what follows it. -/
def tied? (d : Definition) (t : Token) (ts : List Token) : Option (Token × List Token) :=
  if t.isPunct [','] then
    match significant? ts with
    | some (op, behind) =>
      if isPaste op then (significant? behind).filter fun (name, _) => d.tiesComma name.text
      else none
    | none => none
  else none

/-- What follows a name that is made a string is shorter than what followed the hash sign. -/
theorem length_lt_of_stringized? {d : Definition} {t n : Token} {ts after : List Token}
    (h : stringized? d t ts = some (n, after)) : after.length < ts.length := by
  unfold stringized? at h
  split at h
  · exact length_lt_of_significant? (Option.filter_eq_some_iff.1 h).1
  · cases h

/-- What follows a rest that is tied to a comma is shorter than what followed the comma. -/
theorem length_lt_of_tied? {d : Definition} {t n : Token} {ts after : List Token}
    (h : tied? d t ts = some (n, after)) : after.length < ts.length := by
  unfold tied? at h
  split at h
  · split at h
    · rename_i hs
      split at h
      · have := length_lt_of_significant? (Option.filter_eq_some_iff.1 h).1
        have := length_lt_of_significant? hs
        omega
      · cases h
    · cases h
  · cases h

/-- The parts of a replacement behind the significant token `before`. -/
def partsFrom (d : Definition) (before : Option Token) (body : List Token) : List Part :=
  match body with
  | [] => []
  | t :: ts =>
    let pasted := before.any isPaste || (significant? ts).any fun (next, _) => isPaste next
    if t.isWhite then
      if pasted then partsFrom d before ts else .token t :: partsFrom d before ts
    else if isPaste t then .paste :: partsFrom d (some t) ts
    else match _h : stringized? d t ts with
      | some (name, after) => .stringize name.text :: partsFrom d (some name) after
      | none => match _h : tied? d t ts with
        | some (name, after) => .commaRest t name.text :: partsFrom d (some name) after
        | none =>
          let part :=
            if t.isIdent && d.takes t.text then
              if pasted then .operand t.text else .parameter t.text
            else .token t
          part :: partsFrom d (some t) ts
termination_by body.length
decreasing_by
  all_goals simp only [List.length_cons]
  · omega
  · omega
  · omega
  · have := length_lt_of_stringized? ‹_›
    omega
  · have := length_lt_of_tied? ‹_›
    omega
  · omega

/-- The parts of the replacement of a definition. -/
def parts (d : Definition) : List Part :=
  partsFrom d none d.body

end Expansion
end DevicetreePrep
