/-
# Expansion

The items of a line are taken from the front.  An identifier that is defined,
and not hidden in that place, is replaced: its replacement goes back to the
front, with the name hidden in it, and is looked at again.  Everything else
goes to the output.  Arguments are expanded by themselves before they are put
in, unless they stand beside `#` or `##`.

Two limits make an end in every case.  A line has a budget of replacements,
which its arguments draw on as well; and arguments nest only so deep.  A
replacement reports how much of the budget it used up, so the budget only
falls, and where it stays the same an item has gone to the output.

Names are hidden in the way of intersection: the names hidden in the result of
a call are those hidden both in its name and in its closing bracket, and the
name itself.
-/

import DevicetreePrep.Definition.Table
import DevicetreePrep.Expansion.Call
import DevicetreePrep.Expansion.Paste
import DevicetreePrep.Expansion.Template
import DevicetreePrep.Substitution

namespace DevicetreePrep
namespace Expansion

/-- How many replacements one line may ask for. -/
def replacementLimit : Int := 4096

/-- How many levels of expansion there are: the line, its arguments, the
arguments in those, and so on. -/
def levelLimit : Nat := 65

/-- What stays the same while a line is expanded: the definitions, and the
place in the source. -/
structure Context where
  table : Table
  file : String
  line : Int

/-- A replacement that took place: the tokens of the line that it stands for
and the definition that was replaced. -/
structure Event where
  span : Span
  definition : Definition
  deriving DecidableEq, Repr

/-- What comes of expanding a list of items. -/
structure Outcome where
  items : List Item := []
  /-- The replacements at this level, in the order in which they took place. -/
  events : List Event := []
  /-- How much of the budget was used up. -/
  spent : Nat := 0
  /-- The number that comes next where a counter stands. -/
  counter : Nat
  reports : List Report := []
  deriving DecidableEq, Repr

/-- Expands a list of items within a budget; the second number is the next one
of the counter. -/
abbrev Expander := Int → Nat → List Item → Outcome

/-- The definition that an item is replaced by, if it is replaced at all. -/
def candidate? (table : Table) (i : Item) : Option Definition :=
  if i.token.isIdent && !i.hidden.contains i.token.text then table.find? i.token.text else none

/-- The token that a builtin stands for, and the next number of the counter.  A
builtin without a meaning stands for itself. -/
def builtinToken (ctx : Context) (counter : Nat) (t : Token) : Token × Nat :=
  if t.text = "__LINE__".toList then
    ({ t with kind := .number, text := (toString ctx.line).toList }, counter)
  else if t.text = "__COUNTER__".toList then
    ({ t with kind := .number, text := (toString counter).toList }, counter + 1)
  else if t.text = "__FILE__".toList then
    ({ t with kind := .stringLiteral, text := quote ctx.file.toList }, counter)
  else (t, counter)

/-- A replacement that is being filled in. -/
structure Filling where
  /-- The entries so far, the last one first. -/
  entries : List Entry := []
  /-- The arguments that have been expanded. -/
  expanded : List (Text × List Piece) := []
  spent : Nat := 0
  counter : Nat
  reports : List Report := []

namespace Filling

/-- Adds pieces at the end. -/
def add (f : Filling) (ps : List Piece) : Filling :=
  { f with entries := (ps.map Entry.piece).reverse ++ f.entries }

/-- Fills in one part.  An argument is expanded where it is first used, and only
once under each name. -/
def step (expand : Expander) (budget : Int) (args : Arguments) (f : Filling) : Part → Filling
  | .token t => f.add [⟨t, []⟩]
  | .paste => { f with entries := .paste :: f.entries }
  | .stringize name =>
    f.add [⟨{ kind := .stringLiteral, text := Expansion.stringize (args.get name) }, []⟩]
  | .commaRest comma name =>
    match args.get name with
    | [] => f
    | rest => f.add (⟨comma, []⟩ :: ⟨{ kind := .whitespace, text := [' '] }, []⟩ ::
        rest.map Item.toPiece)
  | .operand name =>
    match args.get name with
    | [] => f.add [placeholder]
    | arg => f.add (arg.map Item.toPiece)
  | .parameter name =>
    match f.expanded.lookup name with
    | some pieces => f.add pieces
    | none =>
      let r := expand (budget - f.spent) f.counter (args.get name)
      let pieces := r.items.map Item.toPiece
      { f.add pieces with
        expanded := (name, pieces) :: f.expanded
        spent := f.spent + r.spent
        counter := r.counter
        reports := f.reports ++ r.reports }

end Filling

/-- What the front item of a list turns into. -/
inductive Action
  /-- It goes to the output with the next `size` items. -/
  | pass (size : Nat) (reports : List Report)
  /-- It and the next `size` items are replaced. -/
  | replace (size : Nat) (items : List Item) (event : Event) (spent counter : Nat)
      (reports : List Report)

/-- Replaces an item, together with the items `taken` behind it, by the
replacement of its definition.  The names in `hide` are hidden in it. -/
def substitute (expand : Expander) (budget : Int) (counter : Nat) (d : Definition)
    (args : Arguments) (i : Item) (taken : List Item) (hide : List Text) : Action :=
  let span := i.spanOf taken
  let f := (parts d).foldl (Filling.step expand budget args) { counter }
  let (pieces, causes) := pasteAll f.entries.reverse
  .replace taken.length (pieces.map (Piece.toItem span (d.name :: hide))) ⟨span, d⟩ f.spent
    f.counter (f.reports ++ causes.map (⟨·, some span.lo⟩))

/-- Replaces an item by its definition, if it is an object or a builtin or an
argument list follows that suits it. -/
def invoke (ctx : Context) (expand : Expander) (budget : Int) (counter : Nat) (d : Definition)
    (i : Item) (tail : List Item) : Action :=
  match d.shape with
  | .builtin =>
    let (token, counter) := builtinToken ctx counter i.token
    .replace 0 [Piece.toItem i.span (d.name :: i.hidden) ⟨token, []⟩] ⟨i.span, d⟩ 0 counter []
  | .object => substitute expand budget counter d {} i [] i.hidden
  | .function fixed rest =>
    match Call.following tail with
    | .absent => .pass 0 []
    | .unclosed => .pass 0 [⟨.unclosedCall d.name, some i.span.lo⟩]
    | .call c =>
      match Arguments.bind fixed rest c with
      | .error given => .pass c.size [⟨.wrongCount d.name fixed.length given, some i.span.lo⟩]
      | .ok args =>
        substitute expand budget counter d args i (tail.take c.size)
          (i.hidden.filter c.close.hidden.contains)

/-- Expands the items in `pending`.  In `done` the lists run backwards, the last
one first, except for the reports. -/
def expandFrom (ctx : Context) (expand : Expander) (budget : Int) (done : Outcome)
    (pending : List Item) : Outcome :=
  match pending with
  | [] => { done with items := done.items.reverse, events := done.events.reverse }
  | i :: tail =>
    match candidate? ctx.table i with
    | none => expandFrom ctx expand budget { done with items := i :: done.items } tail
    | some d =>
      if _h : 0 < budget then
        match invoke ctx expand budget done.counter d i tail with
        | .pass size reports =>
          expandFrom ctx expand budget
            { done with
              items := (i :: tail.take size).reverse ++ done.items
              reports := done.reports ++ reports }
            (tail.drop size)
        | .replace size items event spent counter reports =>
          expandFrom ctx expand (budget - (spent + 1))
            { done with
              events := event :: done.events
              spent := done.spent + (spent + 1)
              counter
              reports := done.reports ++ reports }
            (items ++ tail.drop size)
      else if _h : budget = 0 then
        expandFrom ctx expand (-1)
          { done with
            items := i :: done.items
            spent := done.spent + 1
            reports := done.reports ++ [⟨.tooManyReplacements, some i.span.lo⟩] }
          tail
      else expandFrom ctx expand budget { done with items := i :: done.items } tail
termination_by (budget.toNat, pending.length)
decreasing_by
  · exact Prod.Lex.right _ (by simp)
  · exact Prod.Lex.right _ (by simp only [List.length_drop, List.length_cons]; omega)
  · exact Prod.Lex.left _ _ (by omega)
  · subst _h
    exact Prod.Lex.right _ (by simp)
  · exact Prod.Lex.right _ (by simp)

/-- Expands items with so many levels left for arguments. -/
def expandWithin (ctx : Context) : Nat → Expander
  | 0 => fun _ counter items =>
    { items, counter, reports := [⟨.nestedTooDeeply, items.head?.map (·.span.lo)⟩] }
  | levels + 1 => fun budget counter items =>
    expandFrom ctx (expandWithin ctx levels) budget { counter } items

/-- Expands the tokens of a line. -/
def expand (ctx : Context) (counter : Nat) (tokens : List Token) : Outcome :=
  expandWithin ctx levelLimit replacementLimit counter (Item.ofTokens tokens)

/-- An error with the offset of the token that it belongs to. -/
def Report.locate (tokens : List Token) (r : Report) : ExpansionError :=
  ⟨r.cause, r.site.bind fun n => tokens[n]?.map Token.offset⟩

/-- Replacements in a line that overlap, taken as one. -/
structure Group where
  span : Span
  /-- The definition that was replaced first of those at the start. -/
  definition : Definition
  deriving DecidableEq, Repr

namespace Group

/-- Adds a replacement to the groups so far, the last of which comes first. -/
def add (groups : List Group) (e : Event) : List Group :=
  match groups with
  | g :: gs =>
    if e.span.lo ≤ g.span.hi then { g with span.hi := max g.span.hi e.span.hi } :: gs
    else ⟨e.span, e.definition⟩ :: g :: gs
  | [] => [⟨e.span, e.definition⟩]

/-- The groups of a list of replacements, in the order of the line. -/
def ofEvents (events : List Event) : List Group :=
  ((events.mergeSort fun e f => e.span.lo ≤ f.span.lo).foldl add []).reverse

/-- What replacement brought in between the start of a group and the start of
the next one. -/
def insertOf (items : List Item) (g : Group) (next : Option Group) : Text :=
  let own (i : Item) : Bool :=
    i.produced && g.span.lo ≤ i.span.lo && next.all fun n => i.span.lo < n.span.lo
  Text.trim (render ((items.filter own).map Item.token))

/-- The substitutions that the groups stand for.  The line reads `raw`, and
`tokens` are its tokens. -/
def substitutions (raw : Text) (tokens : List Token) (items : List Item) :
    List Group → List Substitution
  | [] => []
  | g :: gs =>
    let start := (tokens[g.span.lo]?.map Token.offset).getD 0
    let stop := (tokens[g.span.hi]?.map Token.stop).getD 0
    { definition := g.definition
      raw := raw.extract start stop
      insert := insertOf items g gs.head?
      start } :: substitutions raw tokens items gs

end Group
end Expansion

/-- A list of tokens after expansion. -/
structure ExpandedTokens where
  tokens : List Token
  counter : Nat
  errors : List ExpansionError

/-- Expands a list of tokens. -/
def expandTokens (ctx : Expansion.Context) (counter : Nat) (tokens : List Token) :
    ExpandedTokens :=
  let r := Expansion.expand ctx counter tokens
  { tokens := r.items.map Expansion.Item.token
    counter := r.counter
    errors := r.reports.map (Expansion.Report.locate tokens) }

/-- A line after expansion: the stretches that were replaced. -/
structure ExpandedLine where
  subs : List Substitution
  counter : Nat
  errors : List ExpansionError

/-- Expands a line with the tokens `tokens`.  The substitutions quote `raw`,
which is the line before its comments were blanked out. -/
def expandLine (ctx : Expansion.Context) (counter : Nat) (raw : Text) (tokens : List Token) :
    ExpandedLine :=
  let r := Expansion.expand ctx counter tokens
  { subs := Expansion.Group.substitutions raw tokens r.items (Expansion.Group.ofEvents r.events)
    counter := r.counter
    errors := r.reports.map (Expansion.Report.locate tokens) }

end DevicetreePrep
