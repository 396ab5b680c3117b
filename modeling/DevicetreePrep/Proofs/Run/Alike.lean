/-
# The same lines in another place

What a logical line does depends on its file and its number only in the messages
that it leads to, in the definitions that it makes, and in the file that it asks for
or marks.  So two runs that differ in places only stay so: the works of the two are
alike (`Work.AlikeUpTo`), and a line that is carried out in both leaves them alike
(`Work.process_alike`).  The runs may differ in the numbers of their lines, or in the
files, too; in the second case the builtin for the current file must not be defined.
The line need not be made of the same physical lines, as long as it reads the same
(`LogicalLine.ReadsAs`).  The conditionals of one run may stand on top of others in
the other run, if these are active.  A file that is asked for is answered in the same
way (`Work.accept_alike`).  Either both runs are stopped, or both go on
(`EndsAlike`).
-/

import DevicetreePrep.Proofs.Branch.OnTop
import DevicetreePrep.Proofs.Diagnostic.Grouping
import DevicetreePrep.Proofs.Expansion.Places
import DevicetreePrep.Proofs.Run.Output

namespace DevicetreePrep

/-- Both computations are stopped, or both give results, and these are related. -/
inductive EndsAlike {α β : Type} (R : α → β → Prop) : Except Stopped α → Except Stopped β → Prop
  | stopped (e e' : Stopped) : EndsAlike R (.error e) (.error e')
  | ok {a : α} {b : β} (h : R a b) : EndsAlike R (.ok a) (.ok b)

/-- Related results that are taken further in related ways are related. -/
theorem EndsAlike.map {α β γ δ : Type} {R : α → β → Prop} {S : γ → δ → Prop}
    {x : Except Stopped α} {y : Except Stopped β} (h : EndsAlike R x y) {f : α → γ} {g : β → δ}
    (hfg : ∀ a b, R a b → S (f a) (g b)) : EndsAlike S (x.map f) (y.map g) := by
  cases h with
  | stopped e e' => exact .stopped e e'
  | ok h => exact .ok (hfg _ _ h)

/-- Related results that are worked on alike end alike. -/
theorem EndsAlike.bind {α β γ δ : Type} {R : α → β → Prop} {S : γ → δ → Prop}
    {x : Except Stopped α} {y : Except Stopped β} (h : EndsAlike R x y)
    {f : α → Except Stopped γ} {g : β → Except Stopped δ}
    (hfg : ∀ a b, x = .ok a → y = .ok b → R a b → EndsAlike S (f a) (g b)) :
    EndsAlike S (x.bind f) (y.bind g) := by
  cases h with
  | stopped e e' => exact .stopped e e'
  | ok h => exact hfg _ _ rfl rfl h

/-- Steps may be bound from the left or from the right. -/
theorem EndsAlike.of_bind_bind {α β γ δ : Type} {R : γ → δ → Prop} {x : Except Stopped α}
    {k : α → Except Stopped β} {k' : β → Except Stopped γ} {y : Except Stopped δ}
    (h : EndsAlike R (x.bind fun a => (k a).bind k') y) : EndsAlike R ((x.bind k).bind k') y := by
  cases x <;> exact h

/-- The codes of the diagnostics. -/
def Diagnostics.codes (s : Diagnostics) : List (Option String) :=
  s.toList.map Diagnostic.code

theorem Diagnostics.codes_push_perm (s : Diagnostics) (d : Diagnostic) :
    (s.push d).codes.Perm (d.code :: s.codes) :=
  (s.toList_push_perm d).map Diagnostic.code

/-- Two logical lines read the same, and their places differ as `δ` says. -/
structure LogicalLine.ReadsAs (δ : Difference) (l l' : LogicalLine) : Prop where
  masked : l.masked = l'.masked
  raw : l.raw = l'.raw
  /-- Both start as directives, or none does. -/
  starts : (Directive.ofLine? l.first.masked).isSome = (Directive.ofLine? l'.first.masked).isSome
  file : δ = .numbers → l.file = l'.file

/-- What is made of the same physical lines reads the same. -/
theorem LogicalLine.readsAs_of_parts {δ : Difference} {l l' : LogicalLine}
    (h : l.parts = l'.parts) (hfile : δ = .numbers → l.file = l'.file) : l.ReadsAs δ l' where
  masked := by rw [LogicalLine.masked, LogicalLine.masked, h]
  raw := by rw [LogicalLine.raw, LogicalLine.raw, h]
  starts := by rw [(List.cons.inj h).1]
  file := hfile

/-- Whether what a directive does depends on the file that it stands in. -/
def Directive.namesFile : Directive → Bool
  | .inclusion _ | .pragma _ => true
  | _ => false

/-- Whether a directive goes on with a conditional, or ends one. -/
def Directive.goesOn : Directive → Bool
  | .elseIf _ | .otherwise | .endIf => true
  | _ => false

namespace Work

/-- Two runs have brought about the same, up to a difference in places.  The problems
that were reported have the same codes. -/
structure AlikeUpTo (δ : Difference) (w w' : Work) : Prop where
  table : w.table.unplaced = w'.table.unplaced
  hides : w.table.Hides δ
  counter : w.counter = w'.counter
  output : w.output.map Line.text = w'.output.map Line.text
  once : w.once = w'.once
  codes : w.diagnostics.codes.Perm w'.diagnostics.codes

/-- Two runs have brought about the same, but for the places. -/
abbrev Alike : Work → Work → Prop :=
  AlikeUpTo .places

namespace AlikeUpTo

variable {δ : Difference} {w w' : Work} {l l' : LogicalLine}

theorem refl (h : w.table.Hides δ) : w.AlikeUpTo δ w :=
  ⟨rfl, h, rfl, rfl, rfl, .refl _⟩

theorem hides' (h : w.AlikeUpTo δ w') : w'.table.Hides δ := by
  rw [← Table.hides_unplaced, ← h.table, Table.hides_unplaced]
  exact h.hides

theorem contains_eq (h : w.AlikeUpTo δ w') (name : Text) :
    w.table.contains name = w'.table.contains name := by
  rw [← Table.contains_unplaced, h.table, Table.contains_unplaced]

/-- Something with the same code is reported in both runs. -/
theorem push (h : w.AlikeUpTo δ w') {d d' : Diagnostic} (hcode : d.code = d'.code) :
    (w.push d).AlikeUpTo δ (w'.push d') := by
  have hcons : (d.code :: w.diagnostics.codes).Perm (d'.code :: w'.diagnostics.codes) := by
    rw [hcode]
    exact h.codes.cons _
  refine { h with codes := ?_ }
  exact ((Diagnostics.codes_push_perm ..).trans hcons).trans (Diagnostics.codes_push_perm ..).symm

theorem complain (h : w.AlikeUpTo δ w') (l l' : LogicalLine) {p p' : Problem}
    (hcode : p.code = p'.code) : (w.complain l p).AlikeUpTo δ (w'.complain l' p') :=
  h.push (congrArg (fun code => some (Code.text code)) hcode)

/-- What keeps works alike for related things keeps them alike for related lists. -/
theorem foldl {α : Type} {R : α → α → Prop} {f g : Work → α → Work}
    (hfg : ∀ {w w' : Work} {a b : α}, R a b → w.AlikeUpTo δ w' → (f w a).AlikeUpTo δ (g w' b))
    (h : w.AlikeUpTo δ w') {as bs : List α} (hlists : List.Forall₂ R as bs) :
    (as.foldl f w).AlikeUpTo δ (bs.foldl g w') := by
  induction hlists generalizing w w' with
  | nil => exact h
  | cons hab _ ih => exact ih (hfg hab h)

/-- Problems are reported alike. -/
theorem complainAll (h : w.AlikeUpTo δ w') (l l' : LogicalLine) (ps : List Problem) :
    (w.complainAll l ps).AlikeUpTo δ (w'.complainAll l' ps) :=
  foldl (R := Eq) (fun hp hw => hw.complain l l' (congrArg Problem.code hp)) h
    (List.forall₂_refl ps)

/-- The ends of two files are reported, with as many conditionals left open, and a
comment or none. -/
theorem reportEnd (h : w.AlikeUpTo δ w') (file file' : String) {f f' : OpenFile}
    (hlength : f.branches.length = f'.branches.length) (hcomment : f.inComment = f'.inComment) :
    (w.reportEnd file f).AlikeUpTo δ (w'.reportEnd file' f') := by
  unfold Work.reportEnd Branches.unterminated
  rw [hcomment]
  have hreverse : f.branches.reverse.length = f'.branches.reverse.length := by
    rw [List.length_reverse, List.length_reverse, hlength]
  have hbranches := foldl (R := fun _ _ => True) (f := fun w (b : Branch) => w.push {
      stage := Stage.preprocessing.name, file, message := "Unterminated conditional block"
      line := b.line, column := some 1, code := some Code.unterminatedConditional.text })
    (g := fun w b => w.push {
      stage := Stage.preprocessing.name, file := file', message := "Unterminated conditional block"
      line := b.line, column := some 1, code := some Code.unterminatedConditional.text })
    (fun _ hw => hw.push rfl) h (List.forall₂_iff_zip.2 ⟨hreverse, fun _ => trivial⟩)
  split
  · exact hbranches.push rfl
  · exact hbranches

theorem withCounter (h : w.AlikeUpTo δ w') (n : Nat) :
    AlikeUpTo δ { w with counter := n } { w' with counter := n } :=
  { h with counter := rfl }

/-- Both runs expand in the same context, but for the places. -/
theorem exists_blurs (h : w.AlikeUpTo δ w') (hfile : δ = .numbers → l.file = l'.file) :
    ∃ ctx : Expansion.Context, ctx.Blurs (w.context l) ∧ ctx.Blurs (w'.context l') := by
  refine ⟨⟨w.table.unplaced, l.file, l.number⟩, ⟨rfl, absurd rfl, absurd rfl⟩,
    ⟨h.table, fun hne => ?_, fun _ => h.hides'.numbers⟩⟩
  cases δ with
  | numbers => exact absurd (hfile rfl) hne
  | places => exact h.hides'

/-- Tokens are expanded alike. -/
theorem expandTokens_eq (h : w.AlikeUpTo δ w') (hfile : δ = .numbers → l.file = l'.file)
    (ts : List Token) :
    expandTokens (w.context l) w.counter ts = expandTokens (w'.context l') w'.counter ts := by
  obtain ⟨ctx, hw, hw'⟩ := h.exists_blurs hfile
  rw [← expandTokens_blurred hw, ← expandTokens_blurred hw', h.counter]

/-- Conditions are evaluated alike. -/
theorem evaluate_eq (h : w.AlikeUpTo δ w') (hfile : δ = .numbers → l.file = l'.file)
    (ts : List Token) :
    Expression.evaluate (w.context l) w.counter ts =
      Expression.evaluate (w'.context l') w'.counter ts := by
  obtain ⟨ctx, hw, hw'⟩ := h.exists_blurs hfile
  rw [← Expression.evaluate_blurred hw, ← Expression.evaluate_blurred hw', h.counter]

/-- A line expands to the same in both runs, but for the places of the definitions
in its substitutions. -/
theorem expandLine_eq (h : w.AlikeUpTo δ w') (hfile : δ = .numbers → l.file = l'.file) (raw : Text)
    (ts : List Token) :
    let r := expandLine (w.context l) w.counter raw ts
    let r' := expandLine (w'.context l') w'.counter raw ts
    r.errors = r'.errors ∧ r.counter = r'.counter ∧
      r.subs.map Substitution.unplaced = r'.subs.map Substitution.unplaced := by
  obtain ⟨ctx, hw, hw'⟩ := h.exists_blurs hfile
  have heq := expandLine_blurred hw w.counter raw ts
  rw [h.counter, expandLine_blurred hw'] at heq
  rw [h.counter]
  simp only [ExpandedLine.mk.injEq] at heq
  exact ⟨heq.2.2.symm, heq.2.1.symm, heq.1.symm⟩

/-- **A line of text is put out with the same text.** -/
theorem emit (h : w.AlikeUpTo δ w') (hl : l.ReadsAs δ l') :
    (w.emit l).AlikeUpTo δ (w'.emit l') := by
  unfold Work.emit
  rw [hl.masked, hl.raw]
  have h₁ := foldl (R := Eq)
    (f := fun w (e : LexicalError) => w.reportAt .lexical l.file l.number e.problem)
    (g := fun w e => w.reportAt .lexical l'.file l'.number e.problem)
    (fun he hw => hw.push (by rw [he])) h (List.forall₂_refl (lexicalError? l'.masked).toList)
  dsimp only
  generalize List.foldl _ w _ = w₁ at h₁ ⊢
  generalize List.foldl _ w' _ = w₁' at h₁ ⊢
  obtain ⟨herrors, hcounter, hsubs⟩ := h₁.expandLine_eq hl.file l'.raw (tokenize l'.masked)
  rw [herrors, hcounter]
  have h₂ := foldl (R := Eq)
    (f := fun w (e : ExpansionError) => w.reportAt .preprocessing l.file l.number e.problem)
    (g := fun w e => w.reportAt .preprocessing l'.file l'.number e.problem)
    (fun he hw => hw.push (by rw [he]))
    (h₁.withCounter (expandLine (w₁'.context l') w₁'.counter l'.raw (tokenize l'.masked)).counter)
    (List.forall₂_refl
      (expandLine (w₁'.context l') w₁'.counter l'.raw (tokenize l'.masked)).errors)
  have htext (subs : List Substitution) :
      (Line.build l'.raw l'.masked l.number l.file subs).text =
        (Line.build l'.raw l'.masked l'.number l'.file subs).text := rfl
  refine { h₂ with output := congrArg₂ List.cons ?_ h₂.output }
  rw [htext, ← Line.text_build_unplaced, hsubs, Line.text_build_unplaced]

/-- **A condition has the same truth.** -/
theorem condition (h : w.AlikeUpTo δ w') (hfile : δ = .numbers → l.file = l'.file)
    (operand : Text) :
    EndsAlike (fun r r' => r.1 = r'.1 ∧ r.2.AlikeUpTo δ r'.2) (w.condition l operand)
      (w'.condition l' operand) := by
  unfold Work.condition
  rw [h.evaluate_eq hfile]
  split
  · exact .ok ⟨rfl, h.complain l l' rfl⟩
  · dsimp only
    split
    · exact .ok ⟨rfl, (h.withCounter _).complainAll l l' _⟩
    · exact .ok ⟨rfl, ((h.withCounter _).complain l l' rfl).complainAll l l' _⟩
    · exact .stopped _ _

/-- Conditions that are asked for have the same answer. -/
theorem conditionIf (h : w.AlikeUpTo δ w') (hfile : δ = .numbers → l.file = l'.file) (asked : Bool)
    (operand : Text) :
    EndsAlike (fun r r' => r.1 = r'.1 ∧ r.2.AlikeUpTo δ r'.2) (w.conditionIf asked l operand)
      (w'.conditionIf asked l' operand) := by
  cases asked with
  | false => exact .ok ⟨rfl, h⟩
  | true => exact h.condition hfile operand

/-- **A definition is added to both tables**, and displaces another one in both or
in none. -/
theorem define (h : w.AlikeUpTo δ w') (operand : Text) :
    (w.define l operand).AlikeUpTo δ (w'.define l' operand) := by
  unfold Work.define
  rcases Definition.read_elsewhere operand (some l.file) (some l'.file) (some l.number)
    (some l'.number) with ⟨e, hd, hd'⟩ | ⟨d, d', hd, hd', hunplaced⟩
  · rw [hd, hd']
    exact h.complain l l' rfl
  · have htable : AlikeUpTo δ { w with table := w.table.insert d }
        { w' with table := w'.table.insert d' } := by
      refine { h with table := ?_, hides := ?_ }
      · dsimp only
        rw [Table.unplaced_insert, Table.unplaced_insert, h.table, hunplaced]
      · exact h.hides.insert (Definition.shape_of_read hd)
    have hdisplaced : (w.table.displaced? d).map Definition.unplaced =
        (w'.table.displaced? d').map Definition.unplaced := by
      rw [← Table.displaced?_unplaced, ← Table.displaced?_unplaced, h.table, hunplaced]
    rw [hd, hd']
    dsimp only
    cases hp : w.table.displaced? d with
    | none =>
      rw [hp, Option.map_none] at hdisplaced
      rw [Option.map_eq_none_iff.1 hdisplaced.symm]
      exact htable
    | some p =>
      rw [hp, Option.map_some] at hdisplaced
      obtain ⟨p', hp', -⟩ := Option.map_eq_some_iff.1 hdisplaced.symm
      rw [hp']
      exact htable.complain l l' rfl

/-- An undefinition leaves both alike. -/
theorem undefine (h : w.AlikeUpTo δ w') (operand : Text) :
    (w.undefine l operand).AlikeUpTo δ (w'.undefine l' operand) := by
  unfold Work.undefine
  split
  · exact h.complain l l' rfl
  · rename_i name _
    refine { h with table := ?_, hides := h.hides.erase name }
    dsimp only
    rw [Table.unplaced_erase, Table.unplaced_erase, h.table]

/-- A pragma leaves both alike. -/
theorem pragma (h : w.AlikeUpTo δ w') (hfile : l.file = l'.file) (operand : Text) :
    (w.pragma l operand).AlikeUpTo δ (w'.pragma l' operand) := by
  unfold Work.pragma
  split
  · refine { h with once := ?_ }
    dsimp only
    rw [h.once, hfile]
  · exact h.complain l l' rfl

/-- **The same inclusion is asked for.** -/
theorem inclusion (h : w.AlikeUpTo δ w') (hfile : l.file = l'.file) (operand : Text) :
    (w.inclusion l operand).1.AlikeUpTo δ (w'.inclusion l' operand).1 ∧
      (w.inclusion l operand).2.map Request.inclusion =
        (w'.inclusion l' operand).2.map Request.inclusion := by
  unfold Work.inclusion
  dsimp only
  rw [h.expandTokens_eq fun _ => hfile]
  generalize expandTokens (w'.context l') w'.counter (tokenize (Text.trim operand)) = r
  split
  · exact ⟨h, by rw [Option.map_some, Option.map_some, hfile]⟩
  · have h₁ := (h.withCounter r.counter).complainAll l l' (r.errors.map ExpansionError.problem)
    split
    · exact ⟨h₁, by rw [Option.map_some, Option.map_some, hfile]⟩
    · exact ⟨h₁.complain l l' rfl, rfl⟩

/-- A directive that is none on conditionals is carried out alike. -/
theorem perform (h : w.AlikeUpTo δ w') {d : Directive}
    (hfile : d.namesFile = true → l.file = l'.file) :
    (w.perform l d).1.AlikeUpTo δ (w'.perform l' d).1 ∧
      (w.perform l d).2.map Request.inclusion = (w'.perform l' d).2.map Request.inclusion := by
  cases d with
  | define operand => exact ⟨h.define operand, rfl⟩
  | undefine operand => exact ⟨h.undefine operand, rfl⟩
  | inclusion operand => exact h.inclusion (hfile rfl) operand
  | pragma operand => exact ⟨h.pragma (hfile rfl) operand, rfl⟩
  | error operand => exact ⟨h.complain l l' rfl, rfl⟩
  | warning operand => exact ⟨h.complain l l' rfl, rfl⟩
  | nameless operand =>
    unfold Work.perform
    dsimp only
    split
    · exact ⟨h, rfl⟩
    · exact ⟨h.complain l l' rfl, rfl⟩
  | unknown name => exact ⟨h.complain l l' rfl, rfl⟩
  | _ => exact ⟨h, rfl⟩

end AlikeUpTo

theorem Alike.refl {w : Work} (h : w.table.IsPlaceFree) : w.Alike w :=
  AlikeUpTo.refl ((Table.hides_places _).2 h)

/-- What two runs have behind a line is alike: their works, the conditionals, which
in the second run are on top of `outer`, and the inclusion that is asked for. -/
structure LineAlike (δ : Difference) (outer : Branches)
    (r r' : Work × Branches × Option Request) : Prop where
  work : r.1.AlikeUpTo δ r'.1
  branches : Branches.OnTop outer r.2.1 r'.2.1
  request : r.2.2.map Request.inclusion = r'.2.2.map Request.inclusion

section

variable {δ : Difference} {outer bs bs' : Branches} {w w' : Work} {l l' : LogicalLine}

/-- A conditional on a name is opened in both runs. -/
theorem openNamed_alike (h : w.AlikeUpTo δ w') (hbs : Branches.OnTop outer bs bs')
    (houter : Branches.active outer = true) (directive : String) (operand : Text)
    {opened opened' : Bool → Branches}
    (hopened : ∀ b, Branches.OnTop outer (opened b) (opened' b)) :
    LineAlike δ outer
      ((w.openNamed bs l directive operand opened).1,
        (w.openNamed bs l directive operand opened).2, none)
      ((w'.openNamed bs' l' directive operand opened').1,
        (w'.openNamed bs' l' directive operand opened').2, none) := by
  unfold openNamed
  split
  · exact ⟨h.complain l l' rfl, hbs.opened houter _ _ _ _, rfl⟩
  · dsimp only
    rw [h.contains_eq]
    exact ⟨h, hopened _, rfl⟩

/-- An operation on conditionals fits in both runs or in none. -/
theorem settle_alike (h : w.AlikeUpTo δ w') (hbs : Branches.OnTop outer bs bs')
    (op : Branches → Except BranchError Branches) (hop : Branches.ActsOnTop op)
    (hnil : ∃ e, op [] = .error e) (hne : bs ≠ [] ∨ outer = []) :
    LineAlike δ outer ((w.settle bs l (op bs)).1, (w.settle bs l (op bs)).2, none)
      ((w'.settle bs' l' (op bs')).1, (w'.settle bs' l' (op bs')).2, none) := by
  rcases hop.onTop hnil hbs hne with ⟨e, e', he, he'⟩ | ⟨cs, cs', hok, hok', hcs⟩
  · rw [he, he']
    exact ⟨h.complain l l' rfl, hbs, rfl⟩
  · rw [hok, hok']
    exact ⟨h, hcs, rfl⟩

/-- **A directive is carried out alike.** -/
theorem direct_alike (h : w.AlikeUpTo δ w') (hbs : Branches.OnTop outer bs bs')
    (houter : Branches.active outer = true) (hplace : δ = .numbers → l.file = l'.file)
    {d : Directive} (hfile : d.namesFile = true → l.file = l'.file)
    (hne : d.goesOn = true → bs ≠ [] ∨ outer = []) :
    EndsAlike (LineAlike δ outer) (w.direct bs l d) (w'.direct bs' l' d) := by
  have hactive := hbs.active_eq houter
  cases hd : d.isConditional with
  | false =>
    rw [direct_of_not_isConditional hd, direct_of_not_isConditional hd, hactive]
    obtain ⟨hwork, hrequest⟩ := h.perform hfile
    split
    · exact .ok ⟨hwork, hbs, hrequest⟩
    · exact .ok ⟨h, hbs, rfl⟩
  | true =>
    cases d with
    | ifHolds operand =>
      rw [direct_ifHolds, direct_ifHolds, hactive]
      refine (h.conditionIf hplace _ operand).map fun r r' hr => ?_
      exact ⟨hr.2, by rw [hr.1]; exact hbs.opened houter _ _ _ _, rfl⟩
    | elseIf operand =>
      rw [direct_elseIf, direct_elseIf, hbs.asksCondition_eq (hne rfl)]
      refine (h.conditionIf hplace _ operand).map fun r r' hr => ?_
      rw [hr.1]
      exact settle_alike hr.2 hbs (Branches.nextBranch · r'.1) (Branches.actsOnTop_nextBranch r'.1)
        ⟨_, rfl⟩ (hne rfl)
    | ifDefined operand =>
      rw [direct_ifDefined, direct_ifDefined]
      exact .ok (openNamed_alike h hbs houter _ operand fun _ => hbs.opened houter _ _ _ _)
    | ifUndefined operand =>
      rw [direct_ifUndefined, direct_ifUndefined]
      exact .ok (openNamed_alike h hbs houter _ operand fun _ => hbs.opened houter _ _ _ _)
    | otherwise =>
      exact .ok (settle_alike h hbs Branches.lastBranch Branches.actsOnTop_lastBranch ⟨_, rfl⟩
        (hne rfl))
    | endIf =>
      exact .ok (settle_alike h hbs (fun bs => (Branches.close bs).map Prod.snd)
        Branches.actsOnTop_close ⟨_, rfl⟩ (hne rfl))
    | _ => cases hd

end
end Work

/-- The directive that physical lines make up: the first one starts it, and all of
them together are one. -/
def MaskedLine.directive? (parts : List MaskedLine) : Option Directive :=
  (parts.head?.bind fun p => Directive.ofLine? p.masked).bind fun _ =>
    Directive.ofLine? (PhysicalLine.join (parts.map MaskedLine.masked))

namespace Work

variable {δ : Difference} {outer bs bs' : Branches} {w w' : Work} {l l' : LogicalLine}

/-- **A logical line is carried out alike in two runs**, whatever its place is.  A
directive for which the file matters has to stand in the same file; one that goes on
with a conditional has to find one, unless nothing is below. -/
theorem process_alike (h : w.AlikeUpTo δ w') (hbs : Branches.OnTop outer bs bs')
    (houter : Branches.active outer = true) (hl : l.ReadsAs δ l')
    (hfile : ∀ d ∈ MaskedLine.directive? l.parts, d.namesFile = true → l.file = l'.file)
    (hne : ∀ d ∈ MaskedLine.directive? l.parts, d.goesOn = true → bs ≠ [] ∨ outer = []) :
    EndsAlike (LineAlike δ outer) (w.process bs l) (w'.process bs' l') := by
  have hstarts := hl.starts
  unfold process
  rw [← hl.masked, hbs.active_eq houter]
  cases hfirst : Directive.ofLine? l.first.masked with
  | none =>
    rw [hfirst] at hstarts
    rw [Option.isNone_iff_eq_none.1 (Option.isSome_eq_false_iff.1 hstarts.symm)]
    dsimp only
    split
    · exact .ok ⟨h.emit hl, hbs, rfl⟩
    · exact .ok ⟨h, hbs, rfl⟩
  | some d₀ =>
    rw [hfirst] at hstarts
    obtain ⟨d₀', hfirst'⟩ := Option.isSome_iff_exists.1 hstarts.symm
    rw [hfirst']
    cases hline : Directive.ofLine? l.masked with
    | none => exact .stopped _ _
    | some d =>
      have hd : MaskedLine.directive? l.parts = some d :=
        (congrArg (Option.bind · _) hfirst).trans hline
      exact direct_alike h hbs houter hl.file (hfile d hd) (hne d hd)

/-- **A request is answered alike** where the same files are open. -/
theorem accept_alike (h : w.AlikeUpTo δ w') (opened : List String) (r r' : Request)
    (answer : Resolution) :
    EndsAlike (fun a a' => a.1.AlikeUpTo δ a'.1 ∧ a.2 = a'.2) (w.accept opened r answer)
      (w'.accept opened r' answer) := by
  unfold accept
  cases answer with
  | broken e => exact .stopped _ _
  | failed e => exact .ok ⟨h.push rfl, rfl⟩
  | found g =>
    dsimp only
    rw [h.once]
    split
    · exact .ok ⟨h, rfl⟩
    · split
      · exact .ok ⟨h.push rfl, rfl⟩
      · split
        · exact .ok ⟨h.push rfl, rfl⟩
        · exact .ok ⟨{ h with once := rfl }, rfl⟩

end Work

/-- **What runs that end alike give**: a result or none; and the results have the same
texts of output, tables that differ in places only, the same counter, and diagnostics with
the same codes. -/
theorem EndsAlike.agree {δ : Difference} {x y : Except Stopped Work}
    (h : EndsAlike (Work.AlikeUpTo δ) x y) :
    ((∃ r, x.map Work.result = .ok r) ↔ ∃ r, y.map Work.result = .ok r) ∧
      ∀ r r', x.map Work.result = .ok r → y.map Work.result = .ok r' →
        r.lines.map Line.text = r'.lines.map Line.text ∧
        r.table.names = r'.table.names ∧
        List.Forall₂ (fun d e => d.sameAs e = true) r.table.entries r'.table.entries ∧
        r.counter = r'.counter ∧
        r.diagnostics.codes.Perm r'.diagnostics.codes := by
  cases h with
  | stopped e e' =>
    constructor
    · constructor <;> rintro ⟨r, hr⟩ <;> cases hr
    · intro r r' hr
      cases hr
  | @ok w w' h =>
    constructor
    · exact ⟨fun _ => ⟨_, rfl⟩, fun _ => ⟨_, rfl⟩⟩
    · intro r r' hr hr'
      obtain rfl := Except.ok.inj hr
      obtain rfl := Except.ok.inj hr'
      refine ⟨?_, ?_, Table.forall₂_sameAs h.table, h.counter, h.codes⟩
      · dsimp only [Work.result]
        rw [List.map_reverse, List.map_reverse, h.output]
      · dsimp only [Work.result]
        rw [← Table.names_unplaced, h.table, Table.names_unplaced]

end DevicetreePrep
