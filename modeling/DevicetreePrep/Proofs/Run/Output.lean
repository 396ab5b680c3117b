/-
# What a logical line can bring about

Most of what a run does is to report (`Work.Reports`): problems are added, numbers are
used up, and all else stays as it is.  Beside that, a logical line opens and closes
conditionals, puts out one line, changes the table, marks its file, or asks for another
file; and it does one of these things only (`Work.Effect`, `Work.effect_of_process`).

So a line is put out only by a logical line of text, and it is built from that logical
line (`Work.output_of_process`).  A file is brought in only by an answer that found it
(`Work.includes_of_accept`).
-/

import DevicetreePrep.Proofs.Run.Recursion

namespace DevicetreePrep

/-- Whether a directive is one on conditionals, which counts in every place. -/
def Directive.isConditional : Directive → Bool
  | .ifHolds _ | .ifDefined _ | .ifUndefined _ | .elseIf _ | .otherwise | .endIf => true
  | _ => false

namespace Work

/-- Nothing changes but the counter and the diagnostics. -/
def Reports (w w' : Work) : Prop :=
  ∃ n ds, w' = { w with counter := n, diagnostics := ds }

namespace Reports

variable {w w' w'' : Work}

theorem refl (w : Work) : Reports w w :=
  ⟨w.counter, w.diagnostics, rfl⟩

/-- In two such steps nothing but the counter and the diagnostics changes. -/
theorem trans (h : Reports w w') (h' : Reports w' w'') : Reports w w'' := by
  obtain ⟨n, ds, rfl⟩ := h
  obtain ⟨n', ds', rfl⟩ := h'
  exact ⟨n', ds', rfl⟩

/-- What only reports for each member of a list only reports for all. -/
theorem foldl {α : Type} {f : Work → α → Work} (hf : ∀ w a, Reports w (f w a)) (w : Work)
    (as : List α) : Reports w (as.foldl f w) := by
  induction as generalizing w with
  | nil => exact refl w
  | cons a as ih => exact (hf w a).trans (ih (f w a))

end Reports

/-- Nothing is put out, and no file is brought in. -/
structure Keeps (w w' : Work) : Prop where
  output : w'.output = w.output
  includes : w'.includes = w.includes

variable {w w' : Work} {bs bs' : Branches} {l : LogicalLine}

theorem Reports.keeps (h : Reports w w') : Keeps w w' := by
  obtain ⟨n, ds, rfl⟩ := h
  exact ⟨rfl, rfl⟩

theorem reports_push (w : Work) (d : Diagnostic) : Reports w (w.push d) :=
  ⟨w.counter, w.diagnostics.push d, rfl⟩

theorem reports_counter (w : Work) (n : Nat) : Reports w { w with counter := n } :=
  ⟨n, w.diagnostics, rfl⟩

theorem reports_complain (w : Work) (l : LogicalLine) (p : Problem) :
    Reports w (w.complain l p) :=
  reports_push w _

theorem reports_complainAll (w : Work) (l : LogicalLine) (ps : List Problem) :
    Reports w (w.complainAll l ps) :=
  Reports.foldl (fun w p => reports_complain w l p) w ps

/-- The end of a file is only reported. -/
theorem reports_reportEnd (w : Work) (file : String) (f : OpenFile) :
    Reports w (w.reportEnd file f) := by
  have hbranches := Reports.foldl (fun w (b : Branch) => reports_push w {
      stage := Stage.preprocessing.name, file, message := "Unterminated conditional block"
      line := b.line, column := some 1, code := some Code.unterminatedConditional.text }) w
    (Branches.unterminated f.branches)
  rw [reportEnd]
  split
  · exact hbranches.trans (reports_push _ _)
  · exact hbranches

/-- A condition changes nothing but the counter and the diagnostics. -/
theorem reports_of_condition {operand : Text} {holds : Bool}
    (h : w.condition l operand = .ok (holds, w')) : Reports w w' := by
  unfold condition at h
  split at h
  · obtain ⟨-, rfl⟩ := Prod.mk.inj (Except.ok.inj h)
    exact reports_complain ..
  · dsimp only at h
    split at h
    · obtain ⟨-, rfl⟩ := Prod.mk.inj (Except.ok.inj h)
      exact (reports_counter w _).trans (reports_complainAll ..)
    · obtain ⟨-, rfl⟩ := Prod.mk.inj (Except.ok.inj h)
      exact (reports_counter w _).trans ((reports_complain ..).trans (reports_complainAll ..))
    · cases h

/-- To ask for a file is only reported, too: it is still to be found. -/
theorem reports_inclusion (w : Work) (l : LogicalLine) (operand : Text) :
    Reports w (w.inclusion l operand).1 := by
  unfold inclusion
  dsimp only
  split
  · exact Reports.refl w
  · split
    · exact (reports_counter w _).trans (reports_complainAll ..)
    · exact ((reports_counter w _).trans (reports_complainAll ..)).trans (reports_complain ..)

/-- A conditional on a name changes nothing but the counter and the diagnostics. -/
theorem reports_openNamed (w : Work) (bs : Branches) (l : LogicalLine) (directive : String)
    (operand : Text) (opened : Bool → Branches) :
    Reports w (w.openNamed bs l directive operand opened).1 := by
  unfold openNamed
  split
  · exact reports_complain ..
  · exact Reports.refl w

/-- Settling a conditional changes nothing but the counter and the diagnostics. -/
theorem reports_settle (w : Work) (bs : Branches) (l : LogicalLine)
    (r : Except BranchError Branches) : Reports w (w.settle bs l r).1 := by
  unfold settle
  split
  · exact Reports.refl w
  · exact reports_complain ..

/-- The truth of a condition, which counts as false unless it is asked for. -/
def conditionIf (w : Work) (asked : Bool) (l : LogicalLine) (operand : Text) :
    Except Stopped (Bool × Work) :=
  if asked then w.condition l operand else .ok (false, w)

/-- What an opening condition does: it asks, and opens a conditional by the answer. -/
theorem direct_ifHolds (w : Work) (bs : Branches) (l : LogicalLine) (operand : Text) :
    w.direct bs l (.ifHolds operand) =
      (w.conditionIf (Branches.active bs) l operand).map fun r =>
        (r.2, Branches.openIf bs r.1 (some l.number), none) := by
  simp only [direct, conditionIf, bind, Except.bind]
  cases Branches.active bs <;> cases w.condition l operand <;> rfl

/-- What a further condition does: it asks, and goes to the next branch by the answer. -/
theorem direct_elseIf (w : Work) (bs : Branches) (l : LogicalLine) (operand : Text) :
    w.direct bs l (.elseIf operand) =
      (w.conditionIf (Branches.asksCondition bs) l operand).map fun r =>
        ((r.2.settle bs l (Branches.nextBranch bs r.1)).1,
          (r.2.settle bs l (Branches.nextBranch bs r.1)).2, none) := by
  simp only [direct, conditionIf, bind, Except.bind]
  cases Branches.asksCondition bs <;> cases w.condition l operand <;> rfl

/-- What a condition on a defined name does: it opens a conditional. -/
theorem direct_ifDefined (w : Work) (bs : Branches) (l : LogicalLine) (operand : Text) :
    w.direct bs l (.ifDefined operand) =
      .ok ((w.openNamed bs l "ifdef" operand (Branches.openIfDefined bs · (some l.number))).1,
        (w.openNamed bs l "ifdef" operand (Branches.openIfDefined bs · (some l.number))).2, none) :=
  rfl

/-- What a condition on an undefined name does: it opens a conditional. -/
theorem direct_ifUndefined (w : Work) (bs : Branches) (l : LogicalLine) (operand : Text) :
    w.direct bs l (.ifUndefined operand) =
      .ok ((w.openNamed bs l "ifndef" operand (Branches.openIfUndefined bs · (some l.number))).1,
        (w.openNamed bs l "ifndef" operand (Branches.openIfUndefined bs · (some l.number))).2,
        none) :=
  rfl

/-- A directive that is none on conditionals is carried out in an active place. -/
theorem direct_of_not_isConditional {d : Directive} (h : d.isConditional = false) (w : Work)
    (bs : Branches) (l : LogicalLine) :
    w.direct bs l d =
      .ok (if Branches.active bs then ((w.perform l d).1, bs, (w.perform l d).2)
        else (w, bs, none)) := by
  cases d with
  | ifHolds | ifDefined | ifUndefined | elseIf | otherwise | endIf => cases h
  | _ => cases hb : Branches.active bs <;> simp [direct, hb, pure, Except.pure]

/-- A condition that may not be asked for changes nothing but the counter and the diagnostics. -/
theorem reports_of_conditionIf {asked : Bool} {operand : Text} {r : Bool × Work}
    (h : w.conditionIf asked l operand = .ok r) : Reports w r.2 := by
  cases asked with
  | false =>
    obtain rfl := Except.ok.inj h
    exact Reports.refl w
  | true => exact reports_of_condition h

/-- What a logical line can bring about: the work behind it, the conditionals, and the
file that it asks for. -/
inductive Effect (w : Work) (bs : Branches) (l : LogicalLine) :
    Work × Branches × Option Request → Prop
  /-- The conditionals change, if anything. -/
  | branches {w' : Work} {bs' : Branches} (h : Reports w w') : Effect w bs l (w', bs', none)
  /-- A line is put out. -/
  | text {w' : Work} (subs : List Substitution) (h : Reports w w') :
      Effect w bs l
        ({ w' with output := Line.build l.raw l.masked l.number l.file subs :: w'.output }, bs, none)
  | table {w' : Work} (table : Table) (h : Reports { w with table } w') :
      Effect w bs l (w', bs, none)
  /-- The file of the line is marked. -/
  | once : Effect w bs l
      ({ w with once := if w.once.contains l.file then w.once else l.file :: w.once }, bs, none)
  | request {w' : Work} (r : Request) (h : Reports w w') : Effect w bs l (w', bs, some r)

/-- A definition changes the table and reports. -/
theorem effect_define (w : Work) (bs : Branches) (l : LogicalLine) (operand : Text) :
    Effect w bs l (w.define l operand, bs, none) := by
  unfold define
  split
  · exact .branches (reports_complain ..)
  · dsimp only
    split
    · exact .table _ (Reports.refl _)
    · exact .table _ (reports_complain ..)

/-- An undefinition changes the table and reports. -/
theorem effect_undefine (w : Work) (bs : Branches) (l : LogicalLine) (operand : Text) :
    Effect w bs l (w.undefine l operand, bs, none) := by
  unfold undefine
  split
  · exact .branches (reports_complain ..)
  · exact .table _ (Reports.refl _)

/-- A pragma marks a file and reports. -/
theorem effect_pragma (w : Work) (bs : Branches) (l : LogicalLine) (operand : Text) :
    Effect w bs l (w.pragma l operand, bs, none) := by
  unfold pragma
  split
  · exact .once
  · exact .branches (reports_complain ..)

/-- An inclusion makes a request, or reports. -/
theorem effect_inclusion (w : Work) (bs : Branches) (l : LogicalLine) (operand : Text) :
    Effect w bs l ((w.inclusion l operand).1, bs, (w.inclusion l operand).2) := by
  have hreports := w.reports_inclusion l operand
  cases (w.inclusion l operand).2 with
  | none => exact .branches hreports
  | some r => exact .request r hreports

/-- A directive that acts in an active place has one of the effects. -/
theorem effect_perform (w : Work) (bs : Branches) (l : LogicalLine) (d : Directive) :
    Effect w bs l ((w.perform l d).1, bs, (w.perform l d).2) := by
  cases d with
  | define operand => exact effect_define w bs l operand
  | undefine operand => exact effect_undefine w bs l operand
  | inclusion operand => exact effect_inclusion w bs l operand
  | pragma operand => exact effect_pragma w bs l operand
  | error operand => exact .branches (reports_complain ..)
  | warning operand => exact .branches (reports_complain ..)
  | nameless operand =>
    unfold perform
    dsimp only
    split
    · exact .branches (Reports.refl w)
    · exact .branches (reports_complain ..)
  | unknown name => exact .branches (reports_complain ..)
  | _ => exact .branches (Reports.refl w)

/-- **Every directive has one of the effects.** -/
theorem effect_of_direct {d : Directive} {r : Work × Branches × Option Request}
    (h : w.direct bs l d = .ok r) : Effect w bs l r := by
  cases hd : d.isConditional with
  | false =>
    rw [direct_of_not_isConditional hd] at h
    obtain rfl := Except.ok.inj h
    split
    · exact effect_perform w bs l d
    · exact .branches (Reports.refl w)
  | true =>
    cases d with
    | ifHolds operand =>
      rw [direct_ifHolds] at h
      cases hc : w.conditionIf (Branches.active bs) l operand with
      | error e => rw [hc] at h; cases h
      | ok p =>
        rw [hc] at h
        obtain rfl := Except.ok.inj h
        exact .branches (reports_of_conditionIf hc)
    | elseIf operand =>
      rw [direct_elseIf] at h
      cases hc : w.conditionIf (Branches.asksCondition bs) l operand with
      | error e => rw [hc] at h; cases h
      | ok p =>
        rw [hc] at h
        obtain rfl := Except.ok.inj h
        exact .branches ((reports_of_conditionIf hc).trans (reports_settle ..))
    | ifDefined operand =>
      rw [direct_ifDefined] at h
      obtain rfl := Except.ok.inj h
      exact .branches (reports_openNamed ..)
    | ifUndefined operand =>
      rw [direct_ifUndefined] at h
      obtain rfl := Except.ok.inj h
      exact .branches (reports_openNamed ..)
    | otherwise =>
      obtain rfl := Except.ok.inj h
      exact .branches (reports_settle w bs l _)
    | endIf =>
      obtain rfl := Except.ok.inj h
      exact .branches (reports_settle w bs l _)
    | _ => cases hd

/-- A line of text is put out, and all else is only reported. -/
theorem exists_emit_eq (w : Work) (l : LogicalLine) :
    ∃ subs w', Reports w w' ∧ w.emit l =
      { w' with output := Line.build l.raw l.masked l.number l.file subs :: w'.output } := by
  have hreport (w : Work) (stage : Stage) (p : Problem) :
      Reports w (w.reportAt stage l.file l.number p) := reports_push w _
  have hlexical := Reports.foldl (fun w (e : LexicalError) => hreport w .lexical e.problem) w
    (lexicalError? l.masked).toList
  have hexpanded (w : Work) (es : List ExpansionError) :=
    Reports.foldl (fun w e => hreport w .preprocessing (ExpansionError.problem e)) w es
  exact ⟨_, _, (hlexical.trans (reports_counter _ _)).trans (hexpanded _ _), rfl⟩

/-- What a logical line of text puts out is built from it. -/
theorem output_emit (w : Work) (l : LogicalLine) :
    (∃ subs, (w.emit l).output =
        Line.build l.raw l.masked l.number l.file subs :: w.output) ∧
      (w.emit l).includes = w.includes := by
  obtain ⟨subs, w', hreports, hemit⟩ := w.exists_emit_eq l
  rw [hemit]
  exact ⟨⟨subs, congrArg (List.cons _) hreports.keeps.output⟩, hreports.keeps.includes⟩

/-- **A logical line has one of these effects.** -/
theorem effect_of_process {r : Work × Branches × Option Request}
    (h : w.process bs l = .ok r) : Effect w bs l r := by
  unfold process at h
  split at h
  · split at h
    · obtain rfl := Except.ok.inj h
      obtain ⟨subs, w', hreports, hemit⟩ := w.exists_emit_eq l
      rw [hemit]
      exact .text subs hreports
    · obtain rfl := Except.ok.inj h
      exact .branches (Reports.refl w)
  · split at h
    · cases h
    · exact effect_of_direct h

/-- **A logical line puts out nothing, or one line that is built from it.** -/
theorem output_of_process {r : Option Request} (h : w.process bs l = .ok (w', bs', r)) :
    w'.includes = w.includes ∧ (w'.output = w.output ∨
      ∃ subs, w'.output = Line.build l.raw l.masked l.number l.file subs :: w.output) := by
  cases effect_of_process h with
  | branches hreports => exact ⟨hreports.keeps.includes, .inl hreports.keeps.output⟩
  | text subs hreports =>
    exact ⟨hreports.keeps.includes, .inr ⟨subs, congrArg (List.cons _) hreports.keeps.output⟩⟩
  | table table hreports => exact ⟨hreports.keeps.includes, .inl hreports.keeps.output⟩
  | once => exact ⟨rfl, .inl rfl⟩
  | request r hreports => exact ⟨hreports.keeps.includes, .inl hreports.keeps.output⟩

/-- **A file is brought in only by an answer that found it.** -/
theorem includes_of_accept {opened : List String} {r : Request} {answer : Resolution}
    {g : Option IncludedFile} (h : w.accept opened r answer = .ok (w', g)) :
    w'.output = w.output ∧ w'.includes = (g.map IncludedFile.file).toList ++ w.includes ∧
      ∀ g' ∈ g, answer = .found g' := by
  unfold accept at h
  dsimp only at h
  repeat' split at h
  all_goals
    first
    | cases h; done
    | obtain ⟨rfl, rfl⟩ := Prod.mk.inj (Except.ok.inj h)
      exact ⟨rfl, rfl, by simp⟩

end Work
end DevicetreePrep
