/-
# Where a run breaks off

Whatever is wrong with a source is reported, and the run goes on to its end.  With
files from a list there are two exceptions.  A line that starts as a directive may
be continued so that the whole of it reads as a property; and a condition that is
asked for may hold a number that cannot be handled.  `preprocess_eq_ok_iff` says
that there are no others: a run gives a result exactly if it comes to no line of
these two kinds.

Which numbers these are is seen on the tokens of the condition, after expansion
(`Work.overruns_iff`): a decimal constant with too many digits, or an integer beyond
the doubles that meets a double in arithmetic.

A limit on the depth of recursion, such as interpreters have, is not modelled.  Here an
operand may stand in any number of brackets; under such a limit a condition in a hundred
brackets can break a run off, too, and the statements of this module leave that out.

One step is looked at first (`State.step_eq_error_iff`): it fails where the line at
the front of the queue is of one of the two kinds.  That the continued line is a
property, and not something else that is no directive, holds because the backslash
that continues a directive stands behind the hash sign (`trimLeft_masked`).
-/

import DevicetreePrep.Proofs.Expression.Overrun
import DevicetreePrep.Proofs.PhysicalLine.Continuation
import DevicetreePrep.Proofs.Run.LogicalLine

namespace DevicetreePrep

/-- A directive starts with a hash sign. -/
theorem Directive.exists_of_ofLine? {line : Text} (h : (ofLine? line).isSome) :
    ∃ cs, Text.trimLeft line = '#' :: cs := by
  unfold ofLine? at h
  split at h
  · exact ⟨_, ‹_›⟩
  · cases h

/-- A line that starts with a hash sign is no directive if it is a property. -/
theorem Directive.ofLine?_eq_none_iff {line cs : Text} (h : Text.trimLeft line = '#' :: cs) :
    ofLine? line = none ↔ isProperty cs := by
  rw [ofLine?, h]
  cases hp : isProperty cs with
  | true => simp [hp]
  | false =>
    simp only [hp, Bool.false_eq_true, if_false, iff_false]
    cases Text.name? (Text.trimLeft cs) <;> simp

/-- A hash sign at the front of a text stays there if the text is cut behind it. -/
theorem Text.trimLeft_append_of_hash {front rest cs : Text}
    (h : trimLeft (front ++ '\\' :: rest) = '#' :: cs) (text : Text) :
    ∃ cs, trimLeft (front ++ text) = '#' :: cs := by
  rw [trimLeft, List.dropWhile_append] at h
  split at h
  · rw [List.dropWhile_cons_of_neg (by rw [PhysicalLine.not_isBlank_backslash]; simp)] at h
    exact absurd (List.cons.inj h).1 (by decide)
  · rename_i hfront
    cases hd : front.dropWhile isBlank with
    | nil => rw [hd] at hfront; exact absurd rfl hfront
    | cons c tail =>
      rw [hd, List.cons_append] at h
      rw [trimLeft, List.dropWhile_append, hd, (List.cons.inj h).1]
      exact ⟨tail ++ text, rfl⟩

namespace LogicalLine

/-- The line starts as a directive, but is a property as a whole. -/
def TurnsProperty (l : LogicalLine) : Prop :=
  (Directive.ofLine? l.first.masked).isSome ∧
    ∃ cs, Text.trimLeft l.masked = '#' :: cs ∧ Directive.isProperty cs = true

/-- The line is a directive with a condition that is asked for while `bs` is open. -/
def Asks (l : LogicalLine) (bs : Branches) (operand : Text) : Prop :=
  (Directive.ofLine? l.first.masked).isSome ∧ Text.isAllBlank operand = false ∧
    (Directive.ofLine? l.masked = some (.ifHolds operand) ∧ Branches.active bs = true ∨
      Directive.ofLine? l.masked = some (.elseIf operand) ∧ Branches.asksCondition bs = true)

/-- A logical line that starts with a hash sign starts so as a whole. -/
theorem trimLeft_masked {l : LogicalLine} (hl : l.IsChained) {cs : Text}
    (h : Text.trimLeft l.first.masked = '#' :: cs) : ∃ cs, Text.trimLeft l.masked = '#' :: cs := by
  obtain ⟨file, number, first, more⟩ := l
  cases more with
  | nil => exact ⟨cs, h⟩
  | cons p ps =>
    have hc : PhysicalLine.isContinued first.masked = true :=
      hl first (by rw [parts, List.dropLast_cons_cons]; exact List.mem_cons_self ..)
    obtain ⟨front, blanks, hfirst, hblanks⟩ := PhysicalLine.exists_of_isContinued hc
    have hcut : PhysicalLine.cutContinued first.masked first.masked = front := by
      rw [hfirst, PhysicalLine.cutContinued_of_blanks hblanks, List.take_left']
      rfl
    dsimp only at h
    rw [hfirst] at h
    rw [masked, PhysicalLine.join, parts, List.map_cons, List.map_cons, List.map_cons,
      List.map_cons, PhysicalLine.splice, hcut]
    · exact Text.trimLeft_append_of_hash h _
    · exact List.cons_ne_nil _ _

/-- A line that starts as a directive is none as a whole if it is a property. -/
theorem turnsProperty_iff {l : LogicalLine} (hl : l.IsChained) :
    l.TurnsProperty ↔
      (Directive.ofLine? l.first.masked).isSome ∧ Directive.ofLine? l.masked = none := by
  constructor
  · rintro ⟨hfirst, cs, hcs, hp⟩
    exact ⟨hfirst, (Directive.ofLine?_eq_none_iff hcs).2 hp⟩
  · rintro ⟨hfirst, hnone⟩
    obtain ⟨cs, hcs⟩ := Directive.exists_of_ofLine? hfirst
    obtain ⟨cs, hcs⟩ := trimLeft_masked hl hcs
    exact ⟨hfirst, cs, hcs, (Directive.ofLine?_eq_none_iff hcs).1 hnone⟩

end LogicalLine

namespace Work

/-- The condition holds a number that cannot be handled. -/
def Overruns (w : Work) (l : LogicalLine) (operand : Text) : Prop :=
  ∃ o, (Expression.evaluate (w.context l) w.counter (tokenize operand)).result =
    .error (.overrun o)

/-- The tokens that a condition is read from: the expanded ones, without white space.
There are none where a question whether a name is defined has no name. -/
def conditionTokens? (w : Work) (l : LogicalLine) (operand : Text) : Option (List Token) :=
  match Expression.answerDefined w.table (tokenize operand) with
  | .error _ => none
  | .ok ts =>
    some ((expandTokens (w.context l) w.counter ts).tokens.filter fun t => !t.isWhite)

/-- A condition is evaluated by its tokens. -/
theorem overruns_iff_eval {w : Work} {l : LogicalLine} {operand : Text} :
    w.Overruns l operand ↔ ∃ ts, w.conditionTokens? l operand = some ts ∧
      ∃ o, (Expr.read ts).eval false = .error (.overrun o) := by
  unfold Overruns conditionTokens? Expression.evaluate
  dsimp only [context]
  cases Expression.answerDefined w.table (tokenize operand) <;> simp

/-- **The numbers that cannot be handled.**  A condition holds one exactly if evaluation
comes to a decimal constant with too many digits, or to an operation on a double and an
integer beyond the doubles. -/
theorem overruns_iff (w : Work) (l : LogicalLine) (operand : Text) :
    w.Overruns l operand ↔ ∃ ts, w.conditionTokens? l operand = some ts ∧
      ((∃ t ∈ ts, ∃ n d, t.IsDecimal n ∧ digitLimit < n ∧
          Expr.Comes false (Expr.read ts) d (Expr.operandOf t)) ∨
        ∃ d p, Expr.Comes false (Expr.read ts) d p ∧ p.MeetsDouble d) := by
  simp only [overruns_iff_eval, Expr.eval_read_eq_overrun_iff]
  constructor
  · rintro ⟨ts, hts, o, ⟨t, ht, n, d, hdecimal, hlong, -, hcomes⟩ | ⟨-, hmeets⟩⟩
    · exact ⟨ts, hts, .inl ⟨t, ht, n, d, hdecimal, hlong, hcomes⟩⟩
    · exact ⟨ts, hts, .inr hmeets⟩
  · rintro ⟨ts, hts, ⟨t, ht, n, d, hdecimal, hlong, hcomes⟩ | hmeets⟩
    · exact ⟨ts, hts, _, .inl ⟨t, ht, n, d, hdecimal, hlong, rfl, hcomes⟩⟩
    · exact ⟨ts, hts, _, .inr ⟨rfl, hmeets⟩⟩

/-- **A condition without such a constant ends no run**: it takes a decimal constant that is
too long, or a floating constant. -/
theorem exists_number_of_overruns {w : Work} {l : LogicalLine} {operand : Text}
    (h : w.Overruns l operand) :
    ∃ ts, w.conditionTokens? l operand = some ts ∧ ∃ t ∈ ts,
      (∃ n, t.IsDecimal n ∧ digitLimit < n) ∨ ∃ x, Expr.operandOf t = .literal (.float x) := by
  obtain ⟨ts, hts, o, ho⟩ := overruns_iff_eval.1 h
  exact ⟨ts, hts, Expr.exists_number_of_overrun ho⟩

/-- A condition that is not blank fails where it holds a number that cannot be handled. -/
theorem condition_eq_error_iff (w : Work) (l : LogicalLine) (operand : Text) :
    (∃ stopped, w.condition l operand = .error stopped) ↔
      Text.isAllBlank operand = false ∧ w.Overruns l operand := by
  unfold condition Overruns
  cases hblank : Text.isAllBlank operand with
  | true => simp
  | false =>
    simp only [Bool.false_eq_true, if_false, true_and]
    split <;> rename_i hr <;> simp [hr]

/-- A directive fails where it asks for a condition with a number that cannot be
handled. -/
theorem direct_eq_error_iff (w : Work) (bs : Branches) (l : LogicalLine) (d : Directive) :
    (∃ stopped, w.direct bs l d = .error stopped) ↔
      ∃ operand, (d = .ifHolds operand ∧ Branches.active bs = true ∨
        d = .elseIf operand ∧ Branches.asksCondition bs = true) ∧
        ∃ stopped, w.condition l operand = .error stopped := by
  cases d with
  | ifHolds operand =>
    cases hb : Branches.active bs <;> cases hc : w.condition l operand <;>
      simp [direct, hb, hc, bind, Except.bind, pure, Except.pure]
  | elseIf operand =>
    cases hb : Branches.asksCondition bs <;> cases hc : w.condition l operand <;>
      simp [direct, hb, hc, bind, Except.bind, pure, Except.pure]
  | ifDefined | ifUndefined | otherwise | endIf => simp [direct, pure, Except.pure]
  | _ => cases hb : Branches.active bs <;> simp [direct, hb, pure, Except.pure]

/-- **A logical line fails if it turns into a property, or asks for a condition with
a number that cannot be handled.** -/
theorem process_eq_error_iff (w : Work) (bs : Branches) {l : LogicalLine} (hl : l.IsChained) :
    (∃ stopped, w.process bs l = .error stopped) ↔
      l.TurnsProperty ∨ ∃ operand, l.Asks bs operand ∧ w.Overruns l operand := by
  rw [LogicalLine.turnsProperty_iff hl]
  unfold process LogicalLine.Asks
  cases hfirst : Directive.ofLine? l.first.masked with
  | none =>
    dsimp only
    split <;> simp
  | some d =>
    cases hline : Directive.ofLine? l.masked with
    | none => simp
    | some d =>
      simp only [direct_eq_error_iff, condition_eq_error_iff, Option.isSome_some, true_and,
        reduceCtorEq, and_false, false_or, Option.some.injEq]
      constructor
      · rintro ⟨operand, hasks, hblank, hover⟩
        exact ⟨operand, ⟨hblank, hasks⟩, hover⟩
      · rintro ⟨operand, ⟨hblank, hasks⟩, hover⟩
        exact ⟨operand, hasks, hblank, hover⟩

end Work

/-- Every inclusion is answered by a file or by the reason why there is none: the system
does not fail. -/
def Resolver.IsTotal (resolve : Resolver) : Prop :=
  ∀ i e, resolve i ≠ .broken e

/-- A list of files answers every inclusion. -/
theorem Resolver.isTotal_ofList (files : List (String × Text)) : (ofList files).IsTotal := by
  intro i e
  unfold ofList
  split <;> exact Resolution.noConfusion

namespace State

/-- The line at the front of the queue turns into a property, or asks for a
condition with a number that cannot be handled. -/
def Breaks (s : State) : Prop :=
  ∃ l q f fs, s.queue = .line l :: q ∧ s.files = f :: fs ∧
    ((f.logicalLine l q).1.TurnsProperty ∨
      ∃ operand, (f.logicalLine l q).1.Asks (f.logicalLine l q).2.1.branches operand ∧
        s.work.Overruns (f.logicalLine l q).1 operand)

/-- What comes next fails only at a line. -/
theorem next_eq_error_iff (s : State) : (∃ stopped, s.next = .error stopped) ↔ s.Breaks := by
  obtain ⟨queue, files, w⟩ := s
  unfold Breaks
  match queue, files with
  | [], files => simp [next]
  | .line l :: q, [] => simp [next]
  | .close file :: q, [] => simp [next]
  | .close file :: q, f :: fs => simp [next]
  | .line l :: q, f :: fs =>
    have hprocess := w.process_eq_error_iff (f.logicalLine l q).2.1.branches
      (f.isChained_logicalLine l q)
    rw [next_line]
    constructor
    · rintro ⟨stopped, h⟩
      refine ⟨l, q, f, fs, rfl, rfl, hprocess.1 ?_⟩
      cases hw : w.process (f.logicalLine l q).2.1.branches (f.logicalLine l q).1 with
      | error e => exact ⟨e, rfl⟩
      | ok r => rw [hw] at h; cases h
    · rintro ⟨l', q', f', fs', hq, hf, h⟩
      obtain ⟨hl, rfl⟩ := List.cons.inj hq
      obtain rfl := Pending.line.inj hl
      obtain ⟨rfl, -⟩ := List.cons.inj hf
      obtain ⟨stopped, hstopped⟩ := hprocess.2 h
      exact ⟨stopped, by rw [hstopped]; rfl⟩

/-- An answer is taken in, unless the system failed. -/
theorem exists_receive {answer : Resolution} (h : ∀ e, answer ≠ .broken e) (s : State)
    (r : Request) : ∃ t, s.receive r answer = .ok t := by
  unfold receive
  cases answer with
  | broken e => exact absurd rfl (h e)
  | failed e => exact ⟨_, rfl⟩
  | found g =>
    dsimp only
    repeat' split
    all_goals exact ⟨_, rfl⟩

/-- **A step fails where the line at the front of the queue is one of the two
kinds**, if every inclusion is answered. -/
theorem step_eq_error_iff_of_isTotal {resolve : Resolver} (h : resolve.IsTotal) (s : State) :
    (∃ stopped, s.step resolve = .error stopped) ↔ s.Breaks := by
  rw [← next_eq_error_iff]
  unfold step
  cases s.next with
  | error e => simp [bind, Except.bind]
  | ok p =>
    obtain ⟨t, r | r⟩ := p
    · simp [bind, Except.bind, pure, Except.pure]
    · obtain ⟨u, hu⟩ := exists_receive (h r.inclusion) t r
      simp [bind, Except.bind, hu]

/-- Over a list of files a step fails at a line of one of the two kinds. -/
theorem step_eq_error_iff (files : List (String × Text)) (s : State) :
    (∃ stopped, s.step (Resolver.ofList files) = .error stopped) ↔ s.Breaks :=
  step_eq_error_iff_of_isTotal (Resolver.isTotal_ofList files) s

variable {resolve : Resolver} {s t : State}

/-- A run gives what it gives from any state on its way. -/
theorem Reaches.run_eq (h : Reaches resolve s t) : s.run resolve = t.run resolve := by
  induction h with
  | refl => rfl
  | @tail u v _ hstep ih =>
    rw [ih]
    by_cases hu : u.queue = []
    · rw [step_of_queue_eq_nil hu] at hstep
      rw [Except.ok.inj hstep]
    · rw [run_eq_bind_step hu, hstep]
      rfl

/-- **A run gives a result exactly if no step on its way fails.** -/
theorem run_eq_ok_iff (s : State) :
    (∃ r, s.run resolve = .ok r) ↔
      ∀ t, Reaches resolve s t → ¬∃ stopped, t.step resolve = .error stopped := by
  constructor
  · rintro ⟨r, hr⟩ t ht ⟨stopped, hstopped⟩
    have hqueue : t.queue ≠ [] := by
      intro hq
      rw [step_of_queue_eq_nil hq] at hstopped
      cases hstopped
    rw [ht.run_eq, run_eq_bind_step hqueue, hstopped] at hr
    cases hr
  · intro h
    fun_induction State.run resolve s with
    | case1 s _ => exact ⟨_, rfl⟩
    | case2 s _ stopped hstep => exact absurd ⟨stopped, hstep⟩ (h s .refl)
    | case3 s _ t hstep ih => exact ih fun u hu => h u (.head hstep hu)

end State

/-- **A run over a list of files breaks off only at a directive that turns into a
property and at a number that cannot be handled.**  It gives a result exactly if
it comes to no such line; whatever else is wrong with a source does not end it.  A
limit on the depth of recursion is not modelled: a condition may be nested to any
depth. -/
theorem preprocess_eq_ok_iff (files : List (String × Text)) (table : Table)
    (diagnostics : Diagnostics) (file : String) (source : Text) :
    (∃ r, preprocess (Resolver.ofList files) table diagnostics file source = .ok r) ↔
      ∀ s, State.Reaches (Resolver.ofList files) (State.start table diagnostics file source) s →
        ¬s.Breaks := by
  rw [preprocess, State.run_eq_ok_iff]
  simp only [State.step_eq_error_iff]

/-- A definition whose name stands behind a backslash may turn into a property. -/
theorem preprocess_continued_property :
    preprocess (Resolver.ofList []) {} {} "main.dts" "#define \\\n= 3\n".toList =
      .error ⟨.notDirective, {}⟩ := by
  rw [preprocess, State.run_eq_bind_step (List.cons_ne_nil _ _)]
  rfl

end DevicetreePrep
