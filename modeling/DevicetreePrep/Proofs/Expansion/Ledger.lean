/-
# The books of the budget

A line has one budget of replacements, and all levels of its expansion draw on it.  Here
it is put on record what they do with it: which candidates are replaced and which go to
the output for want of budget, in the order of time, with what was left at each of them
(`Mark`, `Expansion.record`).  A call is paid for when its arguments have been expanded,
so the marks of the arguments come before its own.

The record is right if it is a ledger (`Ledger`): at each mark just that is left which the
marks before it leave.  Three things are known of the record of an expansion, and carried
together through all levels (`Account`): it is a ledger that ends with what the outcome has
not spent; there is a report for each candidate that met an empty budget; and the number
of replacements is bounded by the budget and the levels.  The bound is by one level larger
than the budget, because a call that is begun with the last of the budget is paid for all
the same, behind arguments that may have used it up.
-/

import DevicetreePrep.Expansion

namespace DevicetreePrep
namespace Expansion

/-- What becomes of a candidate. -/
inductive Mark
  /-- It is replaced, and so much was left when it was paid for. -/
  | replaced (d : Definition) (left : Int)
  /-- It goes to the output because no more than this was left. -/
  | withheld (i : Item) (left : Int)
  deriving DecidableEq, Repr

namespace Mark

/-- Whether the candidate is replaced. -/
def isReplaced : Mark → Bool
  | replaced _ _ => true
  | withheld _ _ => false

/-- Whether the candidate goes to the output for want of budget. -/
def isWithheld : Mark → Bool
  | replaced _ _ => false
  | withheld _ _ => true

/-- Whether the candidate meets a budget that is just used up, which is reported. -/
def isReported : Mark → Bool
  | replaced _ _ => false
  | withheld _ left => left = 0

/-- Whether the candidate is replaced though nothing was left any more when it was paid
for. -/
def isOverdrawn : Mark → Bool
  | replaced _ left => left ≤ 0
  | withheld _ _ => false

theorem not_isReported (i : Item) {left : Int} (h : left < 0) : ¬(withheld i left).isReported := by
  simp only [isReported, decide_eq_true_eq]
  omega

end Mark

/-- The marks of expanding a list of items within a budget. -/
abbrev Recorder := Int → Nat → List Item → List Mark

namespace Filling

/-- The marks of filling in one part: those of the argument that is expanded for it. -/
def marksAt (record : Recorder) (budget : Int) (args : Arguments) (f : Filling) :
    Part → List Mark
  | .parameter name =>
    match f.expanded.lookup name with
    | some _ => []
    | none => record (budget - f.spent) f.counter (args.get name)
  | _ => []

/-- The marks of filling in parts. -/
def marks (expand : Expander) (record : Recorder) (budget : Int) (args : Arguments)
    (f : Filling) : List Part → List Mark
  | [] => []
  | p :: ps =>
    f.marksAt record budget args p ++
      (f.step expand budget args p).marks expand record budget args ps

end Filling

/-- The marks of the arguments that are expanded where a definition is replaced in front of
`tail`. -/
def argumentMarks (expand : Expander) (record : Recorder) (budget : Int) (counter : Nat)
    (d : Definition) (tail : List Item) : List Mark :=
  let fill (args : Arguments) : List Mark :=
    Filling.marks expand record budget args { counter } (parts d)
  match d.shape with
  | .builtin => []
  | .object => fill {}
  | .function fixed rest =>
    match Call.following tail with
    | .call c =>
      match Arguments.bind fixed rest c with
      | .ok args => fill args
      | .error _ => []
    | _ => []

/-- The marks of expanding the items in `pending`. -/
def recordFrom (ctx : Context) (expand : Expander) (record : Recorder) (budget : Int)
    (counter : Nat) (pending : List Item) : List Mark :=
  match pending with
  | [] => []
  | i :: tail =>
    match candidate? ctx.table i with
    | none => recordFrom ctx expand record budget counter tail
    | some d =>
      if _h : 0 < budget then
        match invoke ctx expand budget counter d i tail with
        | .pass size _ => recordFrom ctx expand record budget counter (tail.drop size)
        | .replace size items _ spent counter' _ =>
          argumentMarks expand record budget counter d tail ++
            .replaced d (budget - spent) ::
              recordFrom ctx expand record (budget - (spent + 1)) counter'
                (items ++ tail.drop size)
      else
        .withheld i budget ::
          recordFrom ctx expand record (if budget = 0 then -1 else budget) counter tail
termination_by (budget.toNat, pending.length)
decreasing_by
  · exact Prod.Lex.right _ (by simp)
  · exact Prod.Lex.right _ (by simp only [List.length_drop, List.length_cons]; omega)
  · exact Prod.Lex.left _ _ (by omega)
  · split
    · subst budget
      exact Prod.Lex.right _ (by simp)
    · exact Prod.Lex.right _ (by simp)

/-- The marks of expanding items with so many levels left for arguments.  Without a level
left nothing is looked at. -/
def recordWithin (ctx : Context) : Nat → Recorder
  | 0 => fun _ _ _ => []
  | levels + 1 => recordFrom ctx (expandWithin ctx levels) (recordWithin ctx levels)

/-- The marks of expanding the tokens of a line. -/
def record (ctx : Context) (counter : Nat) (tokens : List Token) : List Mark :=
  recordWithin ctx levelLimit replacementLimit counter (Item.ofTokens tokens)

/-- Each mark has what the marks before it leave of the budget: `b` at the start, and `c`
is left at the end. -/
inductive Ledger : Int → List Mark → Int → Prop
  | nil (b : Int) : Ledger b [] b
  | replaced {b c : Int} {ms : List Mark} (d : Definition) (rest : Ledger (b - 1) ms c) :
      Ledger b (.replaced d b :: ms) c
  /-- To find the budget used up is paid for as well. -/
  | reported {c : Int} {ms : List Mark} (i : Item) (rest : Ledger (-1) ms c) :
      Ledger 0 (.withheld i 0 :: ms) c
  | silent {b c : Int} {ms : List Mark} (i : Item) (h : b < 0) (rest : Ledger b ms c) :
      Ledger b (.withheld i b :: ms) c

namespace Ledger

variable {b c d : Int} {ms ns : List Mark}

/-- Marks in a row: the second ones have what the first ones leave. -/
theorem append (h : Ledger b ms c) (h' : Ledger c ns d) : Ledger b (ms ++ ns) d := by
  induction h with
  | nil b => exact h'
  | replaced def' _ ih => exact .replaced def' (ih h')
  | reported i _ ih => exact .reported i (ih h')
  | silent i hb _ ih => exact .silent i hb (ih h')

/-- **What is left is what replacements and the report have not used up.** -/
theorem left_eq (h : Ledger b ms c) :
    c = b - ms.countP Mark.isReplaced - ms.countP Mark.isReported := by
  induction h with
  | nil b => simp
  | replaced def' _ ih =>
    rw [List.countP_cons_of_pos rfl, List.countP_cons_of_neg Bool.false_ne_true]
    omega
  | reported i _ ih =>
    rw [List.countP_cons_of_neg Bool.false_ne_true, List.countP_cons_of_pos rfl]
    omega
  | silent i hb _ ih =>
    rw [List.countP_cons_of_neg Bool.false_ne_true,
      List.countP_cons_of_neg (Mark.not_isReported i hb)]
    exact ih

/-- A budget that is overdrawn is not found just used up. -/
theorem countP_isReported_of_neg (h : Ledger b ms c) (hb : b < 0) :
    ms.countP Mark.isReported = 0 := by
  induction h with
  | nil b => rfl
  | replaced def' _ ih =>
    rw [List.countP_cons_of_neg Bool.false_ne_true]
    exact ih (by omega)
  | reported i _ ih => omega
  | silent i _ _ ih =>
    rw [List.countP_cons_of_neg (Mark.not_isReported i hb)]
    exact ih hb

/-- **Which budgets are found just used up.**  What counts is the first candidate that goes
to the output: the budget that it meets was overdrawn by a replacement before it, or it is
just used up; and from then on it is overdrawn. -/
theorem countP_isReported_of_nonneg (h : Ledger b ms c) (hb : 0 ≤ b) :
    ms.countP Mark.isReported =
      if ms.any Mark.isWithheld ∧ (ms.takeWhile Mark.isReplaced).any Mark.isOverdrawn = false
      then 1 else 0 := by
  induction h with
  | nil b => rfl
  | @replaced b c ms def' rest ih =>
    rw [List.countP_cons_of_neg Bool.false_ne_true]
    by_cases hpos : 0 < b
    · have hone : (Mark.replaced def' b).isOverdrawn = false := decide_eq_false (by omega)
      rw [ih (by omega), List.any_cons, List.takeWhile_cons_of_pos rfl, List.any_cons, hone]
      rfl
    · have hone : (Mark.replaced def' b).isOverdrawn = true := decide_eq_true (by omega)
      rw [rest.countP_isReported_of_neg (by omega), List.takeWhile_cons_of_pos rfl]
      simp [hone]
  | reported i rest ih =>
    rw [List.countP_cons_of_pos rfl, rest.countP_isReported_of_neg (by omega)]
    rfl
  | silent i hneg _ ih => omega

end Ledger

/-- How many of the reports say that a line asks for too many replacements. -/
def limitReports (rs : List Report) : Nat :=
  rs.countP fun r => r.cause = .tooManyReplacements

theorem limitReports_append (rs ss : List Report) :
    limitReports (rs ++ ss) = limitReports rs + limitReports ss :=
  List.countP_append

/-- The books of an expansion with so many levels: from the budget `b` the marks lead to
`c`, with `reported` reports that the budget is used up. -/
structure Account (levels : Nat) (b : Int) (ms : List Mark) (c : Int) (reported : Nat) : Prop where
  ledger : Ledger b ms c
  reports : ms.countP Mark.isReported = reported
  /-- No replacement is begun without a budget, and each level may go on with one. -/
  bounded : ms.countP Mark.isReplaced = 0 ∨ (ms.countP Mark.isReplaced : Int) < b + levels

namespace Account

variable {levels : Nat} {b c d : Int} {ms ns : List Mark} {m n : Nat}

theorem nil (levels : Nat) (b : Int) : Account levels b [] b 0 :=
  ⟨.nil b, rfl, .inl rfl⟩

/-- Two accounts in a row are one, with the reports of both. -/
theorem append (h : Account levels b ms c m) (h' : Account levels c ns d n) :
    Account levels b (ms ++ ns) d (m + n) := by
  refine ⟨h.ledger.append h'.ledger, ?_, ?_⟩
  · rw [List.countP_append, h.reports, h'.reports]
  · have hleft := h.ledger.left_eq
    have hfirst := h.bounded
    have hsecond := h'.bounded
    rw [List.countP_append]
    omega

/-- A replacement is paid for behind its arguments, which have one level less. -/
theorem pay (h : Account levels b ms c m) (hb : 0 < b) (d : Definition) :
    Account (levels + 1) b (ms ++ [.replaced d c]) (c - 1) m := by
  refine ⟨h.ledger.append (.replaced d (.nil _)), ?_, ?_⟩
  · rw [List.countP_append, h.reports]
    rfl
  · have hfirst := h.bounded
    have hone : [Mark.replaced d c].countP Mark.isReplaced = 1 := rfl
    rw [List.countP_append, hone]
    omega

/-- A candidate goes to the output. -/
theorem withhold (levels : Nat) (hb : b ≤ 0) (i : Item) :
    Account levels b [.withheld i b] (if b = 0 then -1 else b) (if b = 0 then 1 else 0) := by
  by_cases hzero : b = 0
  · subst hzero
    exact ⟨.reported i (.nil _), rfl, .inl rfl⟩
  · rw [if_neg hzero, if_neg hzero]
    refine ⟨.silent i (by omega) (.nil _), ?_, .inl rfl⟩
    simp [Mark.isReported, hzero]

end Account

/-- The recorder keeps the books of the expander. -/
def Recorder.Keeps (record : Recorder) (levels : Nat) (expand : Expander) : Prop :=
  ∀ (b : Int) (counter : Nat) (is : List Item),
    Account levels b (record b counter is) (b - (expand b counter is).spent)
      (limitReports (expand b counter is).reports)

/-! ### Filling in -/

namespace Filling

variable {expand : Expander} {record : Recorder} {levels : Nat}

/-- **The books of one part**: an argument is expanded for it, or nothing is. -/
theorem account_step (h : record.Keeps levels expand) (budget : Int) (args : Arguments)
    (f : Filling) (p : Part) :
    ∃ n, limitReports (f.step expand budget args p).reports = limitReports f.reports + n ∧
      Account levels (budget - f.spent) (f.marksAt record budget args p)
        (budget - (f.step expand budget args p).spent) n := by
  have hnone : Account levels (budget - f.spent) [] (budget - f.spent) 0 := .nil ..
  cases p with
  | token t => exact ⟨0, rfl, hnone⟩
  | paste => exact ⟨0, rfl, hnone⟩
  | stringize name => exact ⟨0, rfl, hnone⟩
  | commaRest comma name =>
    unfold step
    dsimp only
    split <;> exact ⟨0, rfl, hnone⟩
  | operand name =>
    unfold step
    dsimp only
    split <;> exact ⟨0, rfl, hnone⟩
  | parameter name =>
    unfold step marksAt
    dsimp only
    cases f.expanded.lookup name with
    | some pieces => exact ⟨0, rfl, hnone⟩
    | none =>
      have haccount := h (budget - f.spent) f.counter (args.get name)
      rw [Int.sub_sub, ← Int.natCast_add] at haccount
      exact ⟨_, limitReports_append _ _, haccount⟩

/-- **The books of all parts**, one behind the other. -/
theorem account_foldl (h : record.Keeps levels expand) (budget : Int) (args : Arguments)
    (f : Filling) (ps : List Part) :
    ∃ n, limitReports (ps.foldl (step expand budget args) f).reports =
        limitReports f.reports + n ∧
      Account levels (budget - f.spent) (f.marks expand record budget args ps)
        (budget - (ps.foldl (step expand budget args) f).spent) n := by
  induction ps generalizing f with
  | nil => exact ⟨0, rfl, .nil ..⟩
  | cons p ps ih =>
    obtain ⟨m, hm, haccount⟩ := account_step h budget args f p
    obtain ⟨n, hn, hrest⟩ := ih (f.step expand budget args p)
    refine ⟨m + n, ?_, haccount.append hrest⟩
    rw [List.foldl_cons, hn, hm, Nat.add_assoc]

end Filling

/-- To paste does not report that a line asks for too much. -/
theorem notMem_causes_pasteAll (entries : List Entry) :
    Cause.tooManyReplacements ∉ (pasteAll entries).2 := by
  have hpair (left right : Piece) :
      Cause.tooManyReplacements ∉ (pastePair left right).2.toList := by
    unfold pastePair
    repeat' split
    all_goals simp
  have hstep (s : Pasting) (e : Entry) (hs : Cause.tooManyReplacements ∉ s.causes) :
      Cause.tooManyReplacements ∉ (s.step e).causes := by
    cases e with
    | paste =>
      unfold Pasting.step
      dsimp only
      split <;> simp [hs]
    | piece p =>
      unfold Pasting.step
      dsimp only
      split
      · rename_i left out _ _
        exact fun hmem => (List.mem_append.1 hmem).elim hs (hpair left p)
      · exact hs
  have hfold (s : Pasting) (hs : Cause.tooManyReplacements ∉ s.causes) :
      Cause.tooManyReplacements ∉ (entries.foldl Pasting.step s).causes := by
    induction entries generalizing s with
    | nil => exact hs
    | cons e entries ih => exact ih _ (hstep s e hs)
  have hall := hfold {} List.not_mem_nil
  unfold pasteAll
  dsimp only
  split
  · simp [hall]
  · exact hall

/-- Causes other than the limit report no limit. -/
theorem limitReports_causes {causes : List Cause} (h : Cause.tooManyReplacements ∉ causes)
    (site : Option Nat) : limitReports (causes.map (⟨·, site⟩)) = 0 := by
  rw [limitReports, List.countP_map, List.countP_eq_zero]
  intro c hc heq
  exact h (of_decide_eq_true heq ▸ hc)

/-! ### Replacing -/

section Working

/-- The books of what the front item turns into: to pass it on needs no budget, and to
replace it takes what its arguments take. -/
def Action.Books (levels : Nat) (budget : Int) (ms : List Mark) : Action → Prop
  | .pass _ reports => limitReports reports = 0
  | .replace _ _ _ spent _ reports =>
    Account levels budget ms (budget - spent) (limitReports reports)

variable {ctx : Context} {expand : Expander} {record : Recorder} {levels : Nat}

/-- A replacement has the marks of filling in its parts on its books. -/
theorem books_substitute (h : record.Keeps levels expand) (budget : Int) (counter : Nat)
    (d : Definition) (args : Arguments) (i : Item) (taken : List Item) (hide : List Text) :
    (substitute expand budget counter d args i taken hide).Books levels budget
      (Filling.marks expand record budget args { counter } (parts d)) := by
  obtain ⟨n, hn, haccount⟩ := Filling.account_foldl h budget args { counter } (parts d)
  have hpasted := notMem_causes_pasteAll
    ((parts d).foldl (Filling.step expand budget args) { counter }).entries.reverse
  unfold substitute Action.Books
  dsimp only
  rw [limitReports_append, limitReports_causes hpasted, hn]
  simpa [limitReports] using haccount

/-- **The books of the front item.** -/
theorem books_invoke (ctx : Context) (h : record.Keeps levels expand) (budget : Int) (counter : Nat)
    (d : Definition) (i : Item) (tail : List Item) :
    (invoke ctx expand budget counter d i tail).Books levels budget
      (argumentMarks expand record budget counter d tail) := by
  unfold invoke argumentMarks
  cases d.shape with
  | builtin => simpa [Action.Books, limitReports] using Account.nil levels budget
  | object => exact books_substitute h ..
  | function fixed rest =>
    dsimp only
    cases Call.following tail with
    | absent => rfl
    | unclosed => rfl
    | call c =>
      dsimp only
      cases Arguments.bind fixed rest c with
      | error given => rfl
      | ok args => exact books_substitute h ..

/-! ### Working through a list -/

section Equations

variable {budget : Int} {counter : Nat} {i : Item} {tail : List Item} {d : Definition}

theorem recordFrom_nil : recordFrom ctx expand record budget counter [] = [] := by
  rw [recordFrom]

/-- An item that is no candidate has no mark. -/
theorem recordFrom_of_none (hi : candidate? ctx.table i = none) :
    recordFrom ctx expand record budget counter (i :: tail) =
      recordFrom ctx expand record budget counter tail := by
  rw [recordFrom, hi]

/-- A candidate that passes has no mark, and neither has what it takes up. -/
theorem recordFrom_of_pass {size : Nat} {reports : List Report}
    (hi : candidate? ctx.table i = some d) (hb : 0 < budget)
    (h : invoke ctx expand budget counter d i tail = .pass size reports) :
    recordFrom ctx expand record budget counter (i :: tail) =
      recordFrom ctx expand record budget counter (tail.drop size) := by
  rw [recordFrom, hi]
  dsimp only
  rw [dif_pos hb, h]

/-- A candidate that is replaced has a mark, behind those of its arguments. -/
theorem recordFrom_of_replace {size spent counter' : Nat} {items : List Item} {event : Event}
    {reports : List Report} (hi : candidate? ctx.table i = some d) (hb : 0 < budget)
    (h : invoke ctx expand budget counter d i tail =
      .replace size items event spent counter' reports) :
    recordFrom ctx expand record budget counter (i :: tail) =
      argumentMarks expand record budget counter d tail ++ .replaced d (budget - spent) ::
        recordFrom ctx expand record (budget - (spent + 1)) counter' (items ++ tail.drop size) := by
  rw [recordFrom, hi]
  dsimp only
  rw [dif_pos hb, h]

/-- A candidate that finds no budget is withheld. -/
theorem recordFrom_of_le (hi : candidate? ctx.table i = some d) (hb : budget ≤ 0) :
    recordFrom ctx expand record budget counter (i :: tail) =
      .withheld i budget ::
        recordFrom ctx expand record (if budget = 0 then -1 else budget) counter tail := by
  rw [recordFrom, hi]
  dsimp only
  rw [dif_neg (by omega)]

end Equations

/-- **The books of a list of items.** -/
theorem account_expandFrom (ctx : Context) (h : record.Keeps levels expand) (budget : Int)
    (done : Outcome) (pending : List Item) :
    ∃ n, limitReports (expandFrom ctx expand budget done pending).reports =
        limitReports done.reports + n ∧
      Account (levels + 1) budget (recordFrom ctx expand record budget done.counter pending)
        (budget + done.spent - (expandFrom ctx expand budget done pending).spent) n := by
  fun_induction expandFrom ctx expand budget done pending with
  | case1 budget done =>
    refine ⟨0, rfl, ?_⟩
    rw [recordFrom_nil, Int.add_sub_cancel]
    exact .nil ..
  | case2 budget done i tail hi ih =>
    rw [recordFrom_of_none hi]
    exact ih
  | case3 budget done i tail d hd hb size reports hi ih =>
    have hbooks := books_invoke ctx h budget done.counter d i tail
    rw [hi] at hbooks
    have hreports : limitReports reports = 0 := hbooks
    obtain ⟨n, hn, haccount⟩ := ih
    rw [recordFrom_of_pass hd hb hi]
    refine ⟨n, ?_, haccount⟩
    rw [hn]
    dsimp only
    rw [limitReports_append, hreports, Nat.add_zero]
  | case4 budget done i tail d hd hb size items e spent counter reports hi ih =>
    have hbooks := books_invoke ctx h budget done.counter d i tail
    rw [hi] at hbooks
    have hfront := Account.pay hbooks hb d
    obtain ⟨n, hn, hrest⟩ := ih
    refine ⟨limitReports reports + n, ?_, ?_⟩
    · rw [hn]
      dsimp only
      rw [limitReports_append, Nat.add_assoc]
    · rw [recordFrom_of_replace hd hb hi, ← List.singleton_append, ← List.append_assoc]
      have hleft : budget - spent - 1 = budget - (spent + 1) := by omega
      have hstart : budget - (spent + 1) + (done.spent + (spent + 1) : Nat) =
          budget + done.spent := by
        omega
      rw [hleft] at hfront
      dsimp only at hrest
      rw [hstart] at hrest
      exact hfront.append hrest
  | case5 done i tail d hd hb ih =>
    obtain ⟨n, hn, hrest⟩ := ih
    have hfront := Account.withhold (levels + 1) (Int.le_refl 0) i
    rw [if_pos rfl, if_pos rfl] at hfront
    refine ⟨1 + n, ?_, ?_⟩
    · rw [hn]
      dsimp only
      rw [limitReports_append, Nat.add_assoc]
      rfl
    · rw [recordFrom_of_le hd (Int.le_refl 0), if_pos rfl]
      have hstart : -1 + (done.spent + 1 : Nat) = 0 + (done.spent : Int) := by omega
      dsimp only at hrest
      rw [hstart] at hrest
      exact hfront.append hrest
  | case6 budget done i tail d hd hle hne ih =>
    obtain ⟨n, hn, hrest⟩ := ih
    have hfront := Account.withhold (levels + 1) (Int.not_lt.1 hle) i
    rw [if_neg hne, if_neg hne] at hfront
    refine ⟨n, hn, ?_⟩
    rw [recordFrom_of_le hd (Int.not_lt.1 hle), if_neg hne]
    have hall := hfront.append hrest
    rw [Nat.zero_add] at hall
    exact hall

/-- **The record keeps the books of every level.** -/
theorem keeps_recordWithin (ctx : Context) (levels : Nat) :
    (recordWithin ctx levels).Keeps levels (expandWithin ctx levels) := by
  induction levels with
  | zero =>
    intro b counter is
    simpa [recordWithin, expandWithin, limitReports] using Account.nil 0 b
  | succ levels ih =>
    intro b counter is
    obtain ⟨n, hn, haccount⟩ := account_expandFrom ctx ih b { counter } is
    have hempty : limitReports (Outcome.reports { counter }) = 0 := rfl
    rw [hempty, Nat.zero_add] at hn
    have hstart : b + (Outcome.spent { counter } : Int) = b := Int.add_zero b
    rw [← hn, hstart] at haccount
    exact haccount

end Working

/-- **The books of a line.** -/
theorem account_record (ctx : Context) (counter : Nat) (tokens : List Token) :
    Account levelLimit replacementLimit (record ctx counter tokens)
      (replacementLimit - (expand ctx counter tokens).spent)
      (limitReports (expand ctx counter tokens).reports) :=
  keeps_recordWithin ctx levelLimit replacementLimit counter (Item.ofTokens tokens)

end Expansion
end DevicetreePrep
