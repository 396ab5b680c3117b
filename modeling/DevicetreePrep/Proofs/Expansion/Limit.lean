/-
# Is the limit of replacements reported?

A line that asks for more replacements than are allowed leaves candidates in the output
that it would otherwise replace.  It is told once, at the first of them, and only if the
budget is just used up there.  But a call is paid for behind its arguments, and these draw
on the same budget: where they use up the last of it, the call overdraws it, and the next
candidate finds less than nothing and goes to the output without a word.

`countP_isLimit_errors` says when there is an error for this limit: never if no
candidate is withheld; and if one is, exactly once, unless a replacement before the first
such candidate overdrew the budget.  `expandTokens_overdrawing` is a line where that is so.
-/

import Mathlib
import DevicetreePrep.Proofs.Expansion.Ledger
import DevicetreePrep.Proofs.Expansion.Verbatim

namespace DevicetreePrep

open Expansion

/-- Whether this is the error for a line that asks for too many replacements. -/
def ExpansionError.isLimit (e : ExpansionError) : Bool :=
  e.problem.message = "Macro expansion limit exceeded" && e.problem.code = .expansionLimit

namespace Expansion

/-- The error is known by its wording and its code. -/
theorem isLimit_locate (tokens : List Token) (r : Report) :
    (r.locate tokens).isLimit = decide (r.cause = .tooManyReplacements) := by
  obtain ⟨cause, site⟩ := r
  cases cause with
  | nestedTooDeeply => rfl
  | tooManyReplacements => rfl
  | unclosedCall name => exact Bool.and_false _
  | wrongCount name needed given => exact Bool.and_false _
  | looseOperator => rfl
  | badPaste left right => exact Bool.and_false _

/-- Locating reports does not change how many of them are of the limit. -/
theorem countP_isLimit_locate (tokens : List Token) (rs : List Report) :
    (rs.map (Report.locate tokens)).countP ExpansionError.isLimit = limitReports rs := by
  rw [List.countP_map, limitReports]
  refine List.countP_congr fun r _ => ?_
  rw [Function.comp_apply, isLimit_locate]

/-- The reports on the limit, from the marks of the line. -/
theorem limitReports_expand (ctx : Context) (counter : Nat) (tokens : List Token) :
    limitReports (expand ctx counter tokens).reports =
      if (record ctx counter tokens).any Mark.isWithheld ∧
        ((record ctx counter tokens).takeWhile Mark.isReplaced).any Mark.isOverdrawn = false
      then 1 else 0 := by
  have haccount := account_record ctx counter tokens
  rw [← haccount.reports]
  exact haccount.ledger.countP_isReported_of_nonneg (by decide)

end Expansion

/-- **When the limit of replacements is reported.**  If no candidate is withheld for want
of budget, there is no error for the limit.  If one is, there is exactly one error, unless
a replacement before the first of them took place though nothing was left to pay for it;
then there is none.  It is the same for a list of tokens and for a line. -/
theorem countP_isLimit_errors (ctx : Context) (counter : Nat) (raw : Text) (tokens : List Token) :
    let marks := record ctx counter tokens
    let reported :=
      if marks.any Mark.isWithheld ∧ (marks.takeWhile Mark.isReplaced).any Mark.isOverdrawn = false
      then 1 else 0
    (expandTokens ctx counter tokens).errors.countP ExpansionError.isLimit = reported ∧
      (expandLine ctx counter raw tokens).errors.countP ExpansionError.isLimit = reported := by
  have hreports := limitReports_expand ctx counter tokens
  rw [← countP_isLimit_locate tokens] at hreports
  exact ⟨hreports, hreports⟩

/-! ### A line that overdraws its budget -/

namespace Expansion

variable {ctx : Context} {is js : List Item} {m n : Nat} {i : Item} {t : Token} {d : Definition}

/-- The items ask for just `n` replacements, whatever stands behind them, and leave
nothing to be looked at again. -/
def Takes (ctx : Context) (n : Nat) (is : List Item) : Prop :=
  ∀ (expand : Expander) (record : Recorder) (budget : Int) (counter : Nat) (rest : List Item),
    n ≤ budget → ∃ ms, (∀ m ∈ ms, m.isReplaced) ∧
      recordFrom ctx expand record budget counter (is ++ rest) =
        ms ++ recordFrom ctx expand record (budget - n) counter rest

/-- No items take no replacements. -/
theorem takes_nil : Takes ctx 0 [] := by
  intro expand record budget counter rest _
  refine ⟨[], List.forall_mem_nil _, ?_⟩
  rw [Int.natCast_zero, Int.sub_zero]
  rfl

/-- Two rows of items take their replacements one behind the other. -/
theorem Takes.append (h : Takes ctx m is) (h' : Takes ctx n js) : Takes ctx (m + n) (is ++ js) := by
  intro expand record budget counter rest hb
  obtain ⟨ms, hms, heq⟩ := h expand record budget counter (js ++ rest) (by omega)
  obtain ⟨ns, hns, heq'⟩ := h' expand record (budget - m) counter rest (by omega)
  refine ⟨ms ++ ns, List.forall_mem_append.2 ⟨hms, hns⟩, ?_⟩
  rw [List.append_assoc, heq, heq', List.append_assoc, Int.natCast_add, Int.sub_sub]

/-- A row of items takes the replacements of each. -/
theorem takes_of_forall {w : Token → Nat} (h : ∀ i ∈ is, Takes ctx (w i.token) [i]) :
    Takes ctx ((is.map Item.token).map w).sum is := by
  induction is with
  | nil => exact takes_nil
  | cons i is ih =>
    rw [List.map_cons, List.map_cons, List.sum_cons, ← List.singleton_append]
    exact (h i (List.mem_cons_self ..)).append (ih fun j hj => h j (List.mem_cons_of_mem _ hj))

/-- An item that is no candidate takes no replacement. -/
theorem takes_of_none (h : candidate? ctx.table i = none) : Takes ctx 0 [i] := by
  intro expand record budget counter rest _
  refine ⟨[], List.forall_mem_nil _, ?_⟩
  rw [List.singleton_append, recordFrom_of_none h, Int.natCast_zero, Int.sub_zero]
  rfl

/-- Tokens that stand for themselves leave no marks. -/
theorem marks_tokens (expand : Expander) (record : Recorder) (budget : Int) (args : Arguments)
    (f : Filling) (ts : List Token) :
    f.marks expand record budget args (ts.map Part.token) = [] := by
  induction ts generalizing f with
  | nil => rfl
  | cons t ts ih => exact ih _

/-- An object takes one replacement and those of its body. -/
theorem takes_of_isVerbatim (hi : candidate? ctx.table i = some d) (hd : d.IsVerbatim)
    (h : Takes ctx n (d.body.map fun t =>
      { token := t, hidden := d.name :: i.hidden, span := i.span, produced := true })) :
    Takes ctx (n + 1) [i] := by
  intro expand record budget counter rest hb
  obtain ⟨ms, hms, heq⟩ := h expand record (budget - 1) counter rest (by omega)
  have hmarks : argumentMarks expand record budget counter d rest = [] := by
    rw [argumentMarks, hd.shape_eq]
    dsimp only
    rw [parts_of_isVerbatim hd, marks_tokens]
  have hleft : budget - 1 - n = budget - (n + 1 : Nat) := by omega
  refine ⟨.replaced d budget :: ms, List.forall_mem_cons.2 ⟨rfl, hms⟩, ?_⟩
  rw [List.singleton_append,
    recordFrom_of_replace hi (by omega) (invoke_of_isVerbatim hd ctx expand budget counter i rest),
    hmarks, List.drop_zero, Int.natCast_zero, Int.sub_zero, Int.zero_add, heq, hleft]
  rfl

/-- The token takes so many replacements wherever only names in `hide` are hidden. -/
def TakesBehind (ctx : Context) (hide : List Text) (n : Nat) (t : Token) : Prop :=
  ∀ i : Item, i.token = t → i.hidden ⊆ hide → Takes ctx n [i]

/-- A token that is no name takes no replacement. -/
theorem takesBehind_of_not_isIdent (hide : List Text) (h : t.isIdent = false) :
    TakesBehind ctx hide 0 t := by
  rintro i rfl _
  refine takes_of_none ?_
  rw [candidate?, h]
  rfl

/-- A name takes one replacement and those of the tokens that it stands for. -/
theorem takesBehind_name {hide : List Text} {w : Token → Nat} (ht : t.isIdent)
    (hfind : ctx.table.find? t.text = some d) (hd : d.IsVerbatim) (hhide : t.text ∉ hide)
    (h : ∀ u ∈ d.body, TakesBehind ctx (d.name :: hide) (w u) u) :
    TakesBehind ctx hide ((d.body.map w).sum + 1) t := by
  rintro i rfl hi
  have hcandidate : candidate? ctx.table i = some d := by
    have hvisible : i.hidden.contains i.token.text = false := by
      simpa using fun hmem => hhide (hi hmem)
    rw [candidate?, ht, hvisible]
    exact hfind
  let place (u : Token) : Item :=
    { token := u, hidden := d.name :: i.hidden, span := i.span, produced := true }
  have hbody : Takes ctx (((d.body.map place).map Item.token).map w).sum
      (d.body.map place) := by
    refine takes_of_forall fun j hj => ?_
    obtain ⟨u, hu, rfl⟩ := List.mem_map.1 hj
    exact h u hu (place u) rfl (List.cons_subset_cons _ hi)
  have htokens : (d.body.map place).map Item.token = d.body := by
    rw [List.map_map]
    exact List.map_id _
  rw [htokens] at hbody
  exact takes_of_isVerbatim hcandidate hd hbody

/-- The tokens of a name that is written so many times, with a blank behind each. -/
def repeated (c : Char) (n : Nat) : List Token :=
  (List.range n).flatMap fun k => [⟨.ident, [c], 2 * k⟩, ⟨.whitespace, [' '], 2 * k + 1⟩]

/-- The tokens of a name repeated are it and blanks. -/
theorem mem_repeated {c : Char} (h : t ∈ repeated c m) :
    t.isIdent ∧ t.text = [c] ∨ t.isIdent = false ∧ t.text = [' '] := by
  obtain ⟨k, -, hk⟩ := List.mem_flatMap.1 h
  simp only [List.mem_cons, List.not_mem_nil, or_false] at hk
  rcases hk with rfl | rfl
  · exact .inl ⟨rfl, rfl⟩
  · exact .inr ⟨rfl, rfl⟩

/-- What a token takes if each name takes `n`. -/
def weight (n : Nat) (t : Token) : Nat :=
  if t.isIdent then n else 0

/-- The tokens of a repeated name take what the name takes. -/
theorem takesBehind_repeated {hide : List Text} {c : Char}
    (h : ∀ u : Token, u.isIdent → u.text = [c] → TakesBehind ctx hide n u)
    (ht : t ∈ repeated c m) : TakesBehind ctx hide (weight n t) t := by
  rcases mem_repeated ht with ⟨hident, htext⟩ | ⟨hident, -⟩
  · rw [weight, if_pos hident]
    exact h t hident htext
  · rw [weight, hident]
    exact takesBehind_of_not_isIdent hide hident

/-- A name that stands for eight of another one. -/
def eightOf (name c : Char) : Definition :=
  { name := [name], body := (repeated c 8).dropLast }

/-- A name that stands for eight of another one takes eight times what that takes, and one
replacement more. -/
theorem takesBehind_eightOf {hide : List Text} {name c : Char}
    (hfind : ctx.table.find? [name] = some (eightOf name c)) (hhide : [name] ∉ hide)
    (h : ∀ u : Token, u.isIdent → u.text = [c] → TakesBehind ctx ([name] :: hide) n u)
    (u : Token) (hident : u.isIdent) (htext : u.text = [name]) :
    TakesBehind ctx hide (8 * n + 1) u := by
  have hverbatim : (eightOf name c).IsVerbatim := by
    refine ⟨rfl, fun t ht => ?_, fun t ht => ?_⟩
    · rcases mem_repeated (List.dropLast_subset _ ht) with ⟨-, h⟩ | ⟨-, h⟩ <;> simp [h]
    · rcases mem_repeated (List.dropLast_subset _ ht) with ⟨-, h⟩ | ⟨-, h⟩ <;>
        simp [isPaste, Token.isPunct, h]
  have hname := takesBehind_name hident (htext ▸ hfind) hverbatim (htext ▸ hhide) fun t ht =>
    takesBehind_repeated h (List.dropLast_subset _ ht)
  have hsum : ((eightOf name c).body.map (weight n)).sum = 8 * n := by
    show n + (0 + (n + (0 + (n + (0 + (n + (0 + (n + (0 + (n + (0 + (n + (0 + (n + 0)))))))))))))) =
      8 * n
    omega
  rwa [hsum] at hname

end Expansion

/-- The function that gives its argument. -/
def identity : Definition :=
  { name := ['f'], shape := .function [['a']] .none, body := [⟨.ident, ['a'], 0⟩] }

/-- A name that is replaced by nothing, names that stand for eight of the one before,
and the function. -/
def overdrawing : Context where
  table := Table.ofList
    [{ name := ['x'] }, eightOf 'A' 'x', eightOf 'B' 'A', eightOf 'C' 'B', identity]
  file := "board.dts"
  line := 1

/-- The tokens of `C C C C C C C f(x) x`. -/
def overdrawingLine : List Token :=
  repeated 'C' 7 ++
    [⟨.ident, ['f'], 14⟩, ⟨.punctuator, ['('], 15⟩, ⟨.ident, ['x'], 16⟩,
      ⟨.punctuator, [')'], 17⟩, ⟨.whitespace, [' '], 18⟩, ⟨.ident, ['x'], 19⟩]

/-- The names in front of the call use up all of the budget but one. -/
theorem takes_repeated_overdrawing :
    Takes overdrawing 4095 (Item.ofTokens (repeated 'C' 7)) := by
  have hx : ∀ t : Token, t.isIdent → t.text = ['x'] →
      TakesBehind overdrawing [['A'], ['B'], ['C']] 1 t := by
    intro t hident htext
    have hfind : overdrawing.table.find? t.text = some { name := ['x'] } := by
      rw [htext]
      rfl
    have hverbatim : Definition.IsVerbatim { name := ['x'] } := ⟨rfl, by simp, by simp⟩
    exact takesBehind_name (w := fun _ => 0) hident hfind hverbatim (by simp [htext]) (by simp)
  have hA : ∀ t : Token, t.isIdent → t.text = ['A'] →
      TakesBehind overdrawing [['B'], ['C']] 9 t :=
    takesBehind_eightOf rfl (by decide) hx
  have hB : ∀ t : Token, t.isIdent → t.text = ['B'] → TakesBehind overdrawing [['C']] 73 t :=
    takesBehind_eightOf rfl (by decide) hA
  have hC : ∀ t : Token, t.isIdent → t.text = ['C'] → TakesBehind overdrawing [] 585 t :=
    takesBehind_eightOf rfl (by decide) hB
  have hline : ∀ i ∈ Item.ofTokens (repeated 'C' 7),
      Takes overdrawing (weight 585 i.token) [i] := by
    intro i hi
    obtain ⟨n, hn, rfl⟩ := List.mem_mapIdx.1 hi
    exact takesBehind_repeated hC (List.getElem_mem hn) _ rfl (List.Subset.refl _)
  exact takes_of_forall hline

/-- With the last of the budget, the argument takes it and the call overdraws it. -/
theorem recordFrom_overdrawing :
    recordFrom overdrawing (expandWithin overdrawing 64) (recordWithin overdrawing 64) 1 0
        ((Item.ofTokens overdrawingLine).drop 14) =
      [.replaced { name := ['x'] } 1, .replaced identity 0,
        .withheld { token := ⟨.ident, ['x'], 19⟩, span := ⟨19, 19⟩ } (-1)] := by
  cbv

/-- The names use up all of the budget but one, `x` in the call takes the last of it, and
the call itself overdraws it: the last `x` goes to the output, and no error says so. -/
theorem expandTokens_overdrawing :
    (∃ m ∈ record overdrawing 0 overdrawingLine, m.isWithheld) ∧
      (expandTokens overdrawing 0 overdrawingLine).errors.countP ExpansionError.isLimit = 0 ∧
      ∀ raw, (expandLine overdrawing 0 raw overdrawingLine).errors.countP
        ExpansionError.isLimit = 0 := by
  obtain ⟨ms, hms, hrecord⟩ := takes_repeated_overdrawing (expandWithin overdrawing 64)
    (recordWithin overdrawing 64) 4096 0 ((Item.ofTokens overdrawingLine).drop 14) (by decide)
  have hmarks : record overdrawing 0 overdrawingLine = ms ++
      recordFrom overdrawing (expandWithin overdrawing 64) (recordWithin overdrawing 64) 1 0
        ((Item.ofTokens overdrawingLine).drop 14) := hrecord
  rw [recordFrom_overdrawing] at hmarks
  have hnone : ms.countP Mark.isReported = 0 := by
    rw [List.countP_eq_zero]
    intro m hm
    have hreplaced := hms m hm
    cases m with
    | replaced d left => exact Bool.false_ne_true
    | withheld i left => cases hreplaced
  have hreported : (record overdrawing 0 overdrawingLine).countP Mark.isReported = 0 := by
    rw [hmarks, List.countP_append, hnone]
    rfl
  rw [(account_record overdrawing 0 overdrawingLine).reports,
    ← countP_isLimit_locate overdrawingLine] at hreported
  refine ⟨⟨.withheld { token := ⟨.ident, ['x'], 19⟩, span := ⟨19, 19⟩ } (-1), ?_, rfl⟩,
    hreported, fun _ => hreported⟩
  rw [hmarks]
  simp

end DevicetreePrep
