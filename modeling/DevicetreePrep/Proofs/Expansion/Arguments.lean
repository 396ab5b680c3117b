/-
# What an argument list holds

Brackets are counted: the level of a row of items is the number of brackets that it opens
less the number of those that it closes.  A row is balanced if its level is zero and never
falls below zero on the way (`Call.IsBalanced`).  A list of arguments is white space, an
opening bracket, a balanced row and a closing bracket, which is then the first one that
matches (`Call.untilClose_eq_some_iff`).

The balanced row is divided at its commas on level zero (`Call.commaPlaces`): nothing of
it is lost, and the pieces are balanced and have no such comma (`Call.isDivided_divide`).
So the rest of a function with `k` fixed parameters is what stands behind the comma with
the number `k` (`Call.restOf_eq_behindComma`), as if the row had not been divided there.
-/

import Mathlib
import DevicetreePrep.Expansion.Call
import DevicetreePrep.Proofs.Definition.Declaration
import DevicetreePrep.Proofs.Token.Trimming

namespace DevicetreePrep
namespace Expansion

/-- A punctuator is not white space. -/
theorem Item.isWhite_of_isPunct {i : Item} {s : Text} (h : i.isPunct s = true) :
    i.isWhite = false := by
  simp only [Item.isPunct, Token.isPunct, Bool.and_eq_true, decide_eq_true_eq] at h
  simp [Item.isWhite, Token.isWhite, h.1]

/-- What an item adds to the number of open brackets. -/
def Item.bracket (i : Item) : Int :=
  if i.isPunct ['('] then 1 else if i.isPunct [')'] then -1 else 0

namespace Call

/-- The brackets that are opened less those that are closed. -/
def level (is : List Item) : Int :=
  (is.map Item.bracket).sum

theorem level_cons (i : Item) (is : List Item) : level (i :: is) = i.bracket + level is :=
  List.sum_cons

/-- The items close the `depth` brackets that are open in front of them, and those that they
open themselves, and no others. -/
def Closes (depth : Int) (is : List Item) : Prop :=
  depth + level is = 0 ∧ ∀ front, front <+: is → 0 ≤ depth + level front

/-- Each bracket that is opened is closed, and no others are. -/
def IsBalanced (is : List Item) : Prop :=
  Closes 0 is

/-- No items close no brackets. -/
theorem closes_nil {depth : Int} : Closes depth [] ↔ depth = 0 := by
  constructor
  · intro h
    simpa [level] using h.1
  · rintro rfl
    refine ⟨rfl, fun front hfront => ?_⟩
    rw [List.prefix_nil.1 hfront]
    exact Int.le_refl 0

/-- Items close what is open if, behind the first one, the others do. -/
theorem closes_cons {depth : Int} {i : Item} {is : List Item} :
    Closes depth (i :: is) ↔ 0 ≤ depth ∧ Closes (depth + i.bracket) is := by
  simp only [Closes, level_cons, List.prefix_cons_iff]
  constructor
  · intro ⟨hlevel, hfront⟩
    refine ⟨by simpa [level] using hfront [] (.inl rfl), by omega, fun front h => ?_⟩
    have := hfront (i :: front) (.inr ⟨front, rfl, h⟩)
    rw [level_cons] at this
    omega
  · intro ⟨hdepth, hlevel, hfront⟩
    refine ⟨by omega, ?_⟩
    rintro front (rfl | ⟨front, rfl, h⟩)
    · simpa [level] using hdepth
    · have := hfront front h
      rw [level_cons]
      omega

theorem Closes.nonneg {depth : Int} {is : List Item} (h : Closes depth is) : 0 ≤ depth := by
  simpa [level] using h.2 [] List.nil_prefix

theorem bracket_of_open {i : Item} (h : i.isPunct ['('] = true) : i.bracket = 1 :=
  if_pos h

/-- A closing bracket lowers the depth by one. -/
theorem bracket_of_close {i : Item} (hopen : i.isPunct ['('] = false)
    (h : i.isPunct [')'] = true) : i.bracket = -1 := by
  rw [Item.bracket, hopen, h]
  rfl

/-- Any other item leaves the depth as it is. -/
theorem bracket_of_neither {i : Item} (hopen : i.isPunct ['('] = false)
    (hclose : i.isPunct [')'] = false) : i.bracket = 0 := by
  rw [Item.bracket, hopen, hclose]
  rfl

/-- An item is one punctuator at most. -/
theorem isPunct_eq_false {i : Item} {s t : Text} (h : i.isPunct s = true) (hne : s ≠ t) :
    i.isPunct t = false := by
  simp only [Item.isPunct, Token.isPunct, Bool.and_eq_true, decide_eq_true_eq] at h
  simp [Item.isPunct, Token.isPunct, h.2, hne]

/-- **A list ends with the first bracket that closes it**: what stands before it closes all
brackets that are open inside of the list. -/
theorem untilClose_eq_some_iff {depth : Nat} {seen is out : List Item} {close : Item} :
    untilClose depth seen is = some (out, close) ↔
      ∃ inner rest, out = seen.reverse ++ inner ∧ is = inner ++ close :: rest ∧
        close.isPunct [')'] = true ∧ Closes depth inner := by
  induction is generalizing depth seen with
  | nil => simp [untilClose]
  | cons i is ih =>
    -- where the list does not end, the first item is one more that was seen
    have hnext {depth' : Nat} (hdepth : (depth : Int) + i.bracket = depth')
        (hi : i.isPunct [')'] = true → depth ≠ 0) :
        untilClose depth' (i :: seen) is = some (out, close) ↔
          ∃ inner rest, out = seen.reverse ++ inner ∧ i :: is = inner ++ close :: rest ∧
            close.isPunct [')'] = true ∧ Closes depth inner := by
      rw [ih]
      constructor
      · rintro ⟨inner, rest, rfl, rfl, hclose, hinner⟩
        refine ⟨i :: inner, rest, by simp, rfl, hclose, closes_cons.2 ⟨by omega, ?_⟩⟩
        rwa [hdepth]
      · rintro ⟨inner, rest, rfl, hcons, hclose, hinner⟩
        cases inner with
        | nil =>
          obtain ⟨rfl, rfl⟩ := List.cons.inj hcons
          exact absurd (by simpa using closes_nil.1 hinner) (hi hclose)
        | cons j inner =>
          obtain ⟨rfl, rfl⟩ := List.cons.inj hcons
          rw [closes_cons, hdepth] at hinner
          exact ⟨inner, rest, by simp, rfl, hclose, hinner.2⟩
    unfold untilClose
    cases hopen : i.isPunct ['('] with
    | true =>
      rw [if_pos rfl]
      refine hnext (by rw [bracket_of_open hopen]; rfl) fun hclose => ?_
      rw [isPunct_eq_false hopen (by decide)] at hclose
      cases hclose
    | false =>
      rw [if_neg Bool.false_ne_true]
      cases hclose : i.isPunct [')'] with
      | false =>
        rw [if_neg Bool.false_ne_true]
        refine hnext (by rw [bracket_of_neither hopen hclose, Int.add_zero]) fun h => ?_
        rw [hclose] at h
        cases h
      | true =>
        rw [if_pos rfl]
        cases depth with
        | succ depth =>
          refine hnext ?_ fun _ => Nat.succ_ne_zero depth
          rw [bracket_of_close hopen hclose]
          omega
        | zero =>
          dsimp only
          constructor
          · intro h
            obtain ⟨rfl, rfl⟩ := Prod.mk.inj (Option.some.inj h)
            exact ⟨[], is, (List.append_nil _).symm, rfl, hclose, closes_nil.2 rfl⟩
          · rintro ⟨inner, rest, rfl, hcons, -, hinner⟩
            cases inner with
            | nil =>
              obtain ⟨rfl, -⟩ := List.cons.inj hcons
              rw [List.append_nil]
            | cons j inner =>
              obtain ⟨rfl, -⟩ := List.cons.inj hcons
              have := (closes_cons.1 hinner).2.nonneg
              rw [bracket_of_close hopen hclose] at this
              omega

/-! Dividing a list. -/

/-- The places of the commas outside of all brackets, where `depth` brackets are open in
front of the items. -/
def commaPlaces (depth : Int) (is : List Item) : List Nat :=
  (List.range is.length).filter fun n =>
    is[n]?.any (·.isPunct [',']) && depth + level (is.take n) = 0

/-- One item in front moves the places of the commas by one; it may be such a comma itself. -/
theorem commaPlaces_cons (depth : Int) (i : Item) (is : List Item) :
    commaPlaces depth (i :: is) =
      (if i.isPunct [','] && depth = 0 then [0] else []) ++
        (commaPlaces (depth + i.bracket) is).map (· + 1) := by
  have hfirst : depth + level ((i :: is).take 0) = depth := Int.add_zero depth
  have hnext : (fun n => (i :: is)[n]?.any (·.isPunct [',']) &&
      decide (depth + level ((i :: is).take n) = 0)) ∘ Nat.succ =
      fun n => is[n]?.any (·.isPunct [',']) &&
        decide (depth + i.bracket + level (is.take n) = 0) := by
    funext n
    rw [Function.comp_apply, Nat.succ_eq_add_one, List.getElem?_cons_succ, List.take_succ_cons,
      level_cons, Int.add_assoc]
  rw [commaPlaces, List.length_cons, List.range_succ_eq_map, List.filter_cons, hfirst,
    List.filter_map, hnext]
  dsimp only [List.getElem?_cons_zero, Option.any_some]
  split <;> rfl

/-- The commas of two rows of items: those of the first one, and those of the second one moved
behind it. -/
theorem commaPlaces_append (depth : Int) (is js : List Item) :
    commaPlaces depth (is ++ js) =
      commaPlaces depth is ++ (commaPlaces (depth + level is) js).map (· + is.length) := by
  induction is generalizing depth with
  | nil => simp [commaPlaces, level]
  | cons i is ih =>
    rw [List.cons_append, commaPlaces_cons, commaPlaces_cons, ih, level_cons, ← Int.add_assoc,
      List.map_append, List.map_map, List.append_assoc]
    rfl

/-- The arguments in a row with the commas between them. -/
def interleave : List (List Item) → List Item → List Item
  | arg :: args, comma :: commas => arg ++ comma :: interleave args commas
  | args, [] => args.flatten
  | [], commas => commas

/-- A row of items that is divided at the commas outside of all brackets, where `depth`
brackets are open in front of it.  Only the first argument starts inside of these. -/
structure IsDivided (depth : Int) (is arg : List Item) (args : List (List Item))
    (commas : List Item) : Prop where
  length_eq : args.length = commas.length
  interleave_eq : interleave (arg :: args) commas = is
  isPunct : ∀ comma ∈ commas, comma.isPunct [','] = true
  first : Closes depth arg ∧ commaPlaces depth arg = []
  further : ∀ b ∈ args, IsBalanced b ∧ commaPlaces 0 b = []

/-- The first item of the first argument comes first in the row. -/
theorem interleave_cons_cons (i : Item) (arg : List Item) (args : List (List Item))
    (commas : List Item) :
    interleave ((i :: arg) :: args) commas = i :: interleave (arg :: args) commas := by
  cases commas <;> rfl

/-- **A row that closes its brackets is divided at its commas.** -/
theorem isDivided_divide {depth : Nat} {is : List Item} (h : Closes depth is) :
    ∃ arg args, (divide depth is).1 = arg :: args ∧
      IsDivided depth is arg args (divide depth is).2 := by
  induction is generalizing depth with
  | nil =>
    refine ⟨[], [], rfl, rfl, rfl, fun _ h => absurd h List.not_mem_nil, ⟨h, rfl⟩, fun _ h => ?_⟩
    exact absurd h List.not_mem_nil
  | cons i is ih =>
    rw [closes_cons] at h
    -- the number of open brackets never falls below zero, so it is never cut off there
    have hdepth : (depth : Int) + i.bracket =
        ((if i.isPunct ['('] then depth + 1 else if i.isPunct [')'] then depth - 1 else depth :
          Nat) : Int) := by
      have hnonneg := h.2.nonneg
      cases hopen : i.isPunct ['('] with
      | true =>
        rw [bracket_of_open hopen, if_pos rfl]
        rfl
      | false =>
        rw [if_neg Bool.false_ne_true]
        cases hclose : i.isPunct [')'] with
        | true =>
          rw [bracket_of_close hopen hclose] at hnonneg ⊢
          rw [if_pos rfl]
          omega
        | false =>
          rw [bracket_of_neither hopen hclose, if_neg Bool.false_ne_true]
          omega
    rw [hdepth] at h
    obtain ⟨arg, args, hargs, hdivided⟩ := ih h.2
    rw [← hdepth] at hdivided
    rw [divide]
    dsimp only
    rw [hargs]
    split
    · rename_i hcomma
      rw [Bool.and_eq_true, decide_eq_true_eq] at hcomma
      obtain ⟨hcomma, rfl⟩ := hcomma
      have hbracket : i.bracket = 0 := bracket_of_neither (isPunct_eq_false hcomma (by decide))
        (isPunct_eq_false hcomma (by decide))
      rw [hbracket] at hdivided
      exact ⟨[], arg :: args, rfl, congrArg (· + 1) hdivided.length_eq,
        congrArg (i :: ·) hdivided.interleave_eq, List.forall_mem_cons.2 ⟨hcomma, hdivided.isPunct⟩,
        ⟨closes_nil.2 rfl, rfl⟩, List.forall_mem_cons.2 ⟨hdivided.first, hdivided.further⟩⟩
    · rename_i hcomma
      refine ⟨i :: arg, args, rfl, hdivided.length_eq, ?_, hdivided.isPunct,
        ⟨closes_cons.2 ⟨h.1, hdivided.first.1⟩, ?_⟩, hdivided.further⟩
      · rw [interleave_cons_cons, hdivided.interleave_eq]
      · rw [commaPlaces_cons, hdivided.first.2]
        simpa using hcomma

/-! What stands behind a comma. -/

/-- What stands behind the comma with the number `k`, of those outside of all brackets; all
of it for the number zero, and nothing if there is no such comma. -/
def behindComma (k : Nat) (is : List Item) : List Item :=
  match k with
  | 0 => is
  | k + 1 =>
    match (commaPlaces 0 is)[k]? with
    | some n => is.drop (n + 1)
    | none => []

section

variable {is arg next : List Item} {args : List (List Item)} {comma : Item} {commas : List Item}

/-- What is divided at commas is divided behind the first of them. -/
theorem IsDivided.tail (h : IsDivided 0 is arg (next :: args) (comma :: commas)) :
    IsDivided 0 (interleave (next :: args) commas) next args commas := by
  obtain ⟨hnext, hfurther⟩ := List.forall_mem_cons.1 h.further
  exact ⟨Nat.succ.inj h.length_eq, rfl, (List.forall_mem_cons.1 h.isPunct).2, hnext, hfurther⟩

/-- The first comma of a row that is divided stands behind its first argument. -/
theorem IsDivided.commaPlaces_eq (h : IsDivided 0 is arg (next :: args) (comma :: commas)) :
    commaPlaces 0 is = arg.length ::
      (commaPlaces 0 (interleave (next :: args) commas)).map (· + (arg.length + 1)) := by
  have hcomma := h.isPunct comma (List.mem_cons_self ..)
  have hbracket : comma.bracket = 0 := bracket_of_neither (isPunct_eq_false hcomma (by decide))
    (isPunct_eq_false hcomma (by decide))
  rw [← h.interleave_eq, interleave, commaPlaces_append, h.first.2, h.first.1.1, commaPlaces_cons,
    hcomma, hbracket]
  simp [Nat.add_comm 1]

/-- What stands behind one comma more is found behind the first one. -/
theorem IsDivided.behindComma_succ (h : IsDivided 0 is arg (next :: args) (comma :: commas))
    (k : Nat) : behindComma (k + 1) is = behindComma k (interleave (next :: args) commas) := by
  have hdrop (n : Nat) : is.drop (n + (arg.length + 1)) =
      (interleave (next :: args) commas).drop n := by
    rw [← h.interleave_eq, interleave, Nat.add_comm, ← List.drop_drop, ← List.drop_drop,
      List.drop_left, List.drop_one, List.tail_cons]
  rw [behindComma, h.commaPlaces_eq]
  cases k with
  | zero => simpa [behindComma] using hdrop 0
  | succ k =>
    rw [List.getElem?_cons_succ, List.getElem?_map, behindComma]
    cases (commaPlaces 0 (interleave (next :: args) commas))[k]? with
    | none => rfl
    | some n =>
      dsimp only [Option.map_some]
      rw [← hdrop, Nat.add_right_comm]

/-- All arguments with their commas are the row. -/
theorem restOf_zero (h : args.length = commas.length) :
    restOf 0 (arg :: args) commas = interleave (arg :: args) commas := by
  rw [restOf]
  induction args generalizing arg commas with
  | nil =>
    obtain rfl := List.eq_nil_of_length_eq_zero h.symm
    simp [interleave]
  | cons next args ih =>
    obtain ⟨comma, commas, rfl⟩ := List.exists_cons_of_length_eq_add_one h.symm
    rw [interleave, ← ih (Nat.succ.inj h)]
    simp

/-- **What goes into the rest is what stands behind a comma.** -/
theorem IsDivided.restOf_eq (h : IsDivided 0 is arg args commas) (k : Nat) :
    restOf k (arg :: args) commas = behindComma k is := by
  induction k generalizing is arg args commas with
  | zero => rw [restOf_zero h.length_eq, h.interleave_eq, behindComma]
  | succ k ih =>
    cases args with
    | nil =>
      obtain rfl := List.eq_nil_of_length_eq_zero h.length_eq.symm
      obtain rfl : arg = is := by simpa [interleave] using h.interleave_eq
      rw [behindComma, h.first.2]
      simp [restOf]
    | cons next args =>
      obtain ⟨comma, commas, rfl⟩ := List.exists_cons_of_length_eq_add_one h.length_eq.symm
      have hrest : restOf (k + 1) (arg :: next :: args) (comma :: commas) =
          restOf k (next :: args) commas := rfl
      rw [hrest, ih h.tail, h.behindComma_succ]

end

/-! What follows a name. -/

/-- Behind white space an opening bracket stands, and then `rest`. -/
structure Opens (is white : List Item) (opening : Item) (rest : List Item) : Prop where
  eq : is = white ++ opening :: rest
  isWhite : ∀ i ∈ white, i.isWhite = true
  isPunct : opening.isPunct ['('] = true

/-- The white space and the bracket are where `following` looks for them. -/
theorem Opens.drop_eq {is white rest : List Item} {opening : Item}
    (h : Opens is white opening rest) :
    is.takeWhile Item.isWhite = white ∧ is.drop white.length = opening :: rest := by
  have hopening : ¬opening.isWhite = true :=
    Bool.eq_false_iff.1 (Item.isWhite_of_isPunct h.isPunct)
  rw [h.eq]
  exact ⟨by rw [List.takeWhile_append_of_pos h.isWhite, List.takeWhile_cons_of_neg hopening,
    List.append_nil], List.drop_left⟩

/-- **What follows a name**, if an opening bracket does. -/
theorem Opens.following_eq {is white rest : List Item} {opening : Item}
    (h : Opens is white opening rest) :
    following is = match untilClose 0 [] rest with
      | none => .unclosed
      | some (inner, close) =>
        .call ⟨(divide 0 inner).1, (divide 0 inner).2, close, white.length + inner.length + 2⟩ := by
  obtain ⟨hwhite, hdrop⟩ := h.drop_eq
  rw [following]
  dsimp only
  rw [hwhite, hdrop]
  exact if_pos h.isPunct

/-- **Nothing follows a name**, if no opening bracket does. -/
theorem following_eq_absent_iff {is : List Item} :
    following is = .absent ↔ ¬∃ white opening rest, Opens is white opening rest := by
  constructor
  · rintro habsent ⟨white, opening, rest, h⟩
    rw [h.following_eq] at habsent
    split at habsent <;> cases habsent
  · intro h
    rw [following]
    dsimp only
    split
    · rfl
    · rename_i i rest hdrop
      split
      · rename_i hi
        refine absurd ⟨is.takeWhile Item.isWhite, i, rest, ?_, ?_, hi⟩ h
        · have hsplit := List.take_append_drop (is.takeWhile Item.isWhite).length is
          rw [← List.prefix_iff_eq_take.1 (List.takeWhile_prefix _), hdrop] at hsplit
          exact hsplit.symm
        · exact List.all_eq_true.1 List.all_takeWhile
      · rfl

theorem exists_opens {is : List Item} (h : following is ≠ .absent) :
    ∃ white opening rest, Opens is white opening rest :=
  Classical.byContradiction fun hnone => h (following_eq_absent_iff.2 hnone)

/-- A call was read from the front of `is`, and `inner` stands between its brackets. -/
structure IsReadFrom (c : Call) (is inner : List Item) : Prop where
  /-- It takes up white space and what stands from its first bracket to its last one. -/
  consumed : ∃ white opening rest, Opens is white opening (inner ++ c.close :: rest) ∧
    c.size = (white ++ opening :: (inner ++ [c.close])).length
  close : c.close.isPunct [')'] = true
  balanced : IsBalanced inner
  length_args : c.args.length = c.commas.length + 1
  interleave_eq : interleave c.args c.commas = inner
  commas : ∀ comma ∈ c.commas, comma.isPunct [','] = true
  args : ∀ arg ∈ c.args, IsBalanced arg ∧ commaPlaces 0 arg = []

/-- The items that a call takes up. -/
theorem IsReadFrom.take_size {c : Call} {is inner : List Item} (h : c.IsReadFrom is inner) :
    ∃ white opening, is.take c.size = white ++ opening :: (inner ++ [c.close]) := by
  obtain ⟨white, opening, rest, hopens, hsize⟩ := h.consumed
  refine ⟨white, opening, ?_⟩
  have his : is = (white ++ opening :: (inner ++ [c.close])) ++ rest := by
    rw [hopens.eq]
    simp
  rw [hsize, his, List.take_left]

/-- The arguments that are read from a list divide its inside. -/
theorem IsReadFrom.isDivided {c : Call} {is inner : List Item} (h : c.IsReadFrom is inner) :
    ∃ arg args, c.args = arg :: args ∧ IsDivided 0 inner arg args c.commas := by
  obtain ⟨arg, args, hargs⟩ := List.exists_cons_of_length_eq_add_one h.length_args
  have hlength := h.length_args
  have hinterleave := h.interleave_eq
  have hall := h.args
  rw [hargs] at hlength hinterleave hall
  obtain ⟨hfirst, hfurther⟩ := List.forall_mem_cons.1 hall
  exact ⟨arg, args, hargs, Nat.succ.inj hlength, hinterleave, h.commas, hfirst, hfurther⟩

/-- **Whatever is read as a call is one.** -/
theorem isReadFrom_of_following {is : List Item} {c : Call} (h : following is = .call c) :
    ∃ inner, c.IsReadFrom is inner := by
  have hpresent : following is ≠ .absent := by simp [h]
  obtain ⟨white, opening, rest, hopens⟩ := exists_opens hpresent
  rw [hopens.following_eq] at h
  split at h
  · cases h
  · rename_i inner close hclose
    obtain ⟨inner, rest, rfl, rfl, hpunct, hinner⟩ := untilClose_eq_some_iff.1 hclose
    obtain ⟨arg, args, hargs, hdivided⟩ := isDivided_divide hinner
    obtain rfl := Following.call.inj h
    refine ⟨inner, ⟨white, opening, rest, hopens, ?_⟩, hpunct, hinner, ?_, ?_, hdivided.isPunct, ?_⟩
    · simp only [List.length_append, List.length_cons, List.length_nil]
      omega
    · rw [hargs, List.length_cons, hdivided.length_eq]
    · rw [hargs, hdivided.interleave_eq]
    · rw [hargs]
      exact List.forall_mem_cons.2 ⟨hdivided.first, hdivided.further⟩

/-- A call follows a name exactly if a bracket is opened and closed again. -/
theorem exists_following_iff {is : List Item} :
    (∃ c, following is = .call c) ↔ ∃ white opening inner close rest,
      Opens is white opening (inner ++ close :: rest) ∧ close.isPunct [')'] = true ∧
        IsBalanced inner := by
  constructor
  · rintro ⟨c, hc⟩
    obtain ⟨inner, h⟩ := isReadFrom_of_following hc
    obtain ⟨white, opening, rest, hopens, -⟩ := h.consumed
    exact ⟨white, opening, inner, c.close, rest, hopens, h.close, h.balanced⟩
  · rintro ⟨white, opening, inner, close, rest, hopens, hclose, hinner⟩
    have huntil : untilClose 0 [] (inner ++ close :: rest) = some (inner, close) :=
      untilClose_eq_some_iff.2 ⟨inner, rest, rfl, rfl, hclose, hinner⟩
    rw [hopens.following_eq, huntil]
    exact ⟨_, rfl⟩

/-- A list is left open exactly if its bracket is never matched. -/
theorem following_eq_unclosed_iff {is : List Item} :
    following is = .unclosed ↔ ∃ white opening rest, Opens is white opening rest ∧
      ∀ inner close behind, rest = inner ++ close :: behind → close.isPunct [')'] = true →
        ¬IsBalanced inner := by
  constructor
  · intro h
    have hpresent : following is ≠ .absent := by simp [h]
    obtain ⟨white, opening, rest, hopens⟩ := exists_opens hpresent
    refine ⟨white, opening, rest, hopens, ?_⟩
    rintro inner close behind rfl hclose hinner
    obtain ⟨c, hc⟩ := exists_following_iff.2
      ⟨white, opening, inner, close, behind, hopens, hclose, hinner⟩
    rw [hc] at h
    cases h
  · rintro ⟨white, opening, rest, hopens, hnever⟩
    rw [hopens.following_eq]
    split
    · rfl
    · rename_i inner close hclose
      obtain ⟨_, behind, -, hrest, hpunct, hinner⟩ := untilClose_eq_some_iff.1 hclose
      exact absurd hinner (hnever _ close behind hrest hpunct)

end Call

/-! Binding. -/

/-- In a row of names and values, the last value of a name is the first one that is met
from the end. -/
theorem lookup_reverse_zip {names : List Text} {values : List (List Item)} {n : Nat} {name : Text}
    {value : List Item} (hname : names[n]? = some name) (hvalue : values[n]? = some value)
    (hlast : ∀ m, n < m → names[m]? ≠ some name) :
    (names.zip values).reverse.lookup name = some value := by
  have hpair : (names.zip values)[n]? = some (name, value) :=
    List.getElem?_zip_eq_some.2 ⟨hname, hvalue⟩
  obtain ⟨hn, hget⟩ := List.getElem?_eq_some_iff.1 hpair
  have hrow : (names.zip values).reverse =
      ((names.zip values).drop (n + 1)).reverse ++
        (name, value) :: ((names.zip values).take n).reverse := by
    rw [← hget, ← List.reverse_concat, ← List.reverse_append, ← List.take_succ_eq_append_getElem hn,
      List.take_append_drop]
  refine List.lookup_eq_some_iff.2 ⟨_, _, hrow, fun p hp => ?_⟩
  obtain ⟨m, hm⟩ := List.getElem?_of_mem (List.mem_reverse.1 hp)
  rw [List.getElem?_drop] at hm
  rw [bne_iff_ne]
  rintro rfl
  exact hlast (n + 1 + m) (by omega) (List.getElem?_zip_eq_some.1 hm).1

/-- How many arguments a call gives to a function with `k` fixed parameters: a blank one
alone counts for none if there are no such parameters. -/
def Call.given (k : Nat) (c : Call) : Nat :=
  if k = 0 && c.args.length = 1 && c.args.all (·.all Item.isWhite) then 0 else c.args.length

namespace Arguments

/-- The parameters of a function stand for what a call gives, where `inner` stands between
the brackets of the call. -/
structure AreGiven (a : Arguments) (fixed : List Text) (rest : Rest) (c : Call)
    (inner : List Item) : Prop where
  fixed_eq : ∀ (n : Nat) (p : Text), fixed[n]? = some p →
    ∃ arg, c.args[n]? = some arg ∧ a.get p = Item.trim arg
  rest_eq : rest.isOpen = true →
    a.get rest.name = Item.trim (Call.behindComma fixed.length inner) ∧
      a.get restName = a.get rest.name

/-- What counts are the arguments that a call gives. -/
theorem length_counted (fixed : List Text) (c : Call) :
    (counted fixed c.args).length = c.given fixed.length := by
  rw [Call.given]
  match fixed, c.args with
  | [], [arg] =>
    rw [counted, Item.trim, isEmpty_trimWhere]
    cases h : arg.all Item.isWhite <;> simp [h]
  | _ :: _, _ => simp [counted]
  | [], [] => simp [counted]
  | [], _ :: _ :: _ => simp [counted]

/-- A function with fixed parameters counts all arguments. -/
theorem counted_of_ne_nil {fixed : List Text} (h : fixed ≠ []) (args : List (List Item)) :
    counted fixed args = args := by
  obtain ⟨p, fixed, rfl⟩ := List.exists_cons_of_ne_nil h
  rfl

/-- What counts as no argument is a blank one. -/
theorem counted_cases (fixed : List Text) (args : List (List Item)) :
    counted fixed args = args ∨
      fixed = [] ∧ counted fixed args = [] ∧ ∃ arg, args = [arg] ∧ Item.trim arg = [] := by
  match fixed, args with
  | [], [arg] =>
    rw [counted]
    split
    · rename_i hblank
      exact .inr ⟨rfl, rfl, arg, rfl, List.isEmpty_iff.1 hblank⟩
    · exact .inl rfl
  | _ :: _, _ => exact .inl rfl
  | [], [] => exact .inl rfl
  | [], _ :: _ :: _ => exact .inl rfl

/-- **A call suits a function** exactly if it gives as many arguments as the function has
fixed parameters, or more of them if these go into a rest. -/
theorem exists_bind_iff (fixed : List Text) (rest : Rest) (c : Call) :
    (∃ a, bind fixed rest c = .ok a) ↔ c.given fixed.length = fixed.length ∨
      rest.isOpen = true ∧ fixed.length ≤ c.given fixed.length := by
  rw [bind, ← length_counted]
  split
  · rename_i h
    simp only [Bool.or_eq_true, decide_eq_true_eq, Bool.and_eq_true, Bool.not_eq_true'] at h
    constructor
    · rintro ⟨a, ha⟩
      cases ha
    · rintro (heq | ⟨hopen, hle⟩)
      · omega
      · rw [hopen] at h
        simp at h
        omega
  · rename_i h
    simp only [Bool.or_eq_true, decide_eq_true_eq, Bool.and_eq_true, Bool.not_eq_true', not_or,
      not_and] at h
    refine iff_of_true ⟨_, rfl⟩ ?_
    cases hopen : rest.isOpen with
    | true => exact .inr ⟨rfl, Nat.le_of_not_lt h.1⟩
    | false =>
      have := h.2 hopen
      exact .inl (by omega)

/-- **The parameters are bound to what the call gives them.** -/
theorem areGiven_of_bind {fixed : List Text} {rest : Rest} {c : Call} {a : Arguments}
    {is inner : List Item} (hread : c.IsReadFrom is inner)
    (hparameters : Definition.AreParameters fixed rest) (hrestName : restName ∉ fixed)
    (h : bind fixed rest c = .ok a) : a.AreGiven fixed rest c inner := by
  have hcount := (exists_bind_iff fixed rest c).1 ⟨a, h⟩
  rw [← length_counted] at hcount
  have hname : ∀ p ∈ fixed, p ≠ rest.name ∧ p ≠ restName := by
    intro p hp
    refine ⟨?_, fun h => hrestName (h ▸ hp)⟩
    rintro rfl
    cases rest with
    | none => exact hrestName hp
    | anonymous => exact hrestName hp
    | named n => exact (hparameters.rest n rfl).2.2 hp
  rw [bind] at h
  split at h
  · cases h
  obtain rfl := Except.ok.inj h
  constructor
  · intro n p hp
    have hmem := List.mem_of_getElem? hp
    rw [counted_of_ne_nil (List.ne_nil_of_mem hmem)] at hcount ⊢
    have hn : n < c.args.length := by
      have := (List.getElem?_eq_some_iff.1 hp).1
      omega
    refine ⟨c.args[n], List.getElem?_eq_getElem hn, ?_⟩
    have hvalue : (c.args.map Item.trim)[n]? = some (Item.trim c.args[n]) := by
      rw [List.getElem?_map, List.getElem?_eq_getElem hn, Option.map_some]
    have hlast : ∀ m, n < m → fixed[m]? ≠ some p := by
      intro m hm hagain
      have hbound := (List.getElem?_eq_some_iff.1 hp).1
      have := (List.getElem?_inj hbound hparameters.nodup).1 (hp.trans hagain.symm)
      omega
    have hlookup := lookup_reverse_zip hp hvalue hlast
    rw [get]
    cases rest.isOpen with
    | false => simp [hlookup]
    | true => simp [hlookup, hname p hmem]
  · intro hopen
    have hrest : Item.trim (Call.restOf fixed.length (counted fixed c.args) c.commas) =
        Item.trim (Call.behindComma fixed.length inner) := by
      obtain ⟨arg, args, hargs, hdivided⟩ := hread.isDivided
      rcases counted_cases fixed c.args with hcounted | ⟨rfl, hcounted, blank, hblank, htrim⟩
      · rw [hcounted, hargs, hdivided.restOf_eq]
      · -- all that stands between the brackets is the blank argument
        obtain ⟨rfl, rfl⟩ := List.cons.inj (hargs.symm.trans hblank)
        obtain hcommas := List.eq_nil_of_length_eq_zero hdivided.length_eq.symm
        have hinner := hdivided.interleave_eq
        rw [hcommas, Call.interleave, List.flatten_cons, List.flatten_nil, List.append_nil] at hinner
        rw [hcounted, ← hinner]
        exact htrim.symm
    rw [get, get, hopen]
    simp [hrest]

end Arguments

/-- **Argument lists lose nothing, and neither do the parameters that they are bound to.**

An argument list follows a name exactly if, behind white space, a bracket is opened and
matched; it is left open exactly if the bracket is never matched, and absent if there is
none.  A list takes up all items up to the first bracket that matches.  Its arguments
with the commas between them are what stands between the brackets, and they are balanced
and have no comma outside of brackets.

A function that was read, with no fixed parameter of the name that every rest has, takes
a call exactly if it is given an argument for each fixed parameter, and no more unless it
has a rest.  Then these parameters stand for their arguments, trimmed, and the rest stands
for all that follows the comma behind them, trimmed. -/
theorem Call.following_keeps_all (is : List Item) :
    ((∃ c, following is = .call c) ↔ ∃ white opening inner close rest,
        Opens is white opening (inner ++ close :: rest) ∧ close.isPunct [')'] = true ∧
          IsBalanced inner) ∧
      (following is = .unclosed ↔ ∃ white opening rest, Opens is white opening rest ∧
        ∀ inner close behind, rest = inner ++ close :: behind → close.isPunct [')'] = true →
          ¬IsBalanced inner) ∧
      (following is = .absent ↔ ¬∃ white opening rest, Opens is white opening rest) ∧
      ∀ c, following is = .call c → ∃ inner, c.IsReadFrom is inner ∧
        ∀ operand file line d fixed rest, Definition.read operand file line = .ok d →
          d.shape = .function fixed rest → restName ∉ fixed →
          ((∃ a, Arguments.bind fixed rest c = .ok a) ↔
              c.given fixed.length = fixed.length ∨
                rest.isOpen = true ∧ fixed.length ≤ c.given fixed.length) ∧
            ∀ a, Arguments.bind fixed rest c = .ok a → a.AreGiven fixed rest c inner := by
  refine ⟨exists_following_iff, following_eq_unclosed_iff, following_eq_absent_iff, ?_⟩
  intro c hc
  obtain ⟨inner, hread⟩ := isReadFrom_of_following hc
  refine ⟨inner, hread, ?_⟩
  intro operand file line d fixed rest hd hshape hrestName
  refine ⟨Arguments.exists_bind_iff fixed rest c, fun a ha => ?_⟩
  have hparameters : Definition.AreParameters fixed rest := by
    rcases (Definition.isDeclared_of_read hd).1.shape with hobject | ⟨_, _, hfunction, hdeclared⟩
    · rw [hshape] at hobject
      cases hobject
    · obtain ⟨rfl, rfl⟩ := Shape.function.inj (hshape.symm.trans hfunction)
      exact hdeclared
  exact Arguments.areGiven_of_bind hread hparameters hrestName ha

/-- The item number `n` of a line, which is a punctuator. -/
def punctuatorAt (n : Nat) (c : Char) : Item :=
  { token := ⟨.punctuator, [c], n⟩, span := ⟨n, n⟩ }

/-- The item number `n` of a line, which is a name. -/
def nameAt (n : Nat) (c : Char) : Item :=
  { token := ⟨.ident, [c], n⟩, span := ⟨n, n⟩ }

/-- The argument list of `(a,(b,c),d)`. -/
def nestedCall : Call where
  args := [[nameAt 1 'a'], [punctuatorAt 3 '(', nameAt 4 'b', punctuatorAt 5 ',', nameAt 6 'c',
    punctuatorAt 7 ')'], [nameAt 9 'd']]
  commas := [punctuatorAt 2 ',', punctuatorAt 8 ',']
  close := punctuatorAt 10 ')'
  size := 11

/-- A comma inside of brackets divides no arguments, and the rest has all but the first one. -/
theorem Call.following_keeps_all_nested :
    ∃ inner d a, following (Item.ofTokens (tokenize "(a,(b,c),d)e".toList)) = .call nestedCall ∧
      Definition.read "F(x, y...) y".toList none none = .ok d ∧
      d.shape = .function [['x']] (.named ['y']) ∧ restName ∉ [['x']] ∧
      nestedCall.IsReadFrom (Item.ofTokens (tokenize "(a,(b,c),d)e".toList)) inner ∧
      Arguments.bind [['x']] (.named ['y']) nestedCall = .ok a ∧
      a.AreGiven [['x']] (.named ['y']) nestedCall inner := by
  have hcall : following (Item.ofTokens (tokenize "(a,(b,c),d)e".toList)) = .call nestedCall := by
    decide +kernel
  have hread : Definition.read "F(x, y...) y".toList none none =
      .ok { name := ['F'], shape := .function [['x']] (.named ['y'])
            body := [⟨.ident, ['y'], 0⟩] } := by
    decide +kernel
  obtain ⟨-, -, -, hkeeps⟩ := following_keeps_all (Item.ofTokens (tokenize "(a,(b,c),d)e".toList))
  obtain ⟨inner, hinner, hbind⟩ := hkeeps _ hcall
  obtain ⟨hcount, hgiven⟩ := hbind _ _ _ _ _ _ hread rfl (by decide)
  obtain ⟨a, ha⟩ := hcount.2 (.inr ⟨rfl, by decide⟩)
  exact ⟨inner, _, a, hcall, hread, rfl, by decide, hinner, ha, hgiven a ha⟩

end Expansion
end DevicetreePrep
