/-
# How expansion covers a line

While a line is expanded, what is pending is made up of two parts: items that
replacements brought in, and behind them the items of the line that were not
reached yet.  All the items of the first part come from one stretch of the line,
which ends right before the second part.  A replacement that starts in the first
part and goes on into the second one only makes this stretch longer.  So the line
is cut into blocks, each of which was replaced as a whole, and the items between
two blocks, which went to the output as they are.

`Covered` says this of a state of the expansion, `IsCovered.pass` and
`IsCovered.replace` say that its two kinds of steps keep it so, and
`isCovered_expandFrom` says it of a whole expansion.
-/

import DevicetreePrep.Expansion

namespace DevicetreePrep
namespace Expansion

theorem Item.getElem?_ofTokens (ts : List Token) (n : Nat) :
    (Item.ofTokens ts)[n]? = ts[n]?.map fun t => { token := t, span := ⟨n, n⟩ } := by
  rw [Item.ofTokens, List.getElem?_mapIdx]

theorem Item.length_ofTokens (ts : List Token) : (Item.ofTokens ts).length = ts.length :=
  List.length_mapIdx

/-- The items of a line have its tokens. -/
theorem Item.map_token_ofTokens (ts : List Token) : (Item.ofTokens ts).map Item.token = ts := by
  refine List.ext_getElem? fun n => ?_
  rw [List.getElem?_map, Item.getElem?_ofTokens]
  cases ts[n]? <;> rfl

/-- No item of a line was brought in by a replacement. -/
theorem Item.produced_of_mem_ofTokens {ts : List Token} {i : Item} (h : i ∈ Item.ofTokens ts) :
    i.produced = false := by
  obtain ⟨n, hn⟩ := List.mem_iff_getElem?.1 h
  rw [Item.getElem?_ofTokens] at hn
  obtain ⟨t, -, rfl⟩ := Option.map_eq_some_iff.1 hn
  rfl

/-- The item of a line at the front of its further items. -/
theorem Item.of_drop_ofTokens {ts : List Token} {n : Nat} {i : Item} {tail : List Item}
    (h : (Item.ofTokens ts).drop n = i :: tail) :
    i.span = ⟨n, n⟩ ∧ i.produced = false ∧ tail = (Item.ofTokens ts).drop (n + 1) ∧
      n < ts.length := by
  have hn : n < (Item.ofTokens ts).length := by
    refine Nat.lt_of_not_le fun hn => ?_
    rw [List.drop_eq_nil_of_le hn] at h
    cases h
  rw [List.drop_eq_getElem_cons hn] at h
  obtain ⟨hi, htail⟩ := List.cons.inj h
  rw [Item.length_ofTokens] at hn
  refine ⟨?_, ?_, htail.symm, hn⟩
  · rw [← hi]; simp [Item.ofTokens]
  · rw [← hi]; simp [Item.ofTokens]

/-- Items that are no candidates for replacement are passed on. -/
theorem expandFrom_of_forall {ctx : Context} {pending : List Item}
    (h : ∀ i ∈ pending, candidate? ctx.table i = none) (expand : Expander) (budget : Int)
    (done : Outcome) :
    expandFrom ctx expand budget done pending =
      { done with items := done.items.reverse ++ pending, events := done.events.reverse } := by
  induction pending generalizing done with
  | nil => rw [expandFrom, List.append_nil]
  | cons i tail ih =>
    rw [expandFrom, h i (List.mem_cons_self ..)]
    dsimp only
    rw [ih fun j hj => h j (List.mem_cons_of_mem _ hj), List.reverse_cons, List.append_assoc]
    rfl

/-- A stretch of a line that was replaced as a whole. -/
structure Block where
  span : Span
  /-- The definition that was replaced first. -/
  definition : Definition
  /-- What it was replaced by, as far as it went to the output. -/
  items : List Item := []

namespace Block

/-- The replacements of a block, taken as one. -/
def group (b : Block) : Group :=
  ⟨b.span, b.definition⟩

/-- The output for the first `n` items of the line `raw`, in which the blocks are
replaced.  The last block comes first. -/
def layout (raw : List Item) : List Block → Nat → List Item
  | [], n => raw.take n
  | b :: bs, n => layout raw bs b.span.lo ++ b.items ++ (raw.take n).drop (b.span.hi + 1)

/-- The output grows with the items of the line that are passed. -/
theorem layout_succ {raw : List Item} {blocks : List Block} {n : Nat}
    (hb : ∀ b ∈ blocks, b.span.hi < n) (hn : n < raw.length) :
    layout raw blocks (n + 1) = layout raw blocks n ++ [raw[n]] := by
  have htake : raw.take (n + 1) = raw.take n ++ [raw[n]] := by
    rw [List.take_append_getElem]
  cases blocks with
  | nil => exact htake
  | cons b bs =>
    have hlen : b.span.hi + 1 ≤ (raw.take n).length := by
      rw [List.length_take, Nat.min_eq_left (Nat.le_of_lt hn)]
      exact hb b (List.mem_cons_self ..)
    rw [layout, layout, htake, List.drop_append_of_le_length hlen, ← List.append_assoc]

end Block

/-- The output `items` and the replacements `events`, the latest ones first, come
from the first `n` items of the line `raw`, cut into `blocks`; of what replaced the
last block, the items in `front` are still pending. -/
structure Covered (raw : List Item) (blocks : List Block) (n : Nat) (front items : List Item)
    (events : List Event) : Prop where
  within : n ≤ raw.length
  items_eq : items.reverse = Block.layout raw blocks n
  groups_eq : events.reverse.foldl Group.add [] = blocks.map Block.group
  sorted : events.Pairwise fun e f => f.span.lo ≤ e.span.lo
  latest : ∀ e ∈ events, ∃ b ∈ blocks.head?, e.span.lo ≤ b.span.lo
  bounds : ∀ b ∈ blocks, b.span.lo ≤ b.span.hi ∧ b.span.hi < n
  apart : blocks.Pairwise fun b c => c.span.hi < b.span.lo
  own : ∀ b ∈ blocks, ∀ i ∈ b.items, i.produced = true ∧ i.span.lo = b.span.lo
  pending : ∀ i ∈ front, i.produced = true ∧ ∃ b ∈ blocks.head?, i.span = b.span ∧ b.span.hi + 1 = n

variable {ts : List Token} {items : List Item} {events : List Event}

/-- What is pending when a state of the expansion of a line is covered. -/
def IsCovered (ts : List Token) (items : List Item) (events : List Event) (pending : List Item) :
    Prop :=
  ∃ blocks n front, Covered (Item.ofTokens ts) blocks n front items events ∧
    pending = front ++ (Item.ofTokens ts).drop n

/-- Before anything is expanded the whole line is pending. -/
theorem isCovered_nil (ts : List Token) : IsCovered ts [] [] (Item.ofTokens ts) := by
  refine ⟨[], 0, [], ?_, rfl⟩
  constructor <;> simp [Block.layout]

/-- **An item that goes to the output as it is** belongs to the last block, or to
what follows it. -/
theorem IsCovered.pass {i : Item} {tail : List Item} (h : IsCovered ts items events (i :: tail)) :
    IsCovered ts (i :: items) events tail := by
  obtain ⟨blocks, n, front, hc, hp⟩ := h
  cases front with
  | nil =>
    obtain ⟨hspan, hprod, htail, hn⟩ := Item.of_drop_ofTokens hp.symm
    rw [← Item.length_ofTokens] at hn
    have hi : i = (Item.ofTokens ts)[n] := by
      rw [List.nil_append, List.drop_eq_getElem_cons hn] at hp
      exact (List.cons.inj hp).1
    refine ⟨blocks, n + 1, [], { hc with within := hn, items_eq := ?_, bounds := ?_, pending := ?_ },
      htail⟩
    · rw [List.reverse_cons, hc.items_eq, Block.layout_succ (fun b hb => (hc.bounds b hb).2) hn, hi]
    · exact fun b hb => ⟨(hc.bounds b hb).1, Nat.lt_succ_of_lt (hc.bounds b hb).2⟩
    · simp
  | cons j front =>
    obtain ⟨rfl, rfl⟩ := List.cons.inj hp
    obtain ⟨hprod, b, hb, hspan, hn⟩ := hc.pending i (List.mem_cons_self ..)
    obtain ⟨bs, rfl⟩ := List.head?_eq_some_iff.1 hb
    refine ⟨{ b with items := b.items ++ [i] } :: bs, n, front, ?_, rfl⟩
    have hlayout : ((Item.ofTokens ts).take n).drop (b.span.hi + 1) = [] := by
      rw [hn, List.drop_eq_nil_of_le (List.length_take_le ..)]
    constructor
    case within => exact hc.within
    case items_eq =>
      rw [List.reverse_cons, hc.items_eq, Block.layout, Block.layout, hlayout]
      simp only [List.append_nil, List.append_assoc]
    case groups_eq => exact hc.groups_eq
    case sorted => exact hc.sorted
    case latest =>
      intro e he
      obtain ⟨b', hb', hlo⟩ := hc.latest e he
      exact ⟨_, rfl, by rwa [Option.some.inj hb']⟩
    case bounds =>
      intro b' hb'
      rcases List.mem_cons.1 hb' with rfl | hb'
      · exact hc.bounds b (List.mem_cons_self ..)
      · exact hc.bounds b' (List.mem_cons_of_mem _ hb')
    case apart => exact List.pairwise_cons.2 (List.pairwise_cons.1 hc.apart)
    case own =>
      intro b' hb' j hj
      rcases List.mem_cons.1 hb' with rfl | hb'
      · rcases List.mem_append.1 hj with hj | hj
        · exact hc.own b (List.mem_cons_self ..) j hj
        · rw [List.mem_singleton.1 hj]
          exact ⟨hprod, by rw [hspan]⟩
      · exact hc.own b' (List.mem_cons_of_mem _ hb') j hj
    case pending =>
      intro j hj
      obtain ⟨hprod, b', hb', hspan, hn⟩ := hc.pending j (List.mem_cons_of_mem _ hj)
      obtain rfl := Option.some.inj hb'
      exact ⟨hprod, _, rfl, hspan, hn⟩

/-- Items that go to the output as they are. -/
theorem IsCovered.pass_append {passed tail : List Item}
    (h : IsCovered ts items events (passed ++ tail)) :
    IsCovered ts (passed.reverse ++ items) events tail := by
  induction passed generalizing items with
  | nil => exact h
  | cons i passed ih =>
    rw [List.reverse_cons, List.append_assoc]
    exact ih h.pass

/-- The span of an item and of items that stand for the same stretch. -/
theorem Item.spanOf_of_forall {i : Item} {is : List Item} (h : ∀ j ∈ is, j.span = i.span) :
    i.spanOf is = i.span := by
  have hhull (s : Span) : s.hull s = s := by
    rw [Span.hull, Nat.min_self, Nat.max_self]
  rw [Item.spanOf]
  induction is with
  | nil => rfl
  | cons j is ih =>
    rw [List.foldl_cons, h j (List.mem_cons_self ..), hhull]
    exact ih fun j' hj' => h j' (List.mem_cons_of_mem _ hj')

/-- The span of a stretch of the line together with the next `k` items. -/
theorem foldl_hull_take_drop {lo hi k : Nat} (hlo : lo ≤ hi) (hk : hi + k < ts.length) :
    (((Item.ofTokens ts).drop (hi + 1)).take k).foldl (fun (s : Span) j => s.hull j.span) ⟨lo, hi⟩ =
      ⟨lo, hi + k⟩ := by
  induction k generalizing hi with
  | zero => rfl
  | succ k ih =>
    have hlt : hi + 1 < (Item.ofTokens ts).length := by
      rw [Item.length_ofTokens]
      omega
    have hspan : (Item.ofTokens ts)[hi + 1].span = ⟨hi + 1, hi + 1⟩ := by
      simp [Item.ofTokens]
    have hhull : Span.hull ⟨lo, hi⟩ ⟨hi + 1, hi + 1⟩ = ⟨lo, hi + 1⟩ := by
      simp only [Span.hull, Span.mk.injEq]
      omega
    rw [List.drop_eq_getElem_cons hlt, List.take_succ_cons, List.foldl_cons, hspan, hhull,
      ih (by omega) (by omega), Nat.add_right_comm, Nat.add_assoc]

/-- **An item of the line that is replaced** starts a block, which reaches to the
last item that is replaced with it. -/
theorem Covered.openBlock {blocks : List Block} {n size : Nat} {e : Event} {new : List Item}
    (h : Covered (Item.ofTokens ts) blocks n [] items events) (hsize : n + size < ts.length)
    (hspan : e.span = ⟨n, n + size⟩) (hnew : ∀ j ∈ new, j.produced = true ∧ j.span = e.span) :
    Covered (Item.ofTokens ts) (⟨e.span, e.definition, []⟩ :: blocks) (n + size + 1) new items
      (e :: events) := by
  have hlo : e.span.lo = n := by rw [hspan]
  have hhi : e.span.hi = n + size := by rw [hspan]
  constructor
  case within => rw [Item.length_ofTokens]; exact hsize
  case items_eq =>
    rw [h.items_eq, Block.layout, hlo, hhi, List.drop_eq_nil_of_le (List.length_take_le ..),
      List.append_nil, List.append_nil]
  case groups_eq =>
    rw [List.reverse_cons, List.foldl_append, h.groups_eq]
    cases blocks with
    | nil => rfl
    | cons b bs =>
      have hb := (h.bounds b (List.mem_cons_self ..)).2
      rw [List.map_cons, List.foldl_cons, List.foldl_nil, Group.add, if_neg]
      · rfl
      · rw [hlo]
        exact Nat.not_le.2 hb
  case sorted =>
    refine List.pairwise_cons.2 ⟨fun f hf => ?_, h.sorted⟩
    obtain ⟨b, hb, hfb⟩ := h.latest f hf
    have := h.bounds b (List.mem_of_mem_head? hb)
    omega
  case latest =>
    intro f hf
    refine ⟨_, rfl, ?_⟩
    rcases List.mem_cons.1 hf with rfl | hf
    · exact Nat.le_refl _
    · obtain ⟨b, hb, hfb⟩ := h.latest f hf
      have := h.bounds b (List.mem_of_mem_head? hb)
      dsimp only
      omega
  case bounds =>
    intro b hb
    rcases List.mem_cons.1 hb with rfl | hb
    · dsimp only
      omega
    · have := h.bounds b hb
      omega
  case apart =>
    refine List.pairwise_cons.2 ⟨fun b hb => ?_, h.apart⟩
    have := h.bounds b hb
    dsimp only
    omega
  case own =>
    intro b hb
    rcases List.mem_cons.1 hb with rfl | hb
    · exact fun i hi => absurd hi List.not_mem_nil
    · exact h.own b hb
  case pending =>
    intro j hj
    obtain ⟨hprod, hj⟩ := hnew j hj
    exact ⟨hprod, _, rfl, hj, by rw [hhi]⟩

/-- **An item of the last block that is replaced** together with the next `k` items
of the line makes the block longer by these. -/
theorem Covered.extendBlock {b : Block} {bs : List Block} {n k : Nat} {e : Event}
    {front new : List Item} (h : Covered (Item.ofTokens ts) (b :: bs) n front items events)
    (hn : b.span.hi + 1 = n) (hk : n + k ≤ ts.length)
    (hspan : e.span = ⟨b.span.lo, b.span.hi + k⟩)
    (hnew : ∀ j ∈ new, j.produced = true ∧ j.span = e.span) :
    Covered (Item.ofTokens ts) ({ b with span := e.span } :: bs) (n + k) new items
      (e :: events) := by
  have hlo : e.span.lo = b.span.lo := by rw [hspan]
  have hhi : e.span.hi = b.span.hi + k := by rw [hspan]
  have hb := h.bounds b (List.mem_cons_self ..)
  constructor
  case within => rw [Item.length_ofTokens]; exact hk
  case items_eq =>
    rw [h.items_eq, Block.layout, Block.layout, hlo, hhi,
      List.drop_eq_nil_of_le (Nat.le_trans (List.length_take_le ..) (by omega)),
      List.drop_eq_nil_of_le (Nat.le_trans (List.length_take_le ..) (by omega))]
  case groups_eq =>
    rw [List.reverse_cons, List.foldl_append, h.groups_eq, List.map_cons, List.foldl_cons,
      List.foldl_nil, Group.add, if_pos]
    · rw [List.map_cons, Block.group, Block.group, hspan]
      dsimp only
      rw [Nat.max_eq_right (Nat.le_add_right _ _)]
    · rw [hlo]
      exact hb.1
  case sorted =>
    refine List.pairwise_cons.2 ⟨fun f hf => ?_, h.sorted⟩
    obtain ⟨b', hb', hfb⟩ := h.latest f hf
    rwa [hlo, Option.some.inj hb']
  case latest =>
    intro f hf
    refine ⟨_, rfl, ?_⟩
    rcases List.mem_cons.1 hf with rfl | hf
    · exact Nat.le_refl _
    · obtain ⟨b', hb', hfb⟩ := h.latest f hf
      rwa [hlo, Option.some.inj hb']
  case bounds =>
    intro b' hb'
    rcases List.mem_cons.1 hb' with rfl | hb'
    · dsimp only
      omega
    · have := h.bounds b' (List.mem_cons_of_mem _ hb')
      omega
  case apart =>
    obtain ⟨hbs, happart⟩ := List.pairwise_cons.1 h.apart
    exact List.pairwise_cons.2 ⟨fun c hc => by rw [hlo]; exact hbs c hc, happart⟩
  case own =>
    intro b' hb'
    rcases List.mem_cons.1 hb' with rfl | hb'
    · rw [hlo]
      exact h.own b (List.mem_cons_self ..)
    · exact h.own b' (List.mem_cons_of_mem _ hb')
  case pending =>
    intro j hj
    obtain ⟨hprod, hj⟩ := hnew j hj
    exact ⟨hprod, _, rfl, hj, by rw [hhi]; omega⟩

/-- **A replacement** of an item together with the next `size` ones. -/
theorem IsCovered.replace {i : Item} {tail new : List Item} {size : Nat} {e : Event}
    (h : IsCovered ts items events (i :: tail)) (hsize : size ≤ tail.length)
    (hspan : e.span = i.spanOf (tail.take size))
    (hnew : ∀ j ∈ new, j.produced = true ∧ j.span = e.span) :
    IsCovered ts items (e :: events) (new ++ tail.drop size) := by
  obtain ⟨blocks, n, front, hc, hp⟩ := h
  cases front with
  | nil =>
    obtain ⟨hi, -, htail, hn⟩ := Item.of_drop_ofTokens hp.symm
    rw [htail, List.length_drop, Item.length_ofTokens] at hsize
    refine ⟨_, n + size + 1, new, hc.openBlock (by omega) ?_ hnew, ?_⟩
    · rw [hspan, Item.spanOf, hi, htail, foldl_hull_take_drop (Nat.le_refl n) (by omega)]
    · rw [htail, List.drop_drop, Nat.add_right_comm]
  | cons j front =>
    rw [List.cons_append] at hp
    obtain ⟨rfl, rfl⟩ := List.cons.inj hp
    obtain ⟨-, b, hb, hi, hn⟩ := hc.pending i (List.mem_cons_self ..)
    obtain ⟨bs, rfl⟩ := List.head?_eq_some_iff.1 hb
    have hfront : ∀ j ∈ front, j.produced = true ∧ j.span = b.span := by
      intro j hj
      obtain ⟨hprod, b', hb', hspan, -⟩ := hc.pending j (List.mem_cons_of_mem _ hj)
      exact ⟨hprod, by rw [hspan, Option.some.inj hb']⟩
    -- the replacement takes `k` items of the line, those behind the rest of the block
    generalize hk : size - front.length = k
    have hwithin := hc.within
    rw [Item.length_ofTokens] at hwithin
    rw [List.length_append, List.length_drop, Item.length_ofTokens] at hsize
    have hb := hc.bounds b (List.mem_cons_self ..)
    have htake : i.spanOf (front.take size) = ⟨b.span.lo, b.span.hi⟩ := by
      rw [Item.spanOf_of_forall fun j hj => by rw [(hfront j (List.mem_of_mem_take hj)).2, hi], hi]
    have hlonger : e.span = ⟨b.span.lo, b.span.hi + k⟩ := by
      rw [hspan, List.take_append, hk, Item.spanOf, List.foldl_append, ← Item.spanOf, htake, ← hn,
        foldl_hull_take_drop hb.1 (by omega)]
    refine ⟨_, n + k, new ++ front.drop size,
      hc.extendBlock hn (by omega) hlonger fun j hj => ?_, ?_⟩
    · rcases List.mem_append.1 hj with hj | hj
      · exact hnew j hj
      · -- something of the block is left only if nothing of the line was taken
        have hlt : 0 < (front.drop size).length := List.length_pos_of_mem hj
        rw [List.length_drop] at hlt
        obtain rfl : k = 0 := by omega
        obtain ⟨hprod, hj⟩ := hfront j (List.mem_of_mem_drop hj)
        exact ⟨hprod, by rw [hj, hlonger]; rfl⟩
    · rw [List.drop_append, hk, List.drop_drop, List.append_assoc]

/-- The items that take the place of an item and of those `taken` with it stand for
the stretch of all of these. -/
theorem span_of_substitute {expand : Expander} {budget : Int} {counter : Nat} {d : Definition}
    {args : Arguments} {i : Item} {taken : List Item} {hide : List Text} {size : Nat}
    {new : List Item} {e : Event} {spent counter' : Nat} {reports : List Report}
    (h : substitute expand budget counter d args i taken hide =
      .replace size new e spent counter' reports) :
    size = taken.length ∧ e.span = i.spanOf taken ∧
      ∀ j ∈ new, j.produced = true ∧ j.span = e.span := by
  rw [substitute] at h
  obtain ⟨rfl, rfl, rfl, -⟩ := Action.replace.inj h
  refine ⟨rfl, rfl, fun j hj => ?_⟩
  obtain ⟨p, -, rfl⟩ := List.mem_map.1 hj
  exact ⟨rfl, rfl⟩

/-- A replacement takes the items behind its name that belong to it, and what it
brings in stands for the stretch of all of these. -/
theorem span_of_invoke {ctx : Context} {expand : Expander} {budget : Int} {counter : Nat}
    {d : Definition} {i : Item} {tail : List Item} {size : Nat} {new : List Item} {e : Event}
    {spent counter' : Nat} {reports : List Report}
    (h : invoke ctx expand budget counter d i tail = .replace size new e spent counter' reports) :
    size ≤ tail.length ∧ e.span = i.spanOf (tail.take size) ∧
      ∀ j ∈ new, j.produced = true ∧ j.span = e.span := by
  unfold invoke at h
  split at h
  · obtain ⟨rfl, rfl, rfl, -⟩ := Action.replace.inj h
    refine ⟨Nat.zero_le _, rfl, fun j hj => ?_⟩
    rw [List.mem_singleton.1 hj]
    exact ⟨rfl, rfl⟩
  · obtain ⟨rfl, hspan, hnew⟩ := span_of_substitute h
    exact ⟨Nat.zero_le _, hspan, hnew⟩
  · split at h
    · cases h
    · cases h
    · split at h
      · cases h
      · obtain ⟨rfl, hspan, hnew⟩ := span_of_substitute h
        rw [List.length_take, ← List.take_eq_take_min]
        exact ⟨Nat.min_le_right _ _, hspan, hnew⟩

/-- **The expansion of a line covers the line.** -/
theorem isCovered_expandFrom {ctx : Context} {expand : Expander} {budget : Int} {done : Outcome}
    {pending : List Item} (h : IsCovered ts done.items done.events pending) :
    IsCovered ts (expandFrom ctx expand budget done pending).items.reverse
      (expandFrom ctx expand budget done pending).events.reverse [] := by
  fun_induction expandFrom ctx expand budget done pending with
  | case1 budget done =>
    rw [List.reverse_reverse, List.reverse_reverse]
    exact h
  | case2 budget done i tail hi ih => exact ih h.pass
  | case3 budget done i tail d hd hbudget size reports hinvoke ih =>
    refine ih (IsCovered.pass_append ?_)
    rwa [List.cons_append, List.take_append_drop]
  | case4 budget done i tail d hd hbudget size new e spent counter reports hinvoke ih =>
    obtain ⟨hsize, hspan, hnew⟩ := span_of_invoke hinvoke
    exact ih (h.replace hsize hspan hnew)
  | case5 done i tail d hd _ ih => exact ih h.pass
  | case6 budget done i tail d hd _ _ ih => exact ih h.pass

end Expansion
end DevicetreePrep
