/-
# Where the substitutions of a line start and stop

What is replaced in a line is told by numbers of tokens, and an item that a replacement
brought in stands for all the tokens that were replaced with it.  A group of replacements
is anchored (`Group.IsAnchored`) if the token with its first number is the name of its
definition and the token with its last number is not white space.

The first replacement of a group is that of an item of the line, which is its own name; a
later one starts with an item that the group brought in.  The pending items are in the
order of the line, and what is replaced ends with a name or with a closing bracket
(`taken_of_invoke`), so the last number belongs to such a token.  `Anchored` says this of a
state of the expansion, `Anchored.pass` and `Anchored.replace` say that its steps keep it
so, and `isAnchored_of_expand` says it of all groups in the end.  Since tokens follow each
other, so do the substitutions that stand for the groups (`expandLine_wellPlaced`).
-/

import DevicetreePrep.Proofs.Expansion.Arguments
import DevicetreePrep.Proofs.Expansion.Redefinition
import DevicetreePrep.Proofs.Expansion.Segments
import DevicetreePrep.Proofs.Expansion.Unfolding
import DevicetreePrep.Proofs.Token.Offset

namespace DevicetreePrep
namespace Expansion

/-! What a call takes up. -/

/-- A call ends with its closing bracket. -/
theorem Call.take_size {tail : List Item} {c : Call} (h : following tail = .call c) :
    (∃ front, tail.take c.size = front ++ [c.close]) ∧ c.close.isPunct [')'] = true := by
  obtain ⟨inner, hread⟩ := isReadFrom_of_following h
  obtain ⟨white, opening, htake⟩ := hread.take_size
  refine ⟨⟨white ++ opening :: inner, ?_⟩, hread.close⟩
  rw [htake, List.append_assoc, List.cons_append]

/-- A replacement is that of its definition.  It takes up a name alone, or a name and what
follows up to a closing bracket. -/
theorem taken_of_invoke {ctx : Context} {expand : Expander} {budget : Int} {counter : Nat}
    {d : Definition} {i : Item} {tail : List Item} {size : Nat} {new : List Item} {e : Event}
    {spent counter' : Nat} {reports : List Report}
    (h : invoke ctx expand budget counter d i tail = .replace size new e spent counter' reports) :
    e.definition = d ∧
      (size = 0 ∨ ∃ front close, tail.take size = front ++ [close] ∧
        close.isPunct [')'] = true) := by
  unfold invoke at h
  split at h
  · obtain ⟨rfl, -, rfl, -⟩ := Action.replace.inj h
    exact ⟨rfl, .inl rfl⟩
  · rw [substitute] at h
    obtain ⟨rfl, -, rfl, -⟩ := Action.replace.inj h
    exact ⟨rfl, .inl rfl⟩
  · split at h
    · cases h
    · cases h
    · rename_i c hcall
      obtain ⟨⟨front, hfront⟩, hclose⟩ := Call.take_size hcall
      split at h
      · cases h
      · rw [substitute] at h
        obtain ⟨rfl, -, rfl, -⟩ := Action.replace.inj h
        refine ⟨rfl, .inr ⟨front, c.close, ?_, hclose⟩⟩
        rw [List.length_take, ← List.take_eq_take_min, hfront]

/-! The hull of items in order. -/

/-- The hull of spans none of which starts before the first one starts where that does. -/
theorem lo_foldl_hull {s : Span} {is : List Item} (h : ∀ i ∈ is, s.lo ≤ i.span.lo) :
    (is.foldl (fun (s : Span) j => s.hull j.span) s).lo = s.lo := by
  induction is generalizing s with
  | nil => rfl
  | cons i is ih =>
    have hlo : (s.hull i.span).lo = s.lo := Nat.min_eq_left (h i (List.mem_cons_self ..))
    rw [List.foldl_cons, ih, hlo]
    rw [hlo]
    exact fun j hj => h j (List.mem_cons_of_mem _ hj)

/-- The hull of spans that end by `n` ends by `n`. -/
theorem hi_foldl_hull_le {s : Span} {is : List Item} {n : Nat} (hs : s.hi ≤ n)
    (h : ∀ i ∈ is, i.span.hi ≤ n) :
    (is.foldl (fun (s : Span) j => s.hull j.span) s).hi ≤ n := by
  induction is generalizing s with
  | nil => exact hs
  | cons i is ih =>
    rw [List.foldl_cons]
    exact ih (Nat.max_le.2 ⟨hs, h i (List.mem_cons_self ..)⟩) fun j hj =>
      h j (List.mem_cons_of_mem _ hj)

/-- Two items in the order of the line. -/
def Item.Leads (i j : Item) : Prop :=
  i.span.lo ≤ j.span.lo ∧ i.span.hi ≤ j.span.hi

/-- The hull of items in the order of the line reaches from the first to the last. -/
theorem Item.spanOf_concat {i last : Item} {front : List Item}
    (h : (i :: (front ++ [last])).Pairwise Leads) :
    i.spanOf (front ++ [last]) = ⟨i.span.lo, last.span.hi⟩ := by
  obtain ⟨hfirst, hrow⟩ := List.pairwise_cons.1 h
  obtain ⟨-, -, hlast⟩ := List.pairwise_append.1 hrow
  have hlo := lo_foldl_hull (s := i.span) fun j hj => (hfirst j (List.mem_append_left _ hj)).1
  have hmem : last ∈ front ++ [last] := List.mem_append_right _ (List.mem_singleton_self _)
  have hhi := hi_foldl_hull_le (hfirst last hmem).2 fun j hj =>
    (hlast j hj last (List.mem_singleton_self _)).2
  rw [Item.spanOf, List.foldl_append, List.foldl_cons, List.foldl_nil, Span.hull, hlo,
    Nat.min_eq_left (hfirst last hmem).1, Nat.max_eq_right hhi]

/-! Anchored groups. -/

/-- The token with a number is not white space. -/
def IsSolid (ts : List Token) (n : Nat) : Prop :=
  ∃ t, ts[n]? = some t ∧ t.isWhite = false

/-- A group starts at the name of its definition and ends at a token that is not white
space. -/
structure Group.IsAnchored (ts : List Token) (g : Group) : Prop where
  starts : ∃ t, ts[g.span.lo]? = some t ∧ t.isIdent = true ∧ t.text = g.definition.name
  ends : IsSolid ts g.span.hi

/-- The groups of the replacements so far, the last of which comes first, are anchored in
the line `ts`, and the groups to come will be: the pending items are in the order of the
line, and each is an item of the line or comes from the last group. -/
structure Anchored (ts : List Token) (groups : List Group) (pending : List Item) : Prop where
  anchored : ∀ g ∈ groups, g.IsAnchored ts
  ordered : pending.Pairwise Item.Leads
  bounds : ∀ i ∈ pending, i.span.lo ≤ i.span.hi
  solid : ∀ i ∈ pending, i.isWhite = false → IsSolid ts i.span.hi
  origin : ∀ i ∈ pending, ts[i.span.lo]? = some i.token ∨
    ∃ g ∈ groups.head?, i.span.lo ≤ g.span.hi

/-- Before anything is expanded the whole line is pending. -/
theorem anchored_ofTokens (ts : List Token) : Anchored ts [] (Item.ofTokens ts) := by
  have hitem {i : Item} (hi : i ∈ Item.ofTokens ts) :
      ts[i.span.lo]? = some i.token ∧ i.span.hi = i.span.lo := by
    obtain ⟨n, hn⟩ := List.mem_iff_getElem?.1 hi
    rw [Item.getElem?_ofTokens] at hn
    obtain ⟨t, ht, rfl⟩ := Option.map_eq_some_iff.1 hn
    exact ⟨ht, rfl⟩
  constructor
  case anchored => exact fun g hg => absurd hg List.not_mem_nil
  case ordered =>
    rw [Item.ofTokens, List.pairwise_iff_getElem]
    intro m n hm hn hmn
    simp only [List.getElem_mapIdx]
    exact ⟨Nat.le_of_lt hmn, Nat.le_of_lt hmn⟩
  case bounds => exact fun i hi => Nat.le_of_eq (hitem hi).2.symm
  case solid =>
    intro i hi hwhite
    exact ⟨i.token, by rw [(hitem hi).2, (hitem hi).1], hwhite⟩
  case origin => exact fun i hi => .inl (hitem hi).1

variable {ts : List Token} {groups : List Group}

/-- Items that go to the output are not pending any more. -/
theorem Anchored.pass (passed : List Item) {tail : List Item}
    (h : Anchored ts groups (passed ++ tail)) : Anchored ts groups tail where
  anchored := h.anchored
  ordered := (List.pairwise_append.1 h.ordered).2.1
  bounds i hi := h.bounds i (List.mem_append_right _ hi)
  solid i hi := h.solid i (List.mem_append_right _ hi)
  origin i hi := h.origin i (List.mem_append_right _ hi)

/-- A replacement makes the last group longer, or starts another group behind it. -/
theorem Group.add_cases (groups : List Group) (e : Event) :
    (∃ g gs, groups = g :: gs ∧ e.span.lo ≤ g.span.hi ∧
        add groups e = { g with span.hi := max g.span.hi e.span.hi } :: gs) ∨
      (∀ g ∈ groups.head?, g.span.hi < e.span.lo) ∧
        add groups e = ⟨e.span, e.definition⟩ :: groups := by
  cases groups with
  | nil => exact .inr ⟨nofun, rfl⟩
  | cons g gs =>
    by_cases h : e.span.lo ≤ g.span.hi
    · exact .inl ⟨g, gs, rfl, h, if_pos h⟩
    · refine .inr ⟨fun g' hg' => ?_, if_neg h⟩
      rw [← Option.some.inj hg']
      exact Nat.not_le.1 h

/-- The last group reaches as far as the replacement that was added, and as far as it did
before. -/
theorem Group.exists_head?_add (groups : List Group) {e : Event} (he : e.span.lo ≤ e.span.hi) :
    ∃ g ∈ (add groups e).head?, e.span.hi ≤ g.span.hi ∧
      ∀ g' ∈ groups.head?, g'.span.hi ≤ g.span.hi := by
  rcases add_cases groups e with ⟨g, gs, rfl, -, hadd⟩ | ⟨hlt, hadd⟩
  · rw [hadd]
    refine ⟨_, rfl, Nat.le_max_right _ _, fun g' hg' => ?_⟩
    rw [← Option.some.inj hg']
    exact Nat.le_max_left _ _
  · rw [hadd]
    refine ⟨_, rfl, Nat.le_refl _, fun g' hg' => ?_⟩
    exact Nat.le_of_lt (Nat.lt_of_lt_of_le (hlt g' hg') he)

/-- The groups stay anchored if the replacement ends at a token that is not white space
and, should it start a group, starts at the name of its definition. -/
theorem Group.isAnchored_add {e : Event} (h : ∀ g ∈ groups, g.IsAnchored ts)
    (hstarts : (∀ g ∈ groups.head?, g.span.hi < e.span.lo) →
      ∃ t, ts[e.span.lo]? = some t ∧ t.isIdent = true ∧ t.text = e.definition.name)
    (hends : IsSolid ts e.span.hi) : ∀ g ∈ add groups e, g.IsAnchored ts := by
  rcases add_cases groups e with ⟨g, gs, rfl, -, hadd⟩ | ⟨hlt, hadd⟩
  · rw [hadd]
    obtain ⟨⟨hstarts', hends'⟩, hgs⟩ := List.forall_mem_cons.1 h
    refine List.forall_mem_cons.2 ⟨⟨hstarts', ?_⟩, hgs⟩
    rcases Nat.le_total g.span.hi e.span.hi with hmax | hmax
    · simpa only [Nat.max_eq_right hmax] using hends
    · simpa only [Nat.max_eq_left hmax] using hends'
  · rw [hadd]
    exact List.forall_mem_cons.2 ⟨⟨hstarts hlt, hends⟩, h⟩

/-- **A replacement** of a name, together with the next `size` items, up to `last`. -/
theorem Anchored.replace {i last : Item} {tail new : List Item} {size : Nat} {e : Event}
    (h : Anchored ts groups (i :: tail)) (hi : i.token.isIdent = true)
    (hname : i.token.text = e.definition.name) (hspan : e.span = ⟨i.span.lo, last.span.hi⟩)
    (hlast : last ∈ i :: tail) (hsolid : last.isWhite = false)
    (hrest : ∀ j ∈ tail.drop size, last.Leads j)
    (hnew : ∀ j ∈ new, j.produced = true ∧ j.span = e.span) :
    Anchored ts (Group.add groups e) (new ++ tail.drop size) := by
  have hmem {j : Item} (hj : j ∈ tail.drop size) : j ∈ i :: tail :=
    List.mem_cons_of_mem _ (List.mem_of_mem_drop hj)
  have hlo : e.span.lo = i.span.lo := by rw [hspan]
  have hhi : e.span.hi = last.span.hi := by rw [hspan]
  have hleads : i.span.lo ≤ last.span.lo ∧ i.span.hi ≤ last.span.hi := by
    rcases List.mem_cons.1 hlast with rfl | hlast
    · exact ⟨Nat.le_refl _, Nat.le_refl _⟩
    · exact (List.pairwise_cons.1 h.ordered).1 last hlast
  have hle : e.span.lo ≤ e.span.hi := by
    have := h.bounds i (List.mem_cons_self ..)
    omega
  have hends : IsSolid ts e.span.hi := hhi ▸ h.solid last hlast hsolid
  obtain ⟨top, htop, hreach, hkeep⟩ := Group.exists_head?_add groups hle
  constructor
  case anchored =>
    refine Group.isAnchored_add h.anchored (fun hlt => ?_) hends
    -- the name does not come from the last group, so it is a token of the line
    rcases h.origin i (List.mem_cons_self ..) with htoken | ⟨g, hg, hig⟩
    · exact ⟨i.token, hlo ▸ htoken, hi, hname⟩
    · have := hlt g hg
      omega
  case ordered =>
    refine List.pairwise_append.2 ⟨?_, ?_, fun j hj k hk => ?_⟩
    · refine List.pairwise_of_forall_mem_list fun j hj k hk => ?_
      rw [Item.Leads, (hnew j hj).2, (hnew k hk).2]
      exact ⟨Nat.le_refl _, Nat.le_refl _⟩
    · exact (List.pairwise_cons.1 h.ordered).2.sublist (List.drop_sublist ..)
    · have := hrest k hk
      rw [Item.Leads] at this ⊢
      rw [(hnew j hj).2]
      omega
  case bounds =>
    intro j hj
    rcases List.mem_append.1 hj with hj | hj
    · rw [(hnew j hj).2]
      exact hle
    · exact h.bounds j (hmem hj)
  case solid =>
    intro j hj hwhite
    rcases List.mem_append.1 hj with hj | hj
    · rw [(hnew j hj).2]
      exact hends
    · exact h.solid j (hmem hj) hwhite
  case origin =>
    intro j hj
    rcases List.mem_append.1 hj with hj | hj
    · refine .inr ⟨top, htop, ?_⟩
      rw [(hnew j hj).2]
      exact Nat.le_trans hle hreach
    · rcases h.origin j (hmem hj) with htoken | ⟨g, hg, hjg⟩
      · exact .inl htoken
      · exact .inr ⟨top, htop, Nat.le_trans hjg (hkeep g hg)⟩

/-- Only a name may be a candidate. -/
theorem isIdent_of_candidate? {table : Table} {i : Item} {d : Definition}
    (h : candidate? table i = some d) : i.token.isIdent = true := by
  rw [candidate?] at h
  split at h
  · rename_i hi
    exact (Bool.and_eq_true_iff.1 hi).1
  · cases h

/-- The replacement of a pending item keeps the groups anchored. -/
theorem Anchored.invoke {ctx : Context} {expand : Expander} {budget : Int} {counter : Nat}
    {d : Definition} {i : Item} {tail : List Item} {size : Nat} {new : List Item} {e : Event}
    {spent counter' : Nat} {reports : List Report} (h : Anchored ts groups (i :: tail))
    (hd : candidate? ctx.table i = some d)
    (hinvoke : invoke ctx expand budget counter d i tail =
      .replace size new e spent counter' reports) :
    Anchored ts (Group.add groups e) (new ++ tail.drop size) := by
  obtain ⟨-, hspan, hnew⟩ := span_of_invoke hinvoke
  obtain ⟨rfl, htaken⟩ := taken_of_invoke hinvoke
  have hident := isIdent_of_candidate? hd
  have hname := (mem_of_candidate? hd).2.symm
  obtain ⟨hfirst, hrow⟩ := List.pairwise_cons.1 h.ordered
  rcases htaken with rfl | ⟨front, close, htake, hclose⟩
  · exact h.replace hident hname hspan (List.mem_cons_self ..) (isWhite_of_candidate? hd)
      (fun j hj => hfirst j (List.mem_of_mem_drop hj)) hnew
  · have hmem : close ∈ tail.take size := by
      rw [htake]
      exact List.mem_append_right _ (List.mem_singleton_self _)
    have hordered : (i :: (front ++ [close])).Pairwise Item.Leads := by
      rw [← htake]
      exact h.ordered.sublist ((List.take_sublist ..).cons_cons i)
    rw [htake, Item.spanOf_concat hordered] at hspan
    exact h.replace hident hname hspan (List.mem_cons_of_mem _ (List.mem_of_mem_take hmem))
      (Item.isWhite_of_isPunct hclose) (fun j hj => hrow.rel_of_mem_take_of_mem_drop hmem hj) hnew

/-- **The replacements of an expansion make anchored groups.** -/
theorem anchored_expandFrom {ctx : Context} {expand : Expander} {budget : Int} {done : Outcome}
    {pending : List Item} (h : Anchored ts (done.events.reverse.foldl Group.add []) pending) :
    ∀ g ∈ (expandFrom ctx expand budget done pending).events.foldl Group.add [],
      g.IsAnchored ts := by
  fun_induction expandFrom ctx expand budget done pending with
  | case1 budget done => exact h.anchored
  | case2 budget done i tail hi ih => exact ih (h.pass [i])
  | case3 budget done i tail d hd hbudget size reports hinvoke ih =>
    refine ih (Anchored.pass (i :: tail.take size) ?_)
    rwa [List.cons_append, List.take_append_drop]
  | case4 budget done i tail d hd hbudget size new e spent counter reports hinvoke ih =>
    refine ih ?_
    rw [List.reverse_cons, List.foldl_append]
    exact h.invoke hd hinvoke
  | case5 done i tail d hd _ ih => exact ih (h.pass [i])
  | case6 budget done i tail d hd _ _ ih => exact ih (h.pass [i])

/-- **The groups of a line are anchored.**  Replacements take place in the order of the
line, so that sorting them does not change the groups. -/
theorem isAnchored_of_expand {ctx : Context} {counter : Nat} {ts : List Token} {g : Group}
    (hg : g ∈ Group.ofEvents (expand ctx counter ts).events) : g.IsAnchored ts := by
  have hcovered : IsCovered ts (expand ctx counter ts).items.reverse
      (expand ctx counter ts).events.reverse [] :=
    isCovered_expandFrom (isCovered_nil ts)
  obtain ⟨blocks, n, front, hc, -⟩ := hcovered
  have hsorted := hc.ofEvents_eq
  rw [List.map_reverse, ← hc.groups_eq, List.reverse_reverse] at hsorted
  rw [hsorted, List.mem_reverse] at hg
  exact anchored_expandFrom (anchored_ofTokens ts) g hg

/-! Anchored groups in the text. -/

/-- The substitution is that of a group: it replaces the text from the first token of the
group through the last. -/
structure Group.Gives (raw : Text) (ts : List Token) (g : Group) (s : Substitution) : Prop where
  definition_eq : s.definition = g.definition
  start_eq : s.start = (ts[g.span.lo]?.map Token.offset).getD 0
  raw_eq : s.raw = raw.extract s.start ((ts[g.span.hi]?.map Token.stop).getD 0)

/-- Each substitution is given by a group. -/
theorem Group.exists_gives {raw : Text} {ts : List Token} {items : List Item} {gs : List Group}
    {s : Substitution} (h : s ∈ substitutions raw ts items gs) : ∃ g ∈ gs, g.Gives raw ts s := by
  induction gs with
  | nil => cases h
  | cons g gs ih =>
    rw [substitutions] at h
    rcases List.mem_cons.1 h with rfl | h
    · exact ⟨g, List.mem_cons_self .., rfl, rfl, rfl⟩
    · obtain ⟨g', hg', hgives⟩ := ih h
      exact ⟨g', List.mem_cons_of_mem _ hg', hgives⟩

/-- Each group gives one substitution. -/
theorem Group.exists_substitutions_cons (raw : Text) (ts : List Token) (items : List Item)
    (g : Group) (gs : List Group) :
    ∃ s, substitutions raw ts items (g :: gs) = s :: substitutions raw ts items gs ∧
      g.Gives raw ts s :=
  ⟨_, rfl, rfl, rfl, rfl⟩

/-- The tokens between which a substitution stands in the text. -/
structure Bounded (raw text : Text) (s : Substitution) (first last : Token) : Prop where
  ident : first.isIdent = true
  name_eq : first.text = s.definition.name
  start_eq : first.offset = s.start
  solid : last.isWhite = false
  stop_eq : last.stop = s.stop
  nonempty : s.raw ≠ []
  raw_eq : s.raw = raw.extract s.start s.stop
  within : s.stop ≤ text.length

/-- **A substitution stands between the first and the last token of its group.** -/
theorem Group.Gives.exists_bounded {raw text : Text} {g : Group} {s : Substitution}
    (h : g.Gives raw (tokenize text) s) (hg : g.IsAnchored (tokenize text))
    (hlohi : g.span.lo ≤ g.span.hi) (hlength : raw.length = text.length) :
    ∃ first last, (tokenize text)[g.span.lo]? = some first ∧
      (tokenize text)[g.span.hi]? = some last ∧ Bounded raw text s first last := by
  obtain ⟨⟨first, hfirst, hident, hname⟩, last, hlast, hsolid⟩ := hg
  obtain ⟨hdefinition, hstart, hraw⟩ := h
  rw [hfirst, Option.map_some, Option.getD_some] at hstart
  rw [hlast, Option.map_some, Option.getD_some] at hraw
  have hin := bounds_of_mem_tokenizeFrom (List.mem_of_getElem? hfirst)
  have hin' := bounds_of_mem_tokenizeFrom (List.mem_of_getElem? hlast)
  have hlt : s.start < last.stop := by
    rcases Nat.eq_or_lt_of_le hlohi with heq | hlt
    · rw [heq, hlast] at hfirst
      rw [hstart, ← Option.some.inj hfirst]
      exact hin'.2.1
    · obtain ⟨hlo, rfl⟩ := List.getElem?_eq_some_iff.1 hfirst
      obtain ⟨hhi, rfl⟩ := List.getElem?_eq_some_iff.1 hlast
      have := List.pairwise_iff_getElem.1 (pairwise_tokenizeFrom 0 text) _ _ hlo hhi hlt
      rw [hstart]
      exact Nat.lt_of_lt_of_le hin.2.1 (Nat.le_trans this (Nat.le_of_lt hin'.2.1))
  have hwidth : s.raw.length = last.stop - s.start := by
    rw [hraw, List.extract_eq_take_drop, List.length_take, List.length_drop]
    omega
  have hstop : last.stop = s.stop := by
    rw [Substitution.stop, hwidth]
    omega
  refine ⟨first, last, hfirst, hlast, hident, hdefinition ▸ hname, hstart.symm, hsolid, hstop,
    ?_, hstop ▸ hraw, by omega⟩
  exact List.ne_nil_of_length_pos (by omega)

/-- Substitutions of anchored groups follow each other. -/
theorem Group.pairwise_substitutions {raw text : Text} {items : List Item} {gs : List Group}
    (hanchored : ∀ g ∈ gs, g.IsAnchored (tokenize text))
    (hlohi : ∀ g ∈ gs, g.span.lo ≤ g.span.hi)
    (hapart : gs.Pairwise fun g g' => g.span.hi < g'.span.lo)
    (hlength : raw.length = text.length) :
    (substitutions raw (tokenize text) items gs).Pairwise fun s t => s.stop ≤ t.start := by
  induction gs with
  | nil => exact List.Pairwise.nil
  | cons g gs ih =>
    obtain ⟨s, hsubs, hs⟩ := exists_substitutions_cons raw (tokenize text) items g gs
    obtain ⟨hfirst, hapart⟩ := List.pairwise_cons.1 hapart
    obtain ⟨hg, hanchored⟩ := List.forall_mem_cons.1 hanchored
    obtain ⟨hle, hlohi⟩ := List.forall_mem_cons.1 hlohi
    rw [hsubs]
    refine List.pairwise_cons.2 ⟨fun t ht => ?_, ih hanchored hlohi hapart⟩
    obtain ⟨g', hg', hgives⟩ := exists_gives ht
    obtain ⟨_, last, -, hlast, hb⟩ := hs.exists_bounded hg hle hlength
    obtain ⟨first, _, hfirst', -, hb'⟩ :=
      hgives.exists_bounded (hanchored g' hg') (hlohi g' hg') hlength
    obtain ⟨hhi, rfl⟩ := List.getElem?_eq_some_iff.1 hlast
    obtain ⟨hlo, rfl⟩ := List.getElem?_eq_some_iff.1 hfirst'
    rw [← hb.stop_eq, ← hb'.start_eq]
    exact List.pairwise_iff_getElem.1 (pairwise_tokenizeFrom 0 text) _ _ hhi hlo (hfirst g' hg')

end Expansion

/-- **The substitutions of a line are well placed.**  The line `raw`, which the
substitutions quote, is as wide as the text that is expanded.  Then each substitution
starts behind the start, and not before the end, of the one before it; each lies in the
text and quotes a stretch that is not empty; it starts at an identifier that is the name of
its definition, and it stops where a token stops that is not white space. -/
theorem expandLine_wellPlaced (ctx : Expansion.Context) (counter : Nat) {raw text : Text}
    (hlength : raw.length = text.length) :
    let subs := (expandLine ctx counter raw (tokenize text)).subs
    (subs.Pairwise fun s t => s.start < t.start ∧ s.stop ≤ t.start) ∧
      ∀ s ∈ subs, s.stop ≤ text.length ∧ s.raw ≠ [] ∧ s.raw = raw.extract s.start s.stop ∧
        (∃ t ∈ tokenize text, t.isIdent = true ∧ t.offset = s.start ∧
          t.text = s.definition.name) ∧
        ∃ t ∈ tokenize text, t.isWhite = false ∧ t.stop = s.stop := by
  intro subs
  obtain ⟨bs, hb⟩ := Expansion.exists_blocked_expand ctx counter (tokenize text)
  have hanchored : ∀ g ∈ Expansion.Group.ofEvents
      (Expansion.expand ctx counter (tokenize text)).events, g.IsAnchored (tokenize text) :=
    fun _ => Expansion.isAnchored_of_expand
  have hlohi : ∀ g ∈ Expansion.Group.ofEvents (Expansion.expand ctx counter (tokenize text)).events,
      g.span.lo ≤ g.span.hi := by
    rw [hb.groups_eq, List.forall_mem_map]
    exact fun b hmem => (hb.bounds b hmem).1
  have hapart : (Expansion.Group.ofEvents
      (Expansion.expand ctx counter (tokenize text)).events).Pairwise
        fun g g' => g.span.hi < g'.span.lo := by
    rw [hb.groups_eq, List.pairwise_map]
    exact hb.apart
  have hrow : subs.Pairwise fun s t => s.stop ≤ t.start :=
    Expansion.Group.pairwise_substitutions hanchored hlohi hapart hlength
  have hbounded {s : Substitution} (hs : s ∈ subs) : ∃ first ∈ tokenize text,
      ∃ last ∈ tokenize text, Expansion.Bounded raw text s first last := by
    obtain ⟨g, hg, hgives⟩ := Expansion.Group.exists_gives hs
    obtain ⟨first, last, hfirst, hlast, hs⟩ :=
      hgives.exists_bounded (hanchored g hg) (hlohi g hg) hlength
    exact ⟨first, List.mem_of_getElem? hfirst, last, List.mem_of_getElem? hlast, hs⟩
  refine ⟨hrow.imp_of_mem fun {s t} hs _ hle => ⟨?_, hle⟩, fun s hs => ?_⟩
  · obtain ⟨_, -, _, -, hs⟩ := hbounded hs
    have hpos := List.length_pos_of_ne_nil hs.nonempty
    rw [Substitution.stop] at hle
    omega
  · obtain ⟨first, hfirst, last, hlast, hs⟩ := hbounded hs
    exact ⟨hs.within, hs.nonempty, hs.raw_eq, ⟨first, hfirst, hs.ident, hs.start_eq, hs.name_eq⟩,
      last, hlast, hs.solid, hs.stop_eq⟩

set_option maxRecDepth 8000 in
/-- A call with a comment before its arguments, of a function that an object stands for.
The line that is quoted shows the comment, the text has blanks in its place. -/
theorem expandLine_wellPlaced_behind_comment :
    (expandLine spanningContext 0 "G/**/(2) b".toList (tokenize "G    (2) b".toList)).subs.map
        (fun s => (s.start, s.raw)) = [(0, "G/**/(2)".toList)] ∧
      ∃ t ∈ tokenize "G    (2) b".toList, t.isWhite = false ∧ t.stop = 8 := by
  have hsubs : (expandLine spanningContext 0 "G/**/(2) b".toList
      (tokenize "G    (2) b".toList)).subs =
        [⟨⟨['G'], .object, [⟨.ident, ['F'], 0⟩], none, none⟩, "G/**/(2)".toList, "2+2".toList, 0⟩] := by
    cbv
  have hlength : "G/**/(2) b".toList.length = "G    (2) b".toList.length := by decide
  obtain ⟨-, hplaced⟩ := expandLine_wellPlaced spanningContext 0 hlength
  rw [hsubs] at hplaced ⊢
  obtain ⟨-, -, -, -, t, ht, hwhite, hstop⟩ := List.forall_mem_singleton.1 hplaced
  exact ⟨rfl, t, ht, hwhite, hstop.trans (by decide)⟩

end DevicetreePrep
