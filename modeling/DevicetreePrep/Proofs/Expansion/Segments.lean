/-
# What stands between the substitutions of a line

A line can be expanded in two ways: to the list of its tokens, and to the list of
the substitutions that are to be made in its text.  Both come from one expansion.
The second one groups the replacements by the stretches of the line that they
stand for, and picks the items of each group by the number of their first token.

The list of tokens is cut into gaps and segments in turn (`Cut`).  By the blocks of
the expansion (`exists_blocked_expand`) the gaps are the tokens that no replacement
touched, and the groups are the blocks (`Covered.ofEvents_eq`).  A block starts
and ends where the tokens of the line say (`Spelled.start_of_lt`,
`Spelled.stop_of_lt`), and the items that are picked for it are its own
(`Block.filter_picks`).  So the two ways agree (`exists_cut_expandTokens`).
-/

import Mathlib
import DevicetreePrep.Proofs.Expansion.Block
import DevicetreePrep.Proofs.Token.Spelling

namespace DevicetreePrep

/-- A list cut into gaps and segments in turn, with a gap at either end. -/
inductive Cut (α : Type)
  | last (gap : List α)
  | next (gap segment : List α) (rest : Cut α)

namespace Cut

variable {α β : Type}

/-- The list that was cut. -/
def whole : Cut α → List α
  | last gap => gap
  | next gap segment rest => gap ++ segment ++ rest.whole

def gaps : Cut α → List (List α)
  | last gap => [gap]
  | next gap _ rest => gap :: rest.gaps

def segments : Cut α → List (List α)
  | last _ => []
  | next _ segment rest => segment :: rest.segments

/-- The cut of the list in which each member is replaced by another one. -/
def map (f : α → β) : Cut α → Cut β
  | last gap => last (gap.map f)
  | next gap segment rest => next (gap.map f) (segment.map f) (rest.map f)

variable (f : α → β) (c : Cut α)

/-- The whole of a cut that is mapped. -/
theorem whole_map : (c.map f).whole = c.whole.map f := by
  induction c with
  | last => rfl
  | next gap segment rest ih => simp only [map, whole, ih, List.map_append]

/-- The segments of a cut that is mapped. -/
theorem segments_map : (c.map f).segments = c.segments.map (List.map f) := by
  induction c with
  | last => rfl
  | next gap segment rest ih => simp only [map, segments, ih, List.map_cons]

end Cut

/-- The text from an offset on, cut at its substitutions: the segments are what they
replace, and the gaps are what stands between them. -/
def Substitution.cut (text : Text) (offset : Nat) : List Substitution → Cut Char
  | [] => .last (text.drop offset)
  | s :: subs => .next ((text.take s.start).drop offset) s.raw (cut text s.stop subs)

namespace Expansion

namespace Block

/-- The output for the items of the line `raw` from `k` on up to `n`, cut at the
blocks in the order of the line. -/
def cut (raw : List Item) (n k : Nat) : List Block → Cut Item
  | [] => .last ((raw.take n).drop k)
  | b :: bs => .next ((raw.take b.span.lo).drop k) b.items (cut raw n (b.span.hi + 1) bs)

/-- One block more at the end of a cut: its items, and the raw items behind it. -/
theorem whole_cut_append (raw : List Item) (n k : Nat) (bs : List Block) (b : Block) :
    (cut raw n k (bs ++ [b])).whole =
      (cut raw b.span.lo k bs).whole ++ b.items ++ (raw.take n).drop (b.span.hi + 1) := by
  induction bs generalizing k with
  | nil => rfl
  | cons c bs ih => simp only [List.cons_append, cut, Cut.whole, ih, List.append_assoc]

/-- The layout of a line, with its blocks in the order of the line. -/
theorem layout_eq_whole_cut (raw : List Item) (blocks : List Block) (n : Nat) :
    layout raw blocks n = (cut raw n 0 blocks.reverse).whole := by
  induction blocks generalizing n with
  | nil => rfl
  | cons b bs ih => rw [List.reverse_cons, whole_cut_append, layout, ih]

/-- The segments of a cut are the items of its blocks. -/
theorem segments_cut (raw : List Item) (n k : Nat) (bs : List Block) :
    (cut raw n k bs).segments = bs.map Block.items := by
  induction bs generalizing k with
  | nil => rfl
  | cons b bs ih => rw [cut, Cut.segments, ih, List.map_cons]

/-- What no replacement brought in is in none of the blocks. -/
theorem filter_whole_cut {raw : List Item} {p : Item → Bool} (hp : ∀ i ∈ raw, p i = false)
    (n k : Nat) (bs : List Block) :
    (cut raw n k bs).whole.filter p = bs.flatMap fun b => b.items.filter p := by
  have hgap (m k : Nat) : ((raw.take m).drop k).filter p = [] := by
    refine List.filter_eq_nil_iff.2 fun i hi => ?_
    rw [hp i (List.mem_of_mem_take (List.mem_of_mem_drop hi))]
    exact Bool.false_ne_true
  induction bs generalizing k with
  | nil => exact hgap n k
  | cons b bs ih =>
    rw [cut, Cut.whole, List.filter_append, List.filter_append, hgap, ih, List.nil_append,
      List.flatMap_cons]

/-- Whether an item is picked for a block: it comes from the first token of the block or
from a later one, but from none behind the start of the next block. -/
def picks (b : Block) (behind : List Block) (i : Item) : Bool :=
  i.produced && b.span.lo ≤ i.span.lo &&
    (behind.map group).head?.all fun next => i.span.lo < next.span.lo

/-- **The items that are picked for a block are its own.**  Those of the blocks before
it come from an earlier token, and those of the blocks behind it come from the first
token of the next block or from a later one. -/
theorem filter_picks {raw : List Item} {n : Nat} {before behind : List Block} {b : Block}
    (hraw : ∀ i ∈ raw, i.produced = false)
    (hbounds : ∀ c ∈ before ++ b :: behind, c.span.lo ≤ c.span.hi)
    (hapart : (before ++ b :: behind).Pairwise fun c d => c.span.hi < d.span.lo)
    (hown : ∀ c ∈ before ++ b :: behind, ∀ i ∈ c.items, i.produced = true ∧ i.span.lo = c.span.lo) :
    (cut raw n 0 (before ++ b :: behind)).whole.filter (b.picks behind) = b.items := by
  obtain ⟨-, hbehind, hcross⟩ := List.pairwise_append.1 hapart
  obtain ⟨hfirst, hbehind⟩ := List.pairwise_cons.1 hbehind
  rw [filter_whole_cut (fun i hi => by rw [picks, hraw i hi]; rfl), List.flatMap_append,
    List.flatMap_cons]
  have hnone_before : before.flatMap (fun c => c.items.filter (b.picks behind)) = [] := by
    refine List.flatMap_eq_nil_iff.2 fun c hc => List.filter_eq_nil_iff.2 fun i hi => ?_
    have hlo := (hown c (List.mem_append_left _ hc) i hi).2
    have hle := hbounds c (List.mem_append_left _ hc)
    have hlt := hcross c hc b (List.mem_cons_self ..)
    have : ¬b.span.lo ≤ i.span.lo := by omega
    simp [picks, this]
  have hall : b.items.filter (b.picks behind) = b.items := by
    refine List.filter_eq_self.2 fun i hi => ?_
    have hb : b ∈ before ++ b :: behind := List.mem_append_right _ (List.mem_cons_self ..)
    obtain ⟨hprod, hlo⟩ := hown b hb i hi
    have hle := hbounds b hb
    cases behind with
    | nil => simp [picks, hprod, hlo]
    | cons c behind =>
      have hlt := hfirst c (List.mem_cons_self ..)
      have : b.span.lo < c.span.lo := by omega
      simp [picks, hprod, hlo, group, this]
  have hnone_behind : behind.flatMap (fun c => c.items.filter (b.picks behind)) = [] := by
    refine List.flatMap_eq_nil_iff.2 fun d hd => List.filter_eq_nil_iff.2 fun i hi => ?_
    have hd' : d ∈ before ++ b :: behind := List.mem_append_right _ (List.mem_cons_of_mem _ hd)
    have hlo := (hown d hd' i hi).2
    cases behind with
    | nil => cases hd
    | cons c behind =>
      have hle : c.span.lo ≤ d.span.lo := by
        rcases List.mem_cons.1 hd with rfl | hd
        · exact Nat.le_refl _
        · have hc : c ∈ before ++ b :: c :: behind :=
            List.mem_append_right _ (List.mem_cons_of_mem _ (List.mem_cons_self ..))
          have := (List.pairwise_cons.1 hbehind).1 d hd
          have := hbounds c hc
          omega
      have : ¬i.span.lo < c.span.lo := by omega
      simp [picks, group, this]
  rw [hnone_before, hall, hnone_behind, List.nil_append, List.append_nil]

/-- What the substitutions insert is what their blocks went to. -/
theorem map_insert_substitutions (text : Text) (ts : List Token) {raw : List Item}
    (hraw : ∀ i ∈ raw, i.produced = false) (n : Nat) (before bs : List Block)
    (hbounds : ∀ c ∈ before ++ bs, c.span.lo ≤ c.span.hi)
    (hapart : (before ++ bs).Pairwise fun c d => c.span.hi < d.span.lo)
    (hown : ∀ c ∈ before ++ bs, ∀ i ∈ c.items, i.produced = true ∧ i.span.lo = c.span.lo) :
    (Group.substitutions text ts (cut raw n 0 (before ++ bs)).whole (bs.map group)).map
        Substitution.insert =
      bs.map fun b => Text.trim (render (b.items.map Item.token)) := by
  induction bs generalizing before with
  | nil => rfl
  | cons b bs ih =>
    have hsplit : before ++ b :: bs = (before ++ [b]) ++ bs := by
      rw [List.append_assoc, List.singleton_append]
    have hinsert : Group.insertOf (cut raw n 0 (before ++ b :: bs)).whole b.group
        (bs.map group).head? = Text.trim (render (b.items.map Item.token)) := by
      rw [Group.insertOf]
      exact congrArg (fun is => Text.trim (render (is.map Item.token)))
        (filter_picks hraw hbounds hapart hown)
    rw [List.map_cons, Group.substitutions, List.map_cons, List.map_cons]
    dsimp only
    rw [hinsert]
    rw [hsplit] at hbounds hapart hown ⊢
    rw [ih _ hbounds hapart hown]

end Block

/-- Tokens that spell a text, each of them standing where the spelling of those before
it ends. -/
structure Spelled (text : Text) (ts : List Token) : Prop where
  render_eq : render ts = text
  offset_eq : ∀ k tok, ts[k]? = some tok → tok.offset = (render (ts.take k)).length

/-- Where the spelling of the first `k` tokens ends. -/
def position (ts : List Token) (k : Nat) : Nat :=
  (render (ts.take k)).length

namespace Spelled

variable {text : Text} {ts : List Token} {k m : Nat}

theorem of_tokenize (h : Comment.IsFree text) : Spelled text (tokenize text) :=
  ⟨render_tokenize h, fun _ _ hk => offset_of_getElem?_tokenize h hk⟩

/-- The first tokens of a text make up its front. -/
theorem render_take (h : Spelled text ts) (k : Nat) :
    render (ts.take k) = text.take (position ts k) := by
  have hsplit : render (ts.take k) ++ render (ts.drop k) = text := by
    rw [← render_append, List.take_append_drop, h.render_eq]
  rw [← hsplit, position, List.take_left]

/-- Tokens that stand next to each other spell the text between their positions. -/
theorem render_drop_take (h : Spelled text ts) (hkm : k ≤ m) :
    render ((ts.take m).drop k) = (text.take (position ts m)).drop (position ts k) := by
  have hsplit : render (ts.take k) ++ render ((ts.take m).drop k) = render (ts.take m) := by
    rw [← render_append]
    congr 1
    conv => rhs; rw [← List.take_append_drop k (ts.take m), List.take_take, Nat.min_eq_left hkm]
  rw [← h.render_take, ← hsplit, position, List.drop_left]

/-- Positions rise with the number of tokens, and stay in the text. -/
theorem position_le (h : Spelled text ts) (hkm : k ≤ m) :
    position ts k ≤ position ts m ∧ position ts m ≤ text.length := by
  have hm : position ts m ≤ text.length := by
    have := congrArg List.length (h.render_take m)
    rw [List.length_take] at this
    rw [position]
    omega
  refine ⟨?_, hm⟩
  have hk : ts.take k = (ts.take m).take k := by
    rw [List.take_take, Nat.min_eq_left hkm]
  rw [position, position, hk, ← List.take_append_drop k (ts.take m), render_append,
    List.length_append, List.take_append_drop]
  exact Nat.le_add_right _ _

/-- A token starts where the ones before it end. -/
theorem start_of_lt (h : Spelled text ts) (hk : k < ts.length) :
    (ts[k]?.map Token.offset).getD 0 = position ts k := by
  rw [List.getElem?_eq_getElem hk, Option.map_some, Option.getD_some, position]
  exact h.offset_eq k ts[k] (List.getElem?_eq_getElem hk)

/-- A token stops where the next one starts. -/
theorem stop_of_lt (h : Spelled text ts) (hk : k < ts.length) :
    (ts[k]?.map Token.stop).getD 0 = position ts (k + 1) := by
  have hoffset := h.offset_eq k ts[k] (List.getElem?_eq_getElem hk)
  rw [List.getElem?_eq_getElem hk, Option.map_some, Option.getD_some, Token.stop, hoffset, position,
    ← List.take_append_getElem hk, render_append, List.length_append]
  simp [render]

/-- **The blocks of a line cut its text as its substitutions do**: the tokens between
two blocks spell what stands between two substitutions, and nothing of the text is
lost. -/
theorem cut_substitutions (h : Spelled text ts) (items : List Item) {bs : List Block}
    (hk : ∀ b ∈ bs, k ≤ b.span.lo)
    (hbounds : ∀ b ∈ bs, b.span.lo ≤ b.span.hi ∧ b.span.hi < ts.length)
    (hapart : bs.Pairwise fun b c => b.span.hi < c.span.lo) (hkl : k ≤ ts.length) :
    let subs := Group.substitutions text ts items (bs.map Block.group)
    ((Block.cut (Item.ofTokens ts) ts.length k bs).map Item.token).gaps.map render =
        (Substitution.cut text (position ts k) subs).gaps ∧
      (Substitution.cut text (position ts k) subs).whole = text.drop (position ts k) := by
  have hgap (m k : Nat) : (((Item.ofTokens ts).take m).drop k).map Item.token =
      (ts.take m).drop k := by
    rw [List.map_drop, List.map_take, Item.map_token_ofTokens]
  induction bs generalizing k with
  | nil =>
    refine ⟨?_, rfl⟩
    have hlast := h.render_drop_take hkl
    rw [← h.render_take, List.take_length, h.render_eq] at hlast
    rw [Block.cut, Cut.map, Cut.gaps, hgap, List.map_singleton, List.take_length, hlast]
    rfl
  | cons b bs ih =>
    obtain ⟨hlohi, hhi⟩ := hbounds b (List.mem_cons_self ..)
    obtain ⟨hfirst, hapart⟩ := List.pairwise_cons.1 hapart
    have hklo := hk b (List.mem_cons_self ..)
    have hstart := h.start_of_lt (Nat.lt_of_le_of_lt hlohi hhi)
    have hstop := h.stop_of_lt hhi
    obtain ⟨hle, hlen⟩ : position ts b.span.lo ≤ position ts (b.span.hi + 1) ∧
        position ts (b.span.hi + 1) ≤ text.length := h.position_le (by omega)
    have hle' := (h.position_le hklo).1
    obtain ⟨hgaps, hwhole⟩ := ih (k := b.span.hi + 1) hfirst
      (fun c hc => hbounds c (List.mem_cons_of_mem _ hc)) hapart hhi
    have hrawlen : (text.extract (position ts b.span.lo) (position ts (b.span.hi + 1))).length =
        position ts (b.span.hi + 1) - position ts b.span.lo := by
      simp only [List.extract_eq_take_drop, List.length_take, List.length_drop]
      omega
    simp only [List.map_cons, Group.substitutions, Block.group, hstart, hstop, Substitution.cut,
      Substitution.stop, hrawlen, Nat.add_sub_cancel' hle]
    constructor
    · rw [Block.cut, Cut.map, Cut.gaps, Cut.gaps, List.map_cons, hgap, h.render_drop_take hklo, hgaps]
    · have hraw : text.extract (position ts b.span.lo) (position ts (b.span.hi + 1)) ++
          text.drop (position ts (b.span.hi + 1)) = text.drop (position ts b.span.lo) := by
        have := List.take_append_drop (position ts (b.span.hi + 1) - position ts b.span.lo)
          (text.drop (position ts b.span.lo))
        rwa [List.drop_drop, Nat.add_sub_cancel' hle] at this
      have hfront := List.take_append_drop (position ts b.span.lo - position ts k)
        (text.drop (position ts k))
      rw [List.drop_drop, Nat.add_sub_cancel' hle', ← List.drop_take] at hfront
      rw [Cut.whole, hwhole, List.append_assoc, hraw, hfront]

end Spelled

/-- What the expansion of a line comes from: the blocks of the line, in its order. -/
structure Blocked (ts : List Token) (r : Outcome) (bs : List Block) : Prop where
  items_eq : r.items = (Block.cut (Item.ofTokens ts) ts.length 0 bs).whole
  groups_eq : Group.ofEvents r.events = bs.map Block.group
  bounds : ∀ b ∈ bs, b.span.lo ≤ b.span.hi ∧ b.span.hi < ts.length
  apart : bs.Pairwise fun b c => b.span.hi < c.span.lo
  own : ∀ b ∈ bs, ∀ i ∈ b.items, i.produced = true ∧ i.span.lo = b.span.lo

/-- Replacements take place in the order of the line, so that sorting them changes
nothing and the groups are the blocks. -/
theorem Covered.ofEvents_eq {ts : List Token} {blocks : List Block} {n : Nat}
    {front items : List Item} {events : List Event}
    (h : Covered (Item.ofTokens ts) blocks n front items events) :
    Group.ofEvents events.reverse = blocks.reverse.map Block.group := by
  have hsorted : events.reverse.Pairwise fun e f => decide (e.span.lo ≤ f.span.lo) = true := by
    rw [List.pairwise_reverse]
    exact h.sorted.imp fun hle => decide_eq_true hle
  rw [Group.ofEvents, List.mergeSort_of_pairwise hsorted, h.groups_eq, List.map_reverse]

/-- **Every expansion of a line comes from blocks.** -/
theorem exists_blocked_expand (ctx : Context) (counter : Nat) (ts : List Token) :
    ∃ bs, Blocked ts (expand ctx counter ts) bs := by
  have hcovered : IsCovered ts (expand ctx counter ts).items.reverse
      (expand ctx counter ts).events.reverse [] :=
    isCovered_expandFrom (isCovered_nil ts)
  obtain ⟨blocks, n, front, hc, hp⟩ := hcovered
  -- nothing is pending any more, so all of the line was reached
  have hn : n = ts.length := by
    have hdrop := (List.append_eq_nil_iff.1 hp.symm).2
    have hwithin := hc.within
    rw [List.drop_eq_nil_iff] at hdrop
    rw [Item.length_ofTokens] at hdrop hwithin
    omega
  subst hn
  refine ⟨blocks.reverse, ?_, ?_, ?_, ?_, ?_⟩
  · rw [← Block.layout_eq_whole_cut, ← hc.items_eq, List.reverse_reverse]
  · rw [← hc.ofEvents_eq, List.reverse_reverse]
  · exact fun b hb => hc.bounds b (List.mem_reverse.1 hb)
  · exact List.pairwise_reverse.2 hc.apart
  · exact fun b hb => hc.own b (List.mem_reverse.1 hb)

end Expansion

/-- **The two ways to expand a line agree.**  On a text without comments they report the
same errors and leave the same counter.  The tokens of the one way can be cut into gaps
and segments such that the gaps spell what stands between the substitutions of the
other way, and the segments, without the blanks at either end, spell what these insert.
Together with what they replace, the pieces between the substitutions are the text. -/
theorem exists_cut_expandTokens (ctx : Expansion.Context) (counter : Nat) (text : Text)
    (h : Comment.IsFree text) :
    let line := expandLine ctx counter text (tokenize text)
    let flat := expandTokens ctx counter (tokenize text)
    render (tokenize text) = text ∧ line.errors = flat.errors ∧ line.counter = flat.counter ∧
      (Substitution.cut text 0 line.subs).whole = text ∧
      ∃ c : Cut Token, c.whole = flat.tokens ∧
        c.gaps.map render = (Substitution.cut text 0 line.subs).gaps ∧
        c.segments.map (fun ts => Text.trim (render ts)) = line.subs.map Substitution.insert := by
  obtain ⟨bs, hb⟩ := Expansion.exists_blocked_expand ctx counter (tokenize text)
  have hspelled := Expansion.Spelled.of_tokenize h
  obtain ⟨hgaps, hwhole⟩ := hspelled.cut_substitutions (k := 0)
    (Expansion.expand ctx counter (tokenize text)).items (fun b _ => Nat.zero_le _) hb.bounds
    hb.apart (Nat.zero_le _)
  have hraw : ∀ i ∈ Expansion.Item.ofTokens (tokenize text), i.produced = false :=
    fun i => Expansion.Item.produced_of_mem_ofTokens
  have hinsert := Expansion.Block.map_insert_substitutions text (tokenize text) hraw
    (tokenize text).length [] bs (fun b hmem => (hb.bounds b hmem).1) hb.apart hb.own
  rw [← hb.groups_eq] at hgaps hwhole hinsert
  rw [List.nil_append, ← hb.items_eq] at hinsert
  refine ⟨render_tokenize h, rfl, rfl, hwhole,
    (Expansion.Block.cut (Expansion.Item.ofTokens (tokenize text)) (tokenize text).length 0 bs).map
      Expansion.Item.token, ?_, hgaps, ?_⟩
  · rw [Cut.whole_map, ← hb.items_eq]
    rfl
  · rw [Cut.segments_map, Expansion.Block.segments_cut, List.map_map, List.map_map]
    exact hinsert.symm

/-- A function of one argument, and an object that stands for its name. -/
def spanningContext : Expansion.Context where
  table := Table.ofList
    [{ name := ['F']
       shape := .function [['x']] .none
       body := [⟨.ident, ['x'], 0⟩, ⟨.punctuator, ['+'], 1⟩, ⟨.ident, ['x'], 2⟩] },
     { name := ['G'], body := [⟨.ident, ['F'], 0⟩] }]
  file := "board.dts"
  line := 1

set_option maxRecDepth 8000 in
/-- A call that starts in a replacement and takes its arguments from the line. -/
theorem exists_cut_spanning_call :
    Comment.IsFree "a G(2) b".toList ∧ ∃ c : Cut Token,
      c.whole = (expandTokens spanningContext 0 (tokenize "a G(2) b".toList)).tokens ∧
        c.gaps.map render = ["a ".toList, " b".toList] ∧
        c.segments.map (fun ts => Text.trim (render ts)) = ["2+2".toList] := by
  have hfree : Comment.IsFree "a G(2) b".toList := by decide
  obtain ⟨-, -, -, -, c, hwhole, hgaps, hsegments⟩ :=
    exists_cut_expandTokens spanningContext 0 "a G(2) b".toList hfree
  have hsubs : (expandLine spanningContext 0 "a G(2) b".toList (tokenize "a G(2) b".toList)).subs =
      [⟨⟨['G'], .object, [⟨.ident, ['F'], 0⟩], none, none⟩, "G(2)".toList, "2+2".toList, 2⟩] := by
    cbv
  rw [hsubs] at hgaps hsegments
  exact ⟨hfree, c, hwhole, hgaps, hsegments⟩

end DevicetreePrep
