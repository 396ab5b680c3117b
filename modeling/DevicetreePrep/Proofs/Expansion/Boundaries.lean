/-
# When an expanded line has the tokens that were expanded

A line is expanded to a text or to a list of tokens.  The text is made of spellings: what no
replacement touched stands as it was, and what a group of replacements went to is spelled,
trimmed of its blanks and put in between (`Cut.output`).  No blank is put between two pieces.
So the text need not be read as the tokens, in two ways.  Tokens that come to stand next to
each other may be read as one, or as a comment; and blanks may be trimmed that belong to a
token.

These two ways are the only ones.  If trimming takes nothing but white space off each
segment, and all that is left is legible where it stands (`Cut.IsLegible`), then the text is
read as the tokens, white space aside.  For a table of definitions that were read the
converse holds too: a text in which a blank of a token is missing, or in which a token opens
a comment, has fewer characters to be read than the tokens have
(`isLegible_of_readings`).  Both make up `readings_expandLine`.
-/

import DevicetreePrep.Proofs.Expansion.Tidiness
import DevicetreePrep.Proofs.Substitution.Replacement
import DevicetreePrep.Proofs.Token.Legibility

namespace DevicetreePrep

/-! Trimming tokens and their spelling. -/

/-- White space does not count. -/
theorem readings_trimWhite (ts : List Token) : readings (trimWhite ts) = readings ts := by
  have hwhite {us : List Token} (h : ∀ t ∈ us, t.isWhite = true) : readings us = [] := by
    rw [readings, List.filter_eq_nil_iff.2 fun t ht => by rw [h t ht]; decide]
    rfl
  obtain ⟨front, back, hts, hfront, hback⟩ := exists_trimWhere Token.isWhite ts
  conv_rhs => rw [hts]
  rw [readings_append, readings_append, hwhite hfront, hwhite hback, List.append_nil,
    List.nil_append, trimWhite]

/-- Trimming adds no solid characters. -/
theorem solid_trim_le (t : Text) : solid (Text.trim t) ≤ solid t := by
  obtain ⟨front, back, ht, -⟩ := exists_trimWhere isBlank t
  conv_rhs => rw [ht]
  rw [solid_append, solid_append]
  exact Nat.le_trans (Nat.le_add_left ..) (Nat.le_add_right ..)

/-- If no character is lost by trimming, then only white space is trimmed off. -/
theorem trim_eq_of_solid {t : Text} (h : solid (Text.trim t) = solid t) :
    Text.trim t = trimWhere isSpace t := by
  obtain ⟨front, back, ht, -⟩ := exists_trimWhere isBlank t
  have hsplit : t = front ++ Text.trim t ++ back := ht
  have hsum := congrArg solid hsplit
  rw [solid_append, solid_append] at hsum
  have htrimmed : IsTrimmed isBlank (Text.trim t) := isTrimmed_trimWhere isBlank t
  have hsolid {c : Char} (hc : isBlank c = false) : isSpace c = false := by
    rw [Bool.eq_false_iff] at hc ⊢
    exact fun hspace => hc (isBlank_of_isSpace hspace)
  conv_rhs => rw [hsplit]
  refine (trimWhere_eq (spaces_of_solid ?_) (spaces_of_solid ?_) ⟨?_, ?_⟩).symm
  · omega
  · omega
  · exact fun c hc => hsolid (htrimmed.head c hc)
  · exact fun c hc => hsolid (htrimmed.last c hc)

section

variable {ts : List Token} (htidy : ∀ t ∈ ts, t.IsTidy)
  (hstart : ∀ t ∈ ts, t.isWhite = false → ∃ c cs, t.text = c :: cs ∧ isSpace c = false)

include htidy hstart

/-- Tokens without white space at the ends spell a text without white space at the ends, if
they are tidy and do not start with white space. -/
theorem isTrimmed_render (h : IsTrimmed Token.isWhite ts) : IsTrimmed isSpace (render ts) := by
  constructor
  case head =>
    intro c hc
    cases ts with
    | nil => cases hc
    | cons t us =>
      obtain ⟨d, ds, htext, hd⟩ := hstart t (List.mem_cons_self ..) (h.head t rfl)
      rw [render_cons, htext] at hc
      exact Option.some.inj hc ▸ hd
  case last =>
    intro c hc
    cases hlast : ts.getLast? with
    | none =>
      rw [List.getLast?_eq_none_iff.1 hlast] at hc
      cases hc
    | some t =>
      obtain ⟨us, rfl⟩ := List.getLast?_eq_some_iff.1 hlast
      have ht := List.mem_of_getLast? hlast
      have hwhite := h.last t hlast
      obtain ⟨d, ds, htext, -⟩ := hstart t ht hwhite
      have hne : t.text ≠ [] := htext ▸ List.cons_ne_nil d ds
      have hrender : render (us ++ [t]) = render us ++ t.text := by
        rw [render_append]
        exact congrArg (render us ++ ·) (List.append_nil t.text)
      rw [hrender, List.getLast?_append_of_ne_nil _ hne] at hc
      exact (htidy t ht).solid hwhite c hc

/-- Trimming such tokens trims their spelling. -/
theorem trimWhere_render : trimWhere isSpace (render ts) = render (trimWhite ts) := by
  obtain ⟨front, back, hts, hfront, hback⟩ := exists_trimWhere Token.isWhite ts
  have hsplit : ts = front ++ trimWhite ts ++ back := hts
  have hspaces {us : List Token} (hsub : us ⊆ ts) (hwhite : ∀ t ∈ us, t.isWhite = true) :
      ∀ c ∈ render us, isSpace c = true := by
    intro c hc
    obtain ⟨t, ht, hc⟩ := List.mem_flatMap.1 hc
    exact (htidy t (hsub ht)).white (hwhite t ht) c hc
  have hfront : ∀ c ∈ render front, isSpace c = true := by
    refine hspaces ?_ hfront
    rw [hsplit, List.append_assoc]
    exact List.subset_append_left ..
  have hback : ∀ c ∈ render back, isSpace c = true := by
    refine hspaces ?_ hback
    rw [hsplit]
    exact List.subset_append_right ..
  have htrimmed : IsTrimmed isSpace (render (trimWhite ts)) :=
    isTrimmed_render (fun t ht => htidy t (mem_of_mem_trimWhite ht))
      (fun t ht => hstart t (mem_of_mem_trimWhite ht)) (isTrimmed_trimWhere Token.isWhite ts)
  conv_lhs => rw [hsplit, render_append, render_append]
  exact trimWhere_eq hfront hback htrimmed

end

/-! A cut list of tokens, spelled. -/

namespace Cut

/-- The spelling of the tokens, where each segment is trimmed. -/
def output : Cut Token → Text
  | last gap => render gap
  | next gap segment rest => render gap ++ Text.trim (render segment) ++ rest.output

/-- The tokens without the white space at the ends of the segments. -/
def written : Cut Token → List Token
  | last gap => gap
  | next gap segment rest => gap ++ trimWhite segment ++ rest.written

/-- Trimming takes nothing but white space off a segment, and what is left is legible. -/
structure IsLegible (c : Cut Token) : Prop where
  trim_render : ∀ segment ∈ c.segments, Text.trim (render segment) = render (trimWhite segment)
  areLegible : AreLegible c.written

instance : DecidablePred IsLegible := fun _ =>
  decidable_of_iff (_ ∧ _) ⟨fun h => ⟨h.1, h.2⟩, fun h => ⟨h.trim_render, h.areLegible⟩⟩

/-- What is written is part of the whole. -/
theorem mem_whole_of_mem_written {c : Cut Token} {t : Token} (h : t ∈ c.written) :
    t ∈ c.whole := by
  induction c with
  | last gap => exact h
  | next gap segment rest ih =>
    rw [written, List.mem_append, List.mem_append] at h
    rw [whole, List.mem_append, List.mem_append]
    exact h.imp (Or.imp_right mem_of_mem_trimWhite) ih

/-- A segment is part of the whole. -/
theorem mem_whole_of_mem_segment {c : Cut Token} {segment : List Token} {t : Token}
    (h : segment ∈ c.segments) (ht : t ∈ segment) : t ∈ c.whole := by
  induction c with
  | last gap => cases h
  | next gap first rest ih =>
    rw [whole, List.mem_append, List.mem_append]
    rcases List.mem_cons.1 h with rfl | h
    · exact .inl (.inr ht)
    · exact .inr (ih h)

/-- The output of a cut is the text of what is written, if the segments are trimmed as tokens. -/
theorem output_eq_render {c : Cut Token}
    (h : ∀ segment ∈ c.segments, Text.trim (render segment) = render (trimWhite segment)) :
    c.output = render c.written := by
  induction c with
  | last gap => rfl
  | next gap segment rest ih =>
    obtain ⟨hsegment, hrest⟩ := List.forall_mem_cons.1 h
    rw [output, written, render_append, render_append, hsegment, ih hrest]

/-- The readings of what is written are those of the whole. -/
theorem readings_written (c : Cut Token) : readings c.written = readings c.whole := by
  induction c with
  | last gap => rfl
  | next gap segment rest ih =>
    rw [written, whole, readings_append, readings_append, readings_append, readings_append,
      readings_trimWhite, ih]

/-- **If the tokens are legible, the text is read as these tokens.** -/
theorem IsLegible.readings_output {c : Cut Token} (h : c.IsLegible) :
    readings (tokenize c.output) = readings c.whole := by
  rw [output_eq_render h.trim_render, tokenize, h.areLegible.readings_eq, readings_written]

/-! The converse: nothing that counts is trimmed off. -/

/-- The output has no more solid characters than the whole. -/
theorem solid_output_le (c : Cut Token) : solid c.output ≤ solid (render c.whole) := by
  induction c with
  | last gap => exact Nat.le_refl _
  | next gap segment rest ih =>
    have := solid_trim_le (render segment)
    rw [output, whole, render_append, render_append, solid_append, solid_append, solid_append,
      solid_append]
    omega

/-- If no character is missing in the output, none is missing in a segment. -/
theorem solid_trim_eq {c : Cut Token} (h : solid c.output = solid (render c.whole)) :
    ∀ segment ∈ c.segments, solid (Text.trim (render segment)) = solid (render segment) := by
  induction c with
  | last gap => exact List.forall_mem_nil _
  | next gap segment rest ih =>
    have hsegment := solid_trim_le (render segment)
    have hrest := solid_output_le rest
    rw [output, whole, render_append, render_append, solid_append, solid_append, solid_append,
      solid_append] at h
    exact List.forall_mem_cons.2 ⟨by omega, ih (by omega)⟩

/-- **If the text is read as the tokens, they are legible.**  All white space among them is
spelled by white space, and the segments are tidy. -/
theorem isLegible_of_readings {c : Cut Token}
    (hspaces : ∀ t ∈ c.whole, t.isWhite = true → ∀ d ∈ t.text, isSpace d = true)
    (htidy : ∀ segment ∈ c.segments, ∀ t ∈ segment, t.IsTidy)
    (h : readings (tokenize c.output) = readings c.whole) : c.IsLegible := by
  -- no character is lost, neither by trimming nor by reading
  have hsolid : solid c.output = solid (render c.whole) := by
    refine Nat.le_antisymm (solid_output_le c) ?_
    rw [← solids_readings hspaces, ← h]
    exact solids_tokenizeFrom_le 0 c.output
  have htrim : ∀ segment ∈ c.segments, Text.trim (render segment) = render (trimWhite segment) := by
    intro segment hsegment
    rw [trim_eq_of_solid (solid_trim_eq hsolid segment hsegment)]
    refine trimWhere_render (htidy segment hsegment) fun t ht hwhite => ?_
    have hmem : t.reading ∈ readings c.whole :=
      List.mem_map_of_mem (List.mem_filter.2
        ⟨mem_whole_of_mem_segment hsegment ht, by rw [hwhite]; rfl⟩)
    exact exists_solid_of_mem_readings (h ▸ hmem)
  have hread : readings (tokenizeFrom 0 (render c.written)) = readings c.written := by
    rw [← output_eq_render htrim, readings_written]
    exact h
  exact ⟨htrim, areLegible_of_readings (fun t ht => hspaces t (mem_whole_of_mem_written ht)) hread⟩

end Cut

/-- The output of a cut is what a line reads when its stretches are replaced, if the gaps
spell what stands between the stretches and the segments what they insert. -/
theorem Cut.output_eq_weave {c : Cut Token} {text : Text} {offset : Nat}
    {subs : List Substitution}
    (hgaps : c.gaps.map render = (Substitution.cut text offset subs).gaps)
    (hsegments : c.segments.map (fun ts => Text.trim (render ts)) =
      subs.map Substitution.insert) :
    c.output = Substitution.weave text Substitution.insert offset subs := by
  induction c generalizing offset subs with
  | last gap =>
    obtain rfl := List.map_eq_nil_iff.1 hsegments.symm
    exact (List.cons.inj hgaps).1
  | next gap segment rest ih =>
    cases subs with
    | nil => cases hsegments
    | cons s subs =>
      obtain ⟨hgap, hgaps⟩ := List.cons.inj hgaps
      obtain ⟨hsegment, hsegments⟩ := List.cons.inj hsegments
      dsimp only at hsegment
      rw [output, Substitution.weave, ih hgaps hsegments, hgap, hsegment]

namespace Expansion

/-! The cut of an expanded line. -/

/-- The items that are put in for a group, which another one may follow. -/
def Group.itemsOf (items : List Item) (g : Group) (next : Option Group) : List Item :=
  items.filter fun i =>
    i.produced && g.span.lo ≤ i.span.lo && next.all fun n => i.span.lo < n.span.lo

/-- The tokens that a line goes to, from its token `k` on, cut at the groups: a segment is
what is put in for a group, and the gaps are tokens of the line. -/
def Group.cut (ts : List Token) (items : List Item) (k : Nat) : List Group → Cut Token
  | [] => .last (ts.drop k)
  | g :: gs =>
    .next ((ts.take g.span.lo).drop k) ((g.itemsOf items gs.head?).map Item.token)
      (cut ts items (g.span.hi + 1) gs)

/-- The tokens that a line goes to, cut at the groups of its replacements. -/
def Outcome.cut (o : Outcome) (ts : List Token) : Cut Token :=
  Group.cut ts o.items 0 (Group.ofEvents o.events)

/-- A segment was brought in by replacement. -/
theorem Group.produced_of_mem_cut {ts : List Token} {items : List Item} {k : Nat} {gs : List Group}
    {segment : List Token} (h : segment ∈ (cut ts items k gs).segments) {t : Token}
    (ht : t ∈ segment) : ∃ i ∈ items, i.produced = true ∧ i.token = t := by
  induction gs generalizing k with
  | nil => cases h
  | cons g gs ih =>
    rcases List.mem_cons.1 h with rfl | h
    · obtain ⟨i, hi, rfl⟩ := List.mem_map.1 ht
      obtain ⟨hi, hown⟩ := List.mem_filter.1 hi
      rw [Bool.and_assoc, Bool.and_eq_true_iff] at hown
      exact ⟨i, hi, hown.1, rfl⟩
    · exact ih h

/-- Cut at the groups, a line goes to what its blocks say. -/
theorem Block.cut_group (ts : List Token) (before bs : List Block) (k : Nat)
    (hbounds : ∀ b ∈ before ++ bs, b.span.lo ≤ b.span.hi)
    (hapart : (before ++ bs).Pairwise fun b c => b.span.hi < c.span.lo)
    (hown : ∀ b ∈ before ++ bs, ∀ i ∈ b.items, i.produced = true ∧ i.span.lo = b.span.lo) :
    Group.cut ts (cut (Item.ofTokens ts) ts.length 0 (before ++ bs)).whole k (bs.map group) =
      (cut (Item.ofTokens ts) ts.length k bs).map Item.token := by
  have hgap (m k : Nat) : (ts.take m).drop k =
      (((Item.ofTokens ts).take m).drop k).map Item.token := by
    rw [List.map_drop, List.map_take, Item.map_token_ofTokens]
  induction bs generalizing before k with
  | nil =>
    have hlast := hgap ts.length k
    rw [List.take_length] at hlast
    exact congrArg Cut.last hlast
  | cons b bs ih =>
    have hsegment : b.group.itemsOf (cut (Item.ofTokens ts) ts.length 0 (before ++ b :: bs)).whole
        (bs.map group).head? = b.items :=
      filter_picks (fun i => Item.produced_of_mem_ofTokens) hbounds hapart hown
    have hsplit : before ++ b :: bs = (before ++ [b]) ++ bs := by
      rw [List.append_assoc, List.singleton_append]
    rw [List.map_cons, Group.cut, hsegment, cut, Cut.map, ← hgap]
    rw [hsplit] at hbounds hapart hown ⊢
    exact congrArg (Cut.next _ _) (ih _ (b.span.hi + 1) hbounds hapart hown)

/-- The cut of an outcome is that of its blocks. -/
theorem Blocked.cut_eq {ts : List Token} {o : Outcome} {bs : List Block} (h : Blocked ts o bs) :
    o.cut ts = (Block.cut (Item.ofTokens ts) ts.length 0 bs).map Item.token := by
  rw [Outcome.cut, h.groups_eq, h.items_eq]
  exact Block.cut_group ts [] bs 0 (fun b hb => (h.bounds b hb).1) h.apart h.own

theorem Blocked.whole_cut {ts : List Token} {o : Outcome} {bs : List Block} (h : Blocked ts o bs) :
    (o.cut ts).whole = o.items.map Item.token := by
  rw [h.cut_eq, Cut.whole_map, ← h.items_eq]

/-- **The output of the cut is what the line reads when its groups are replaced.** -/
theorem Blocked.output_cut {text : Text} {o : Outcome} {bs : List Block}
    (h : Blocked (tokenize text) o bs) (hfree : Comment.IsFree text) :
    (o.cut (tokenize text)).output =
      Substitution.weave text Substitution.insert 0
        (Group.substitutions text (tokenize text) o.items (Group.ofEvents o.events)) := by
  obtain ⟨hgaps, -⟩ := (Spelled.of_tokenize hfree).cut_substitutions (k := 0) o.items
    (fun b _ => Nat.zero_le _) h.bounds h.apart (Nat.zero_le _)
  have hraw : ∀ i ∈ Item.ofTokens (tokenize text), i.produced = false :=
    fun i => Item.produced_of_mem_ofTokens
  have hinsert := Block.map_insert_substitutions text (tokenize text) hraw
    (tokenize text).length [] bs (fun b hb => (h.bounds b hb).1) h.apart h.own
  rw [List.nil_append, ← h.items_eq] at hinsert
  rw [h.groups_eq, h.cut_eq]
  refine Cut.output_eq_weave hgaps ?_
  rw [Cut.segments_map, Block.segments_cut, List.map_map, List.map_map, hinsert]
  rfl

/-- The stretches of a line follow each other, so they are replaced in their order. -/
theorem applyAll_expandLine (ctx : Context) (counter : Nat) (text : Text) :
    let subs := (expandLine ctx counter text (tokenize text)).subs
    Substitution.applyAll text subs = Substitution.weave text Substitution.insert 0 subs := by
  intro subs
  obtain ⟨bs, hb⟩ := exists_blocked_expand ctx counter (tokenize text)
  have hlohi : ∀ g ∈ Group.ofEvents (expand ctx counter (tokenize text)).events,
      g.span.lo ≤ g.span.hi := by
    rw [hb.groups_eq, List.forall_mem_map]
    exact fun b hmem => (hb.bounds b hmem).1
  have hapart : (Group.ofEvents (expand ctx counter (tokenize text)).events).Pairwise
      fun g g' => g.span.hi < g'.span.lo := by
    rw [hb.groups_eq, List.pairwise_map]
    exact hb.apart
  have hrow : subs.Pairwise fun s t => s.stop ≤ t.start :=
    Group.pairwise_substitutions (fun g => isAnchored_of_expand) hlohi hapart rfl
  have hbounded : ∀ s ∈ subs, s.raw ≠ [] ∧ s.stop ≤ text.length := by
    intro s hs
    obtain ⟨g, hg, hgives⟩ := Group.exists_gives hs
    obtain ⟨first, last, -, -, hs⟩ :=
      hgives.exists_bounded (isAnchored_of_expand hg) (hlohi g hg) rfl
    exact ⟨hs.nonempty, hs.within⟩
  have hsorted : subs.Pairwise fun s t => decide (s.start ≤ t.start) = true :=
    hrow.imp fun hle => decide_eq_true (Nat.le_trans (Nat.le_add_right ..) hle)
  rw [Substitution.applyAll_eq_weave (fun s hs => (hbounded s hs).1) (hrow.imp Or.inl)
    fun s hs => (hbounded s hs).2, List.mergeSort_of_pairwise hsorted]

end Expansion

/-- **When the text of an expanded line is read as its tokens.**  On a text without comments
the tokens are cut such that the gaps and the trimmed segments make up the expanded line.  If
trimming takes nothing but white space off the segments and each token that is left, white
space aside, is legible where it stands, then the expanded line is read as the tokens.  It is
not if one of these fails, for a table of definitions that were made. -/
theorem readings_expandLine (ctx : Expansion.Context) (counter : Nat) (text : Text)
    (h : Comment.IsFree text) :
    let flat := expandTokens ctx counter (tokenize text)
    let out := Substitution.applyAll text (expandLine ctx counter text (tokenize text)).subs
    let c := (Expansion.expand ctx counter (tokenize text)).cut (tokenize text)
    c.whole = flat.tokens ∧ c.output = out ∧
      (c.IsLegible → readings (tokenize out) = readings flat.tokens) ∧
      ((∀ d ∈ ctx.table.entries, d.IsMade) →
        readings (tokenize out) = readings flat.tokens → c.IsLegible) := by
  intro flat out c
  obtain ⟨bs, hb⟩ := Expansion.exists_blocked_expand ctx counter (tokenize text)
  have hwhole : c.whole = flat.tokens := hb.whole_cut
  have hout : c.output = out :=
    (hb.output_cut h).trans (Expansion.applyAll_expandLine ctx counter text).symm
  refine ⟨hwhole, hout, fun hlegible => ?_, fun hmade hread => ?_⟩
  · rw [← hout, hlegible.readings_output, hwhole]
  · have htidy := Expansion.isTidy_of_expand (fun d hd => (hmade d hd).isTidy) counter text
    refine Cut.isLegible_of_readings (fun t ht hwhite => ?_) (fun segment hsegment t ht => ?_) ?_
    · rw [hwhole] at ht
      obtain ⟨i, hi, rfl⟩ := List.mem_map.1 ht
      rcases htidy i hi with htidy | ⟨-, hliteral⟩
      · exact htidy.white hwhite
      · rw [Token.isWhite_of_isLiteral hliteral] at hwhite
        cases hwhite
    · obtain ⟨i, hi, hproduced, rfl⟩ := Expansion.Group.produced_of_mem_cut hsegment ht
      refine (htidy i hi).resolve_right fun hraw => ?_
      rw [hproduced] at hraw
      cases hraw.1
    · rw [hout, hwhole]
      exact hread

/-- A sign, and a function that puts its argument in. -/
def signContext : Expansion.Context where
  table := Table.ofList
    [{ name := ['A'], body := [⟨.punctuator, ['-'], 0⟩] },
     { name := ['F'], shape := .function [['x']] .none, body := [⟨.ident, ['x'], 0⟩] }]
  file := "board.dts"
  line := 1

/-- The definitions of the example are made by reading. -/
theorem isMade_signContext : ∀ d ∈ signContext.table.entries, d.IsMade := by
  have hentries : signContext.table.entries =
      [{ name := ['A'], body := [⟨.punctuator, ['-'], 0⟩] },
       { name := ['F'], shape := .function [['x']] .none, body := [⟨.ident, ['x'], 0⟩] }] := by
    decide
  rw [hentries, List.forall_mem_cons, List.forall_mem_singleton]
  exact ⟨.inl ⟨"A -".toList, none, none, by decide +kernel⟩,
    .inl ⟨"F(x) x".toList, none, none, by decide +kernel⟩⟩

set_option maxRecDepth 8000 in
/-- Signs that stand apart, one of them in an argument. -/
theorem readings_expandLine_apart :
    let text := "A (F( A ) x)".toList
    Comment.IsFree text ∧ (∀ d ∈ signContext.table.entries, d.IsMade) ∧
      ((Expansion.expand signContext 0 (tokenize text)).cut (tokenize text)).IsLegible ∧
      readings (tokenize (Substitution.applyAll text
          (expandLine signContext 0 text (tokenize text)).subs)) =
        readings (expandTokens signContext 0 (tokenize text)).tokens := by
  have hfree : Comment.IsFree "A (F( A ) x)".toList := by decide
  have hcut : (Expansion.expand signContext 0 (tokenize "A (F( A ) x)".toList)).cut
      (tokenize "A (F( A ) x)".toList) =
        .next [] [⟨.punctuator, ['-'], 0⟩]
          (.next [⟨.whitespace, [' '], 1⟩, ⟨.punctuator, ['('], 2⟩] [⟨.punctuator, ['-'], 0⟩]
            (.last [⟨.whitespace, [' '], 9⟩, ⟨.ident, ['x'], 10⟩, ⟨.punctuator, [')'], 11⟩])) := by
    cbv
  obtain ⟨-, -, hread, hlegible⟩ := readings_expandLine signContext 0 "A (F( A ) x)".toList hfree
  have h : readings (tokenize (Substitution.applyAll "A (F( A ) x)".toList
      (expandLine signContext 0 "A (F( A ) x)".toList (tokenize "A (F( A ) x)".toList)).subs)) =
        readings (expandTokens signContext 0 (tokenize "A (F( A ) x)".toList)).tokens := by
    refine hread ?_
    rw [hcut]
    decide +kernel
  exact ⟨hfree, isMade_signContext, hlegible isMade_signContext h, h⟩

set_option maxRecDepth 8000 in
/-- **The text of an expanded line need not be read as its tokens.**  Two signs that come to
stand next to each other are read as one token; and an argument that is a blank, but no white
space between tokens, is trimmed away. -/
theorem readings_expandLine_run_together :
    let out (text : Text) := Substitution.applyAll text
      (expandLine signContext 0 text (tokenize text)).subs
    let flat (text : Text) := expandTokens signContext 0 (tokenize text)
    (∀ d ∈ signContext.table.entries, d.IsMade) ∧
      (Comment.IsFree "A-".toList ∧
        readings (tokenize (out "A-".toList)) = [(.punctuator, ['-', '-'])] ∧
        readings (flat "A-".toList).tokens = [(.punctuator, ['-']), (.punctuator, ['-'])]) ∧
      (Comment.IsFree "F(\u00a0)".toList ∧
        readings (tokenize (out "F(\u00a0)".toList)) = [] ∧
        readings (flat "F(\u00a0)".toList).tokens = [(.punctuator, ['\u00a0'])]) := by
  refine ⟨isMade_signContext, ⟨by decide, ?_, ?_⟩, by decide, ?_, ?_⟩
  · cbv
  · cbv
  · cbv
  · cbv

end DevicetreePrep
