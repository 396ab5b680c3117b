/-
# The lines of a file and their numbers

A text is cut at its ends of line, of which there are three spellings.  With a line feed in place
of each of them (`Text.unifyLineEnds`) the lines are what stands between two line feeds.  A line has
a number: one more than there are line feeds before it (`PhysicalLine.IsLine`).  What follows the
last line feed is a line only if something does.

The lines of a text, in a row, are exactly the lines with the numbers one, two, and so on
(`PhysicalLine.areLines_splitFrom`), and with line feeds between them, and one at the end if the
last of them is ended, they are the text again (`PhysicalLine.joinWith_splitFrom`).  So nothing is
lost but the spelling of the ends, and the number that a line gets when its file is opened is its
number in the file (`PhysicalLine.split_lossless`).
-/

import DevicetreePrep.Proofs.Definition.Declaration
import DevicetreePrep.Proofs.Run.LogicalLine
import DevicetreePrep.Proofs.Run.Nesting
import DevicetreePrep.Text.Utf8

namespace DevicetreePrep

namespace Text

/-- What was put out before, in reverse order, stands in front of what follows. -/
theorem unifyLineEndsFrom_append (out before t : Text) :
    unifyLineEndsFrom (out ++ before) t = before.reverse ++ unifyLineEndsFrom out t := by
  fun_induction unifyLineEndsFrom out t with
  | case1 out => rw [unifyLineEndsFrom, List.reverse_append]
  | case2 out cs ih => rw [unifyLineEndsFrom, ← ih]; rfl
  | case3 out c cs hpair ih => rw [unifyLineEndsFrom.eq_3 _ _ _ hpair, ← ih]; rfl

theorem unifyLineEndsFrom_eq (out t : Text) :
    unifyLineEndsFrom out t = out.reverse ++ unifyLineEnds t :=
  unifyLineEndsFrom_append [] out t

/-- A carriage return and a line feed are one end of line. -/
theorem unifyLineEnds_pair (cs : Text) :
    unifyLineEnds ('\r' :: '\n' :: cs) = '\n' :: unifyLineEnds cs :=
  unifyLineEndsFrom_eq ['\n'] cs

/-- One character of a text, unless it is a return in front of a feed: a return becomes a feed. -/
theorem unifyLineEnds_cons {c : Char} {cs : Text}
    (h : ∀ rest, c = '\r' → cs = '\n' :: rest → False) :
    unifyLineEnds (c :: cs) = (if c = '\r' then '\n' else c) :: unifyLineEnds cs := by
  rw [unifyLineEnds, unifyLineEndsFrom.eq_3 _ _ _ h, unifyLineEndsFrom_eq]
  rfl

/-- Any other end of line is one of its own. -/
theorem unifyLineEnds_end {c : Char} {cs : Text} (h : ∀ rest, c = '\r' → cs = '\n' :: rest → False)
    (hc : (c = '\r' || c = '\n') = true) : unifyLineEnds (c :: cs) = '\n' :: unifyLineEnds cs := by
  rw [unifyLineEnds_cons h]
  split
  · rfl
  · rename_i hreturn
    rw [decide_eq_false hreturn, Bool.false_or, decide_eq_true_eq] at hc
    rw [hc]

end Text

namespace PhysicalLine

open Text (unifyLineEnds joinWith)

/-- No end of line stands in the text. -/
structure IsUnbroken (t : Text) : Prop where
  return_notMem : '\r' ∉ t
  feed_notMem : '\n' ∉ t

theorem isUnbroken_nil : IsUnbroken [] :=
  ⟨List.not_mem_nil, List.not_mem_nil⟩

/-- A line stays unbroken in front of a character that ends none. -/
theorem IsUnbroken.cons {c : Char} {t : Text} (h : IsUnbroken t) (hreturn : c ≠ '\r')
    (hfeed : c ≠ '\n') : IsUnbroken (c :: t) :=
  ⟨List.not_mem_cons_of_ne_of_not_mem hreturn.symm h.return_notMem,
    List.not_mem_cons_of_ne_of_not_mem hfeed.symm h.feed_notMem⟩

theorem IsUnbroken.reverse {t : Text} (h : IsUnbroken t) : IsUnbroken t.reverse :=
  ⟨fun hmem => h.return_notMem (List.mem_reverse.1 hmem),
    fun hmem => h.feed_notMem (List.mem_reverse.1 hmem)⟩

/-- Two characters end a line. -/
theorem ne_of_not_end {c : Char} (h : ¬(c = '\r' || c = '\n') = true) : c ≠ '\r' ∧ c ≠ '\n' := by
  rwa [Bool.or_eq_true, decide_eq_true_eq, decide_eq_true_eq, not_or] at h

/-- **No end of line stands in a line.** -/
theorem isUnbroken_of_mem_splitFrom {start t line : Text} (hstart : IsUnbroken start)
    (h : line ∈ splitFrom start t) : IsUnbroken line := by
  fun_induction splitFrom start t with
  | case1 => cases h
  | case2 start hne =>
    obtain rfl := List.mem_singleton.1 h
    exact hstart.reverse
  | case3 start cs ih | case4 start c cs _ _ ih =>
    rcases List.mem_cons.1 h with rfl | h
    · exact hstart.reverse
    · exact ih isUnbroken_nil h
  | case5 start c cs _ hc ih =>
    obtain ⟨hreturn, hfeed⟩ := ne_of_not_end hc
    exact ih (hstart.cons hreturn hfeed) h

/-- In a text whose lines end with line feeds, `line` is the line between `front` and `rest`. -/
structure StandsBetween (t front line rest : Text) : Prop where
  parts : t = front ++ (line ++ rest)
  starts : front = [] ∨ front.getLast? = some '\n'
  feed_notMem : '\n' ∉ line
  /-- A line that no line feed ends is not empty. -/
  ends : rest.head? = some '\n' ∨ (rest = [] ∧ line ≠ [])

/-- In a text whose lines end with line feeds, `line` is the line with this number. -/
def IsLine (t : Text) (number : Nat) (line : Text) : Prop :=
  ∃ front rest, StandsBetween t front line rest ∧ number = front.count '\n' + 1

/-- These are all lines of the text, in their order. -/
def AreLines (t : Text) (lines : List Text) : Prop :=
  ∀ n line, lines[n]? = some line ↔ IsLine t (n + 1) line

section Lines

variable {t first front line rest : Text} {lines : List Text}

/-- A text has one front without a line feed up to a line feed. -/
theorem append_feed_inj {a b s t : Text} (ha : '\n' ∉ a) (hb : '\n' ∉ b)
    (h : a ++ '\n' :: s = b ++ '\n' :: t) : a = b ∧ s = t := by
  have hcut := congrArg (Text.cut '\n') h
  rw [Text.cut_append ha, Text.cut_append hb, Prod.mk.injEq, Option.some.injEq] at hcut
  exact hcut

/-- A text without a line feed has one line, or none if it is empty. -/
theorem StandsBetween.eq_of_notMem (h : StandsBetween t front line rest) (ht : '\n' ∉ t) :
    front = [] ∧ line = t ∧ t ≠ [] := by
  obtain ⟨rfl, hstarts, -, hends⟩ := h
  simp only [List.mem_append, not_or] at ht
  have hfront : front = [] :=
    hstarts.resolve_right fun hlast => ht.1 (List.mem_of_getLast? hlast)
  obtain ⟨rfl, hline⟩ := hends.resolve_left fun hhead => ht.2.2 (List.mem_of_head? hhead)
  subst hfront
  simpa using hline

/-- **The first line goes up to the first line feed, and the others stand behind it.** -/
theorem standsBetween_append_iff (hfirst : '\n' ∉ first) :
    StandsBetween (first ++ '\n' :: t) front line rest ↔
      (front = [] ∧ line = first ∧ rest = '\n' :: t) ∨
        ∃ behind, front = first ++ '\n' :: behind ∧ StandsBetween t behind line rest := by
  constructor
  · rintro ⟨hparts, hstarts, hline, hends⟩
    by_cases hfront : '\n' ∈ front
    · obtain ⟨before, behind, rfl, hbefore⟩ := List.eq_append_cons_of_mem hfront
      rw [List.append_assoc, List.cons_append] at hparts
      obtain ⟨rfl, rfl⟩ := append_feed_inj hfirst hbefore hparts
      refine .inr ⟨behind, rfl, rfl, ?_, hline, hends⟩
      cases behind with
      | nil => exact .inl rfl
      | cons c behind =>
        right
        simpa [List.getLast?_append, List.getLast?_cons_cons] using hstarts
    · obtain rfl := hstarts.resolve_right fun hlast => hfront (List.mem_of_getLast? hlast)
      rw [List.nil_append] at hparts
      rcases hends with hhead | ⟨rfl, -⟩
      · obtain ⟨behind, rfl⟩ := List.head?_eq_some_iff.1 hhead
        obtain ⟨rfl, rfl⟩ := append_feed_inj hfirst hline hparts
        exact .inl ⟨rfl, rfl, rfl⟩
      · rw [List.append_nil] at hparts
        exact absurd (hparts ▸ List.mem_append_right _ (List.mem_cons_self ..)) hline
  · rintro (⟨rfl, rfl, rfl⟩ | ⟨behind, rfl, rfl, hstarts, hline, hends⟩)
    · exact ⟨rfl, .inl rfl, hfirst, .inl rfl⟩
    · refine ⟨by rw [List.append_assoc, List.cons_append], .inr ?_, hline, hends⟩
      rcases hstarts with rfl | hlast
      · exact List.getLast?_concat
      · rw [List.getLast?_append, List.getLast?_cons, hlast]
        rfl

/-- The empty text has no lines. -/
theorem areLines_nil : AreLines [] [] := by
  intro n line
  refine iff_of_false (by simp) ?_
  rintro ⟨front, rest, h, -⟩
  exact (h.eq_of_notMem List.not_mem_nil).2.2 rfl

/-- A text without a feed is one line, if it is not empty. -/
theorem areLines_singleton (hfeed : '\n' ∉ line) (hne : line ≠ []) : AreLines line [line] := by
  intro n line'
  rw [List.getElem?_singleton]
  constructor
  · intro h
    split at h
    · rename_i hn
      obtain rfl := Option.some.inj h
      exact ⟨[], [], ⟨by simp, .inl rfl, hfeed, .inr ⟨rfl, hne⟩⟩, by rw [hn]; rfl⟩
    · cases h
  · rintro ⟨front, rest, h, hn⟩
    obtain ⟨rfl, rfl, -⟩ := h.eq_of_notMem hfeed
    rw [if_pos (by simpa using hn)]

/-- A line and its feed come before the lines of the rest. -/
theorem AreLines.cons (h : AreLines t lines) (hfirst : '\n' ∉ first) :
    AreLines (first ++ '\n' :: t) (first :: lines) := by
  have hcount (behind : Text) :
      (first ++ '\n' :: behind).count '\n' = behind.count '\n' + 1 := by
    rw [List.count_append, List.count_cons_self, List.count_eq_zero_of_not_mem hfirst, Nat.zero_add]
  intro n line
  simp only [IsLine, standsBetween_append_iff hfirst]
  cases n with
  | zero =>
    rw [List.getElem?_cons_zero]
    constructor
    · rintro ⟨rfl⟩
      exact ⟨[], _, .inl ⟨rfl, rfl, rfl⟩, rfl⟩
    · rintro ⟨front, rest, ⟨-, rfl, -⟩ | ⟨behind, rfl, -⟩, hn⟩
      · rfl
      · rw [hcount] at hn
        omega
  | succ n =>
    rw [List.getElem?_cons_succ, h n line]
    constructor
    · rintro ⟨behind, rest, hline, hn⟩
      exact ⟨_, rest, .inr ⟨behind, rfl, hline⟩, by rw [hcount, hn]⟩
    · rintro ⟨front, rest, ⟨rfl, -⟩ | ⟨behind, rfl, hline⟩, hn⟩
      · cases hn
      · rw [hcount] at hn
        exact ⟨behind, rest, hline, Nat.succ.inj hn⟩

end Lines

/-- **The lines of a text have the numbers one, two, and so on.** -/
theorem areLines_splitFrom {start : Text} (hstart : IsUnbroken start) (t : Text) :
    AreLines (start.reverse ++ unifyLineEnds t) (splitFrom start t) := by
  fun_induction splitFrom start t with
  | case1 start hempty =>
    obtain rfl := List.isEmpty_iff.1 hempty
    exact areLines_nil
  | case2 start hne =>
    refine (List.append_nil start.reverse).symm ▸ areLines_singleton hstart.reverse.feed_notMem ?_
    simpa using hne
  | case3 start cs ih =>
    rw [Text.unifyLineEnds_pair]
    exact (ih isUnbroken_nil).cons hstart.reverse.feed_notMem
  | case4 start c cs hpair hc ih =>
    rw [Text.unifyLineEnds_end hpair hc]
    exact (ih isUnbroken_nil).cons hstart.reverse.feed_notMem
  | case5 start c cs hpair hc ih =>
    obtain ⟨hreturn, hfeed⟩ := ne_of_not_end hc
    rw [Text.unifyLineEnds_cons hpair, if_neg hreturn]
    have hlines := ih (hstart.cons hreturn hfeed)
    rwa [List.reverse_cons, List.append_assoc, List.singleton_append] at hlines

/-- The line feed that ends the last line of a text, if an end of line does. -/
def lastFeed (t : Text) : Text :=
  if t.getLast? = some '\r' ∨ t.getLast? = some '\n' then ['\n'] else []

theorem lastFeed_append {t : Text} (front : Text) (h : t ≠ []) :
    lastFeed (front ++ t) = lastFeed t := by
  rw [lastFeed, lastFeed, List.getLast?_append_of_ne_nil _ h]

/-- In front of a character that ends no line, the last feed is that of the rest. -/
theorem lastFeed_cons_of_ne {c : Char} (hreturn : c ≠ '\r') (hfeed : c ≠ '\n') (t : Text) :
    lastFeed (c :: t) = lastFeed t := by
  by_cases ht : t = []
  · subst ht
    simp [lastFeed, hreturn, hfeed]
  · exact lastFeed_append [c] ht

/-- A single end of a line is the last feed. -/
theorem lastFeed_singleton {c : Char} (h : (c = '\r' || c = '\n') = true) :
    lastFeed [c] = ['\n'] := by
  rw [Bool.or_eq_true, decide_eq_true_eq, decide_eq_true_eq] at h
  exact if_pos (h.imp (congrArg some) (congrArg some))

/-- Only where nothing stands there is no line. -/
theorem splitFrom_ne_nil {start t : Text} (h : start ≠ [] ∨ t ≠ []) : splitFrom start t ≠ [] := by
  fun_induction splitFrom start t with
  | case1 start hempty => simp_all
  | case2 | case3 | case4 => exact List.cons_ne_nil _ _
  | case5 start c cs _ _ ih => exact ih (.inl (List.cons_ne_nil c start))

/-- **The lines of a text, with line feeds between them, are the text.** -/
theorem joinWith_splitFrom (start t : Text) :
    joinWith ['\n'] (splitFrom start t) ++ lastFeed t = start.reverse ++ unifyLineEnds t := by
  -- the line that ends here stands before the lines that follow, if there are any
  have ended {e cs : Text} (he : lastFeed e = ['\n']) (start : Text)
      (ih : joinWith ['\n'] (splitFrom [] cs) ++ lastFeed cs = unifyLineEnds cs) :
      joinWith ['\n'] (start.reverse :: splitFrom [] cs) ++ lastFeed (e ++ cs) =
        start.reverse ++ '\n' :: unifyLineEnds cs := by
    by_cases hcs : cs = []
    · subst hcs
      rw [List.append_nil, he]
      rfl
    · rw [joinWith, lastFeed_append e hcs, ← ih]
      · rw [List.append_assoc, List.append_assoc]
        rfl
      · exact splitFrom_ne_nil (.inr hcs)
  fun_induction splitFrom start t with
  | case1 start hempty =>
    obtain rfl := List.isEmpty_iff.1 hempty
    rfl
  | case2 start hne => rfl
  | case3 start cs ih =>
    rw [Text.unifyLineEnds_pair]
    exact ended (e := ['\r', '\n']) rfl start ih
  | case4 start c cs hpair hc ih =>
    rw [Text.unifyLineEnds_end hpair hc]
    exact ended (lastFeed_singleton hc) start ih
  | case5 start c cs hpair hc ih =>
    obtain ⟨hreturn, hfeed⟩ := ne_of_not_end hc
    rw [Text.unifyLineEnds_cons hpair, if_neg hreturn, lastFeed_cons_of_ne hreturn hfeed, ih,
      List.reverse_cons, List.append_assoc, List.singleton_append]

/-- A line of a file has the number of its place. -/
theorem getElem?_ofFile {file : String} {source : Text} {n : Nat} {l : SourceLine} :
    (SourceLine.ofFile file source)[n]? = some l ↔
      l.file = file ∧ l.number = n + 1 ∧ (split source)[n]? = some l.text := by
  rw [SourceLine.ofFile, List.getElem?_mapIdx, Option.map_eq_some_iff]
  constructor
  · rintro ⟨text, htext, rfl⟩
    exact ⟨rfl, rfl, htext⟩
  · rintro ⟨rfl, hnumber, htext⟩
    exact ⟨l.text, htext, by rw [← hnumber]⟩

/-- **To cut a file into lines loses nothing but the spelling of their ends.**  No end of line
stands in a line.  The lines with line feeds between them, and one at the end if the file ends with
an end of line, are the file with a line feed for each end of line.  Where the file is opened, its
lines come to the front of the queue, and the entry `n` is the line with the number `n` of the
file. -/
theorem split_lossless (s : State) (file : String) (source : Text) :
    (∀ line ∈ split source, '\r' ∉ line ∧ '\n' ∉ line) ∧
      joinWith ['\n'] (split source) ++
          (if source.getLast? = some '\r' ∨ source.getLast? = some '\n' then ['\n'] else []) =
        unifyLineEnds source ∧
      ∃ lines : List SourceLine,
        (s.openFile file source).queue = lines.map .line ++ .close file :: s.queue ∧
          lines.map SourceLine.text = split source ∧
          ∀ n l, lines[n]? = some l ↔
            l.file = file ∧ l.number = n + 1 ∧ IsLine (unifyLineEnds source) l.number l.text := by
  refine ⟨fun line hline => ?_, joinWith_splitFrom [] source, SourceLine.ofFile file source, ?_,
    SourceLine.map_text_ofFile file source, fun n l => ?_⟩
  · have hunbroken := isUnbroken_of_mem_splitFrom isUnbroken_nil hline
    exact ⟨hunbroken.return_notMem, hunbroken.feed_notMem⟩
  · rw [State.openFile, State.entries_eq, List.append_assoc, List.singleton_append]
  · rw [getElem?_ofFile]
    refine and_congr_right fun _ => and_congr_right fun hnumber => ?_
    rw [hnumber]
    exact areLines_splitFrom isUnbroken_nil source n l.text

/-- All three ends of line in a row end one line each, so the `b` stands in line four. -/
theorem split_lossless_mixed_ends :
    let source : Text := "a\r\n\n\rb\r".toList
    let s : State := ⟨[], [], { table := .empty }⟩
    ['b'] ∈ split source ∧ ('\r' ∉ ['b'] ∧ '\n' ∉ ['b']) ∧
      joinWith ['\n'] (split source) ++ ['\n'] = "a\n\n\nb\n".toList ∧
      .line ⟨['b'], "m", 4⟩ ∈ (s.openFile "m" source).queue ∧
      IsLine "a\n\n\nb\n".toList 4 ['b'] := by
  intro source s
  obtain ⟨hunbroken, hjoin, lines, hqueue, htexts, hlines⟩ := split_lossless s "m" source
  have hb : ['b'] ∈ split source := by decide
  have hget : (lines.map SourceLine.text)[3]? = some ['b'] := by rw [htexts]; rfl
  rw [List.getElem?_map, Option.map_eq_some_iff] at hget
  obtain ⟨⟨text, file, number⟩, hl, rfl⟩ := hget
  obtain ⟨rfl, rfl, hline⟩ := (hlines 3 _).1 hl
  refine ⟨hb, hunbroken _ hb, hjoin, ?_, hline⟩
  rw [hqueue]
  exact List.mem_append_left _ (List.mem_map_of_mem (List.mem_of_getElem? hl))

end PhysicalLine
end DevicetreePrep
