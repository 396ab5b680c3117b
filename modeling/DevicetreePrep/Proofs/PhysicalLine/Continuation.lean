/-
# Where a continued line is cut

A continued line is some text, a backslash, and blanks (`exists_of_isContinued`).
The backslash is its last one, so the line is cut right before it
(`cutContinued_of_blanks`), and so is every text of the same width that is cut
where this line is.  A line that is cut into pieces, with a backslash behind each but the
last (`continued`), is what the pieces make up again (`splice_continued`).
-/

import DevicetreePrep.PhysicalLine

namespace DevicetreePrep
namespace PhysicalLine

theorem not_isBlank_backslash : isBlank '\\' = false := by
  decide

/-- **A continued line ends with a backslash and blanks.** -/
theorem exists_of_isContinued {line : Text} (h : isContinued line = true) :
    ∃ front blanks, line = front ++ '\\' :: blanks ∧ blanks.all isBlank = true := by
  simp only [isContinued, decide_eq_true_eq, Text.trimRight, List.getLast?_reverse] at h
  obtain ⟨front, hfront⟩ := List.head?_eq_some_iff.1 h
  refine ⟨front.reverse, (line.reverse.takeWhile isBlank).reverse, ?_, ?_⟩
  · have hline : line.reverse = line.reverse.takeWhile isBlank ++ '\\' :: front := by
      rw [← hfront, List.takeWhile_append_dropWhile]
    have hrev := congrArg List.reverse hline
    rw [List.reverse_reverse, List.reverse_append, List.reverse_cons, List.append_assoc] at hrev
    exact hrev
  · rw [List.all_reverse]
    exact List.all_takeWhile

/-- The last backslash of a line is the one that only blanks follow. -/
theorem lastBackslash?_of_blanks {blanks : Text} (h : blanks.all isBlank = true) (front : Text) :
    lastBackslash? (front ++ '\\' :: blanks) = some front.length := by
  have hblanks : blanks.reverse.findIdx? (· = '\\') = none := by
    rw [List.findIdx?_eq_none_iff]
    intro c hc
    rw [decide_eq_false_iff_not]
    rintro rfl
    have hblank := List.all_eq_true.1 h '\\' (List.mem_reverse.1 hc)
    rw [not_isBlank_backslash] at hblank
    cases hblank
  have hfind : (front ++ '\\' :: blanks).reverse.findIdx? (· = '\\') = some blanks.length := by
    rw [List.reverse_append, List.reverse_cons, List.append_assoc, List.findIdx?_append, hblanks,
      List.singleton_append, List.findIdx?_cons]
    simp
  rw [lastBackslash?, hfind]
  simp only [Option.map_some, List.length_append, List.length_cons, Option.some.injEq]
  omega

/-- **A line is cut before the backslash that continues it.** -/
theorem cutContinued_of_blanks {blanks : Text} (h : blanks.all isBlank = true)
    (front line : Text) :
    cutContinued (front ++ '\\' :: blanks) line = line.take front.length := by
  rw [cutContinued, lastBackslash?_of_blanks h]

/-- Lines are appended to each other, all but the last of them cut. -/
theorem splice_append_singleton (lines : List (Text × Text)) (guide line : Text) :
    splice (lines ++ [(guide, line)]) =
      (lines.flatMap fun p => cutContinued p.1 p.2) ++ line := by
  induction lines with
  | nil => rfl
  | cons p lines ih =>
    obtain ⟨q, qs, hq⟩ := List.exists_cons_of_ne_nil
      (List.append_ne_nil_of_right_ne_nil lines (List.cons_ne_nil (guide, line) []))
    rw [List.cons_append, hq, splice, ← hq, ih, List.flatMap_cons, List.append_assoc]
    exact List.cons_ne_nil _ _

/-- A line without a backslash is not continued. -/
theorem isContinued_of_notMem {line : Text} (h : '\\' ∉ line) : isContinued line = false := by
  rw [Bool.eq_false_iff]
  intro hc
  obtain ⟨front, blanks, rfl, -⟩ := exists_of_isContinued hc
  exact h (List.mem_append_right _ (List.mem_cons_self ..))

/-- A line with a backslash at its end is continued. -/
theorem isContinued_append_backslash (line : Text) : isContinued (line ++ ['\\']) = true := by
  rw [isContinued, Text.trimRight, List.reverse_append, List.reverse_singleton,
    List.singleton_append, List.dropWhile_cons_of_neg (by rw [not_isBlank_backslash]; simp)]
  simp

/-- The physical lines that spell pieces of a line: each but the last is continued. -/
def continued : List Text → List Text
  | [] => []
  | [piece] => [piece]
  | piece :: pieces => (piece ++ ['\\']) :: continued pieces

/-- All lines but the last one are continued by a backslash. -/
theorem continued_concat (front : List Text) (last : Text) :
    continued (front ++ [last]) = front.map (· ++ ['\\']) ++ [last] := by
  induction front with
  | nil => rfl
  | cons piece front ih =>
    rw [List.map_cons, List.cons_append, List.cons_append, ← ih]
    cases front <;> rfl

/-- **The pieces make up the line that they were cut from.** -/
theorem splice_continued (pieces : List Text) :
    splice ((continued pieces).map fun line => (line, line)) = pieces.flatten := by
  rcases List.eq_nil_or_concat pieces with rfl | ⟨front, last, rfl⟩
  · rfl
  · have hcut (piece : Text) : cutContinued (piece ++ ['\\']) (piece ++ ['\\']) = piece := by
      rw [cutContinued_of_blanks rfl, List.take_left' rfl]
    rw [List.concat_eq_append, continued_concat, List.map_append, List.map_singleton,
      splice_append_singleton, List.flatMap_map, List.flatMap_map, List.flatten_append,
      List.flatten_singleton]
    simp only [hcut, List.flatMap_id']

end PhysicalLine
end DevicetreePrep
