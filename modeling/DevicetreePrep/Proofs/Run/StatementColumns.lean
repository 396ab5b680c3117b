/-
# The columns of include statements

An inclusion that brings in a file is recorded with the file, the line and the column of its
directive.  A directive is recognized in the line without its comments, where a hash sign is the
first visible character.  The column is that of the first visible character of the line as it
stands in the source.  The two are the same character unless a comment comes before the hash sign
(`Comment.forall_isBlank_iff`): one that the line opens and closes, or the end of one that was open
before.  Then the column is that of the comment (`statement_column_ne`).

A statement is recorded where a file is opened, and it keeps its place for the rest of the run
(`Work.readLines_placed`).  So all statements of a run can be looked up in the files that it opened
(`statement_column_iff`).
-/

import DevicetreePrep.Proofs.Comment.Opening
import DevicetreePrep.Proofs.Run.CutLine
import DevicetreePrep.Proofs.Run.IncludeDiscipline
import DevicetreePrep.Proofs.Token.Spelling

namespace DevicetreePrep
namespace Comment

variable {front rest : Text}

/-- A text without a slash goes on with a comment that is open, also in a longer text. -/
theorem maskIn_block_append (h : '/' ∉ front) :
    maskIn .block (front ++ '#' :: rest) =
      List.replicate front.length ' ' ++ ' ' :: maskIn .block rest := by
  induction front with
  | nil => rfl
  | cons c front ih =>
    have hclose (cs : Text) : c = '*' → front ++ '#' :: rest = '/' :: cs → False := by
      rintro - hcons
      cases front with
      | nil => cases hcons
      | cons d front =>
        obtain ⟨rfl, -⟩ := List.cons.inj hcons
        exact h (List.mem_cons_of_mem _ (List.mem_cons_self ..))
    rw [List.cons_append, maskIn.eq_8 _ _ hclose, ih fun hmem => h (List.mem_cons_of_mem _ hmem)]
    rfl

/-- What is blank without its comments is blank, if it has none. -/
theorem isBlank_of_isFree (hfree : IsFree front)
    (h : ∀ c ∈ (maskIn .code (front ++ '#' :: rest)).take front.length, isBlank c = true) :
    ∀ c ∈ front, isBlank c = true := by
  induction front with
  | nil => exact fun c hc => absurd hc List.not_mem_nil
  | cons c front ih =>
    -- a slash in front of the hash sign, or of what follows it, starts no comment
    have hline (cs : Text) : c = '/' → front ++ '#' :: rest = '/' :: cs → False := by
      rintro rfl hcons
      cases front with
      | nil => cases hcons
      | cons d front =>
        obtain ⟨rfl, -⟩ := List.cons.inj hcons
        exact not_isFree_line hfree
    have hblock (cs : Text) : c = '/' → front ++ '#' :: rest = '*' :: cs → False := by
      rintro rfl hcons
      cases front with
      | nil => cases hcons
      | cons d front =>
        obtain ⟨rfl, -⟩ := List.cons.inj hcons
        exact not_isFree_block hfree
    rw [List.cons_append, maskIn.eq_3 _ _ hline hblock, List.length_cons, List.take_succ_cons] at h
    obtain ⟨hc, hfront⟩ := List.forall_mem_cons.1 h
    have hquote : c ≠ '"' ∧ c ≠ '\'' := by
      constructor <;>
      · rintro rfl
        cases hc
    rw [if_neg (by simpa using hquote)] at hfront
    exact List.forall_mem_cons.2 ⟨hc, ih (hfree.of_cons hquote) hfront⟩

/-- **Blanks alone stand before a hash sign that is shown, exactly if no comment does.** -/
theorem forall_isBlank_iff {isOpen : Bool} {blanks cs : Text} (hlength : blanks.length = front.length)
    (hblanks : ∀ c ∈ blanks, isBlank c = true)
    (hshown : mask isOpen (front ++ '#' :: rest) = blanks ++ '#' :: cs) :
    (∀ c ∈ front, isBlank c = true) ↔ isOpen = false ∧ IsFree front := by
  constructor
  · intro hfront
    have hslash : '/' ∉ front := fun hmem => absurd (hfront _ hmem) (by decide)
    cases isOpen with
    | false => exact ⟨rfl, (maskIn_of_not_hasMark rfl (hasMark_of_notMem hslash)).1⟩
    | true =>
      have hmask := (maskIn_block_append hslash).symm.trans hshown
      obtain ⟨-, hhash⟩ := List.append_inj hmask (by rw [List.length_replicate, hlength])
      exact absurd (List.cons.inj hhash).1 (by decide)
  · rintro ⟨rfl, hfree⟩
    have hmask : (maskIn .code (front ++ '#' :: rest)).take front.length = blanks := by
      rw [← hlength]
      exact (congrArg (List.take _) hshown).trans List.take_left
    exact isBlank_of_isFree hfree (hmask ▸ hblanks)

end Comment

/-- The first visible character of a text does not stand behind a hash sign. -/
theorem Work.columnOf_append_hash (front rest : Text) :
    columnOf (front ++ '#' :: rest) ≤ front.length + 1 ∧
      (columnOf (front ++ '#' :: rest) = front.length + 1 ↔ ∀ c ∈ front, isBlank c = true) := by
  have hhash : ('#' :: rest).takeWhile isBlank = [] :=
    List.takeWhile_cons_of_neg (by decide)
  have hwidth : columnOf (front ++ '#' :: rest) = (front.takeWhile isBlank).length + 1 := by
    rw [columnOf, List.takeWhile_append, hhash, List.append_nil]
    split
    · rename_i hall
      rw [hall]
    · rfl
  have hinitial : front.takeWhile isBlank <+: front := List.takeWhile_prefix _
  rw [hwidth]
  refine ⟨Nat.succ_le_succ hinitial.length_le, ?_⟩
  rw [Nat.add_right_cancel_iff, ← List.takeWhile_eq_self_iff]
  exact ⟨hinitial.eq_of_length, congrArg List.length⟩

/-- A physical line of a file without its comments. -/
theorem MaskedLine.getElem?_ofLines (isOpen : Bool) (ts : List Text) (n : Nat) :
    (ofLines isOpen ts)[n]? =
      ts[n]?.map fun t => ⟨Comment.mask ((ts.take n).foldl Comment.leavesOpen isOpen) t, t⟩ := by
  induction ts generalizing isOpen n with
  | nil => rfl
  | cons t ts ih =>
    cases n with
    | zero => rfl
    | succ n => exact ih _ n

/-- The statement is that of an inclusion in the line `n` of the file, which reads `raw`, and the
hash sign of its directive is the character `k` there.  Both are counted from zero. -/
structure IncludeStatement.StandsAt (st : IncludeStatement) (g : IncludedFile) (n k : Nat)
    (raw : Text) : Prop where
  file : st.file = g.file
  line : st.line = n + 1
  text : (PhysicalLine.split g.text)[n]? = some raw
  /-- Together with the lines that continue it, the line is an inclusion. -/
  directive : ∃ o operand, o.first = n ∧
    (∀ p ∈ (g.stretch o).dropLast, PhysicalLine.isContinued p.masked = true) ∧
    MaskedLine.directive? (g.stretch o) = some (.inclusion operand)
  hash : raw[k]? = some '#'
  /-- The hash sign is the first visible character of the line without its comments. -/
  shown : ∃ blanks cs,
    Comment.mask (Comment.openBefore (PhysicalLine.split g.text) n) raw = blanks ++ '#' :: cs ∧
      blanks.length = k ∧ ∀ c ∈ blanks, isBlank c = true

/-- **The column of a statement is that of its hash sign exactly if no comment comes before.** -/
theorem IncludeStatement.StandsAt.column_iff {st : IncludeStatement} {g : IncludedFile} {n k : Nat}
    {raw : Text} (h : st.StandsAt g n k raw) (hcolumn : st.column = Work.columnOf raw) :
    st.column ≤ k + 1 ∧
      (st.column = k + 1 ↔
        Comment.openBefore (PhysicalLine.split g.text) n = false ∧ Comment.IsFree (raw.take k)) := by
  obtain ⟨hk, hhash⟩ := List.getElem?_eq_some_iff.1 h.hash
  obtain ⟨blanks, cs, hshown, hlength, hblanks⟩ := h.shown
  have hraw : raw.take k ++ '#' :: raw.drop (k + 1) = raw := by
    rw [← hhash, List.getElem_cons_drop, List.take_append_drop]
  have hwidth : (raw.take k).length = k := List.length_take_of_le (Nat.le_of_lt hk)
  have hblank := Work.columnOf_append_hash (raw.take k) (raw.drop (k + 1))
  rw [hraw, ← hcolumn, hwidth] at hblank
  rw [← hraw] at hshown
  rwa [Comment.forall_isBlank_iff (hlength.trans hwidth.symm) hblanks hshown] at hblank

namespace Work

variable {w w' : Work} {bs bs' : Branches} {l : LogicalLine} {r : Request}

/-- What a line asks for, it asks for in its own place. -/
structure AsksAt (l : LogicalLine) (r : Request) : Prop where
  includer : r.inclusion.includer = l.file
  line : r.line = l.number
  column : r.column = columnOf l.first.raw

/-- What an inclusion asks for, it asks for in its own place. -/
theorem asksAt_of_inclusion {operand : Text} (h : (w.inclusion l operand).2 = some r) :
    AsksAt l r := by
  unfold inclusion at h
  dsimp only at h
  split at h
  · obtain rfl := Option.some.inj h
    exact ⟨rfl, rfl, rfl⟩
  · split at h
    · obtain rfl := Option.some.inj h
      exact ⟨rfl, rfl, rfl⟩
    · cases h

/-- **Only an inclusion asks for a file**, in its own place. -/
theorem asksAt_of_process (h : w.process bs l = .ok (w', bs', some r)) :
    AsksAt l r ∧ ∃ operand, MaskedLine.directive? l.parts = some (.inclusion operand) := by
  unfold process at h
  split at h
  · split at h <;> cases h
  · rename_i d₀ hfirst
    split at h
    · cases h
    · rename_i d hline
      have hparts : MaskedLine.directive? l.parts = some d :=
        Option.bind_eq_some_iff.2 ⟨d₀, hfirst, hline⟩
      cases hd : d.namesFile with
      | false => cases (length_of_direct h).2 hd
      | true =>
        cases d with
        | inclusion operand =>
          rw [direct_of_not_isConditional rfl] at h
          split at h
          · obtain ⟨-, hrest⟩ := Prod.mk.inj (Except.ok.inj h)
            obtain ⟨-, hr⟩ := Prod.mk.inj hrest
            exact ⟨asksAt_of_inclusion hr, operand, hparts⟩
          · cases h
        | pragma operand =>
          rw [direct_of_not_isConditional rfl] at h
          split at h <;> cases h
        | _ => cases hd

/-- A statement is recorded exactly where a file is brought in. -/
theorem statements_of_accept {opened : List String} {answer : Resolution}
    {g : Option IncludedFile} (h : w.accept opened r answer = .ok (w', g)) :
    w'.statements = (g.map fun g =>
      ⟨r.inclusion.includer, r.line, r.column, r.inclusion.target, g.file⟩).toList ++
        w.statements := by
  unfold accept at h
  dsimp only at h
  repeat' split at h
  all_goals
    first
    | cases h; done
    | obtain ⟨rfl, rfl⟩ := Prod.mk.inj (Except.ok.inj h)
      rfl

end Work

/-- A character that is shown is the one of the source, unless it is a space. -/
theorem Blanked.getElem?_of_append {blanks cs raw : Text} {c : Char} (hc : c ≠ ' ')
    (h : Blanked (blanks ++ c :: cs) raw) : raw[blanks.length]? = some c := by
  have hdrop := List.forall₂_drop blanks.length h
  rw [List.drop_left] at hdrop
  rw [← List.head?_drop]
  generalize raw.drop blanks.length = rest at hdrop ⊢
  cases hdrop with
  | cons hsame _ => rw [hsame.resolve_right hc, List.head?_cons]

/-- **The line at which a file stands is the place of the statement that it makes.** -/
theorem OpenFile.Stands.standsAt {f : OpenFile} {g : IncludedFile} {n : Nat} {l : SourceLine}
    {ls : List SourceLine} (h : f.Stands g n (l :: ls)) {st : IncludeStatement} {operand : Text}
    (hfile : st.file = l.file) (hline : st.line = l.number)
    (hdirective : MaskedLine.directive? (f.logicalLineOf l ls).1.parts =
      some (.inclusion operand)) :
    ∃ k, st.StandsAt g n k l.text := by
  obtain ⟨-, hgfile, hnumber⟩ := h.place
  have hget : (SourceLine.ofFile g.file g.text)[n]? = some l := by
    rw [← List.head?_drop, ← h.lines, List.head?_cons]
  have htext : (PhysicalLine.split g.text)[n]? = some l.text := by
    rw [← SourceLine.map_text_ofFile g.file, List.getElem?_map, hget]
    rfl
  -- the first part of the logical line is the line `n` of the file, as comments leave it
  have hmask : g.masks[n]? = some (f.mask l) := by
    rw [← List.head?_drop, ← h.masks]
    rfl
  rw [IncludedFile.masks, MaskedLine.getElem?_ofLines, htext, Option.map_some] at hmask
  have hmasked : Comment.mask (Comment.openBefore (PhysicalLine.split g.text) n) l.text =
      (f.mask l).masked :=
    congrArg MaskedLine.masked (Option.some.inj hmask)
  obtain ⟨d₀, hfirst, -⟩ := Option.bind_eq_some_iff.1 hdirective
  have hfirst : Directive.ofLine? (f.mask l).masked = some d₀ := hfirst
  obtain ⟨cs, hcs⟩ := Directive.exists_of_ofLine? (Option.isSome_of_eq_some hfirst)
  have hshown : (f.mask l).masked = (f.mask l).masked.takeWhile isBlank ++ '#' :: cs := by
    rw [← hcs, Text.trimLeft, List.takeWhile_append_dropWhile]
  refine ⟨((f.mask l).masked.takeWhile isBlank).length, hfile.trans hgfile, hline.trans hnumber, htext,
    ?_, ?_, _, cs, hmasked.trans hshown, rfl, List.all_eq_true.1 List.all_takeWhile⟩
  · refine ⟨⟨0, n, (f.logicalLineOf l ls).1.more.length⟩, operand, rfl, ?_, ?_⟩
    · rw [← h.parts_eq]
      exact f.isChained_logicalLineOf l ls
    · rw [← h.parts_eq]
      exact hdirective
  · have hblanked : Blanked (f.mask l).masked l.text := blanked_mask _ _
    rw [hshown] at hblanked
    exact hblanked.getElem?_of_append (by decide)

/-- The run has opened the files `os`, the one it started with first, and its statements stand in
them. -/
structure Work.Placed (resolve : Resolver) (os : List IncludedFile) (w : Work) : Prop where
  includes : os.tail.map IncludedFile.file = w.includes.reverse
  found : ∀ g ∈ os.tail, ∃ i, resolve i = .found g
  statements : ∀ st ∈ w.statements, ∃ g ∈ os, ∃ n k raw,
    st.StandsAt g n k raw ∧ st.column = columnOf raw

namespace Work

variable {resolve : Resolver} {os : List IncludedFile} {w w' : Work}

/-- Statements stay in place while neither they nor the inclusions change. -/
theorem Placed.keep (h : w.Placed resolve os) (hincludes : w'.includes = w.includes)
    (hstatements : w'.statements = w.statements) : w'.Placed resolve os where
  includes := by rw [h.includes, hincludes]
  found := h.found
  statements := by rw [hstatements]; exact h.statements

/-- A file is brought in by an inclusion that stands in an open one. -/
theorem Placed.enter (h : w.Placed resolve os) (hos : os ≠ []) {g : IncludedFile} {i : Inclusion}
    {st : IncludeStatement} (hincludes : w'.includes = g.file :: w.includes)
    (hstatements : w'.statements = st :: w.statements) (hg : resolve i = .found g)
    (hst : ∃ g ∈ os, ∃ n k raw, st.StandsAt g n k raw ∧ st.column = columnOf raw) :
    w'.Placed resolve (os ++ [g]) where
  includes := by
    rw [List.tail_append_of_ne_nil hos, List.map_append, h.includes, hincludes, List.reverse_cons]
    rfl
  found := by
    intro g' hg'
    rw [List.tail_append_of_ne_nil hos, List.mem_append, List.mem_singleton] at hg'
    rcases hg' with hg' | rfl
    · exact h.found g' hg'
    · exact ⟨i, hg⟩
  statements := by
    rw [hstatements]
    refine List.forall_mem_cons.2 ⟨?_, fun st' hst' => ?_⟩
    · obtain ⟨g', hg', hplace⟩ := hst
      exact ⟨g', List.mem_append_left _ hg', hplace⟩
    · obtain ⟨g', hg', hplace⟩ := h.statements st' hst'
      exact ⟨g', List.mem_append_left _ hg', hplace⟩

/-- **To read a file to its end keeps the places of the statements and adds those of the files
that are brought in.** -/
theorem readLines_placed {outer : List String} {f : OpenFile} {lines : List SourceLine}
    (hread : w.readLines resolve outer f lines = .ok w') {g : IncludedFile} {n : Nat}
    (h : w.Placed resolve os) (hg : g ∈ os) (hf : f.Stands g n lines) :
    ∃ os', w'.Placed resolve (os ++ os') := by
  fun_induction Work.readLines resolve outer f w lines generalizing w' os g n with
  | case1 outer f w =>
    obtain rfl := Except.ok.inj hread
    obtain ⟨_, _, hreports⟩ := reports_reportEnd w f.file f
    refine ⟨[], ?_⟩
    rw [List.append_nil, hreports]
    exact h.keep rfl rfl
  | case2 => cases hread
  | case3 outer f w l ls line w₁ branches hw =>
    rename_i ih
    obtain ⟨hincludes, hstatements, -⟩ := (effect_of_process hw).inclusions
    exact ih hread (h.keep hincludes hstatements) hg (hf.next branches)
  | case4 => cases hread
  | case5 outer f w l ls line w₁ branches r hw w₂ ha =>
    rename_i ih
    obtain ⟨hincludes, hstatements, -⟩ := (effect_of_process hw).inclusions
    obtain ⟨-, hincludes', -⟩ := includes_of_accept ha
    have hstatements' := statements_of_accept ha
    exact ih hread (h.keep (hincludes'.trans hincludes) (hstatements'.trans hstatements)) hg
      (hf.next branches)
  | case6 => cases hread
  | case7 outer f w l ls line w₁ branches r hw w₂ g₂ ha w₃ hg₂ ihg =>
    rename_i ih
    obtain ⟨hincludes, hstatements, -⟩ := (effect_of_process hw).inclusions
    obtain ⟨-, hincludes', hfound⟩ := includes_of_accept ha
    have hstatements' := statements_of_accept ha
    rw [hincludes] at hincludes'
    rw [hstatements] at hstatements'
    obtain ⟨hasks, operand, hdirective⟩ := asksAt_of_process hw
    let st : IncludeStatement :=
      ⟨r.inclusion.includer, r.line, r.column, r.inclusion.target, g₂.file⟩
    obtain ⟨k, hk⟩ : ∃ k, st.StandsAt g n k l.text :=
      hf.standsAt hasks.includer hasks.line hdirective
    have hst : ∃ g ∈ os, ∃ n k raw, st.StandsAt g n k raw ∧ st.column = columnOf raw :=
      ⟨g, hg, n, k, l.text, hk, hasks.column⟩
    have h₂ : w₂.Placed resolve (os ++ [g₂]) :=
      h.enter (List.ne_nil_of_mem hg) hincludes' hstatements' (hfound g₂ rfl) hst
    -- the included file is read to its end, and then this file goes on
    obtain ⟨os₂, h₃⟩ := ihg hg₂ h₂ (List.mem_append_right _ (List.mem_singleton_self g₂)) (.start g₂)
    rw [List.append_assoc] at h₃
    obtain ⟨os₃, h₄⟩ := ih hread h₃ (List.mem_append_left _ hg) (hf.next branches)
    exact ⟨_, List.append_assoc os _ os₃ ▸ h₄⟩

end Work

/-- **Where the column of an include statement points to.**  The files that a run opens are the one
it starts with and the ones it includes.  Each of its statements stands in a line of one of these,
where an inclusion starts with a hash sign.  The column is never behind the hash sign, and it is
that of the hash sign exactly if the line starts outside of a comment and has no comment before the
hash sign. -/
theorem statement_column_iff {resolve : Resolver} {table : Table} {diagnostics : Diagnostics}
    {file : String} {source : Text} {r : Result}
    (h : preprocess resolve table diagnostics file source = .ok r) :
    ∃ included : List IncludedFile,
      included.map IncludedFile.file = r.includes ∧ (∀ g ∈ included, ∃ i, resolve i = .found g) ∧
      ∀ st ∈ r.statements, ∃ g ∈ ⟨file, source⟩ :: included, ∃ n k raw, st.StandsAt g n k raw ∧
        st.column ≤ k + 1 ∧
        (st.column = k + 1 ↔ Comment.openBefore (PhysicalLine.split g.text) n = false ∧
          Comment.IsFree (raw.take k)) := by
  rw [preprocess_eq_map_readLines] at h
  cases hread : Work.readLines resolve [] { file } { table, diagnostics }
      (SourceLine.ofFile file source) with
  | error e =>
    rw [hread] at h
    cases h
  | ok w =>
    rw [hread] at h
    obtain rfl := Except.ok.inj h
    have hstart : Work.Placed resolve [⟨file, source⟩] { table, diagnostics } :=
      ⟨rfl, fun g hg => absurd hg List.not_mem_nil, fun st hst => absurd hst List.not_mem_nil⟩
    obtain ⟨included, hplaced⟩ := Work.readLines_placed hread hstart
      (List.mem_singleton_self _) (.start ⟨file, source⟩)
    refine ⟨included, hplaced.includes, hplaced.found, fun st hst => ?_⟩
    obtain ⟨g, hg, n, k, raw, hstands, hcolumn⟩ := hplaced.statements st (List.mem_reverse.1 hst)
    exact ⟨g, hg, n, k, raw, hstands, hstands.column_iff hcolumn⟩

open State in
/-- An inclusion behind a tab, in a line behind a comment of two lines.  The column is that of the
hash sign. -/
theorem statement_column_iff_behind_tab :
    let source := "/* a\n*/\n\t#include \"a.h\"".toList
    ∃ r st, preprocess (Resolver.ofList [("a.h", [])]) {} {} "m" source = .ok r ∧
      st ∈ r.statements ∧ st.line = 3 ∧ st.column = 2 ∧
      ∃ k raw, st.StandsAt ⟨"m", source⟩ 2 k raw ∧ st.column = k + 1 := by
  intro source
  let resolve : Resolver := .ofList [("a.h", [])]
  let f : OpenFile := { file := "m", commentLine := some 1 }
  let st : IncludeStatement := ⟨"m", 3, 2, "a.h", "a.h"⟩
  let w : Work := { table := {}, includes := ["a.h"], statements := [st] }
  have hend : Reaches resolve (start {} {} "m" source) ⟨[], [], w⟩ :=
    .head (b := reading { f with inComment := true } ((SourceLine.ofFile "m" source).drop 1) [] []
        { table := {} }) rfl <|
      .head (b := reading f ((SourceLine.ofFile "m" source).drop 2) [] [] { table := {} }) rfl <|
      .head (b := reading { file := "a.h" } [] [f] [.close "m"] w) rfl <|
      .head (b := reading f [] [] [] w) rfl <| .single rfl
  have hrun : preprocess resolve {} {} "m" source = .ok w.result :=
    hend.run_eq.trans (run_of_queue_eq_nil rfl)
  have hst : st ∈ w.result.statements := List.mem_singleton_self st
  obtain ⟨included, hincluded, -, hall⟩ := statement_column_iff hrun
  obtain ⟨g, hg, n, k, raw, hstands, -, hiff⟩ := hall st hst
  -- the statement stands in the third line of the file of the run
  obtain rfl : g = ⟨"m", source⟩ := by
    refine (List.mem_cons.1 hg).resolve_right fun hg => ?_
    have hfile := List.mem_map_of_mem (f := IncludedFile.file) hg
    rw [hincluded, ← hstands.file] at hfile
    exact absurd hfile (by decide)
  obtain rfl : n = 2 := (Nat.succ.inj hstands.line).symm
  obtain rfl : "\t#include \"a.h\"".toList = raw := Option.some.inj hstands.text
  have hslash : '/' ∉ ("\t#include \"a.h\"".toList).take k :=
    fun hmem => absurd (List.mem_of_mem_take hmem) (by decide)
  have hfree := Comment.maskIn_of_not_hasMark (m := .code) rfl (Comment.hasMark_of_notMem hslash)
  exact ⟨_, st, hrun, hst, rfl, rfl, k, _, hstands, hiff.2 ⟨rfl, hfree.1⟩⟩

open State in
/-- An inclusion behind a comment.  The column is that of the comment. -/
theorem statement_column_ne :
    let source := "/* c */ #include \"a.h\"\n".toList
    ∃ r raw, preprocess (Resolver.ofList [("a.h", [])]) {} {} "main.dts" source = .ok r ∧
      r.statements = [⟨"main.dts", 1, 1, "a.h", "a.h"⟩] ∧
      (PhysicalLine.split source)[0]? = some raw ∧ raw[0]? = some '/' ∧ raw[8]? = some '#' := by
  intro source
  let w : Work :=
    { table := {}, includes := ["a.h"], statements := [⟨"main.dts", 1, 1, "a.h", "a.h"⟩] }
  let f : OpenFile := { file := "main.dts" }
  have hend : Reaches (.ofList [("a.h", [])]) (start {} {} "main.dts" source) ⟨[], [], w⟩ :=
    .head (b := reading { file := "a.h" } [] [f] [.close "main.dts"] w) rfl <|
      .head (b := reading f [] [] [] w) rfl <| .single rfl
  exact ⟨_, _, hend.run_eq.trans (run_of_queue_eq_nil rfl), rfl, rfl, rfl, rfl⟩

end DevicetreePrep
