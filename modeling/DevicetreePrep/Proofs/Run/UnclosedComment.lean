/-
# Where an unclosed comment is reported

A file that ends inside of a comment is reported at its end, with the number of a line.
While the file is read, this number is kept up to date from what is known of each physical
line: whether it starts inside of a comment, and whether it leaves one open.  So it is the
number of the last line that starts outside of a comment (`OpenFile.Follows`), however the
lines are continued and whatever files are included in between
(`State.exists_reaches_close`).

This is the line in which the comment opens, unless that line starts inside of an earlier
comment (`State.line_of_unclosed_comment`).  A line that closes one comment and opens
another, which stays open, is not the line that is reported
(`State.line_of_unclosed_comment_ne`).
-/

import DevicetreePrep.Proofs.Comment.Opening
import DevicetreePrep.Proofs.Run.Endings

namespace DevicetreePrep

/-- The file `f` has read the first `n` lines of `g` and goes on with the lines `ls`.  It
knows whether a comment is open there and, if so, which line was the last one to start
outside of a comment. -/
structure OpenFile.Follows (f : OpenFile) (g : IncludedFile) (n : Nat) (ls : List SourceLine) :
    Prop where
  file : f.file = g.file
  lines : ls = (SourceLine.ofFile g.file g.text).drop n
  le : n ≤ (PhysicalLine.split g.text).length
  inComment : f.inComment = Comment.openBefore (PhysicalLine.split g.text) n
  commentLine : f.inComment = true →
    ∃ m, f.commentLine = some (m + 1) ∧ Comment.IsLastOutside (PhysicalLine.split g.text) n m

namespace OpenFile.Follows

variable {f : OpenFile} {g : IncludedFile} {n : Nat} {l : SourceLine} {ls : List SourceLine}

/-- A file has read nothing when it is opened. -/
theorem start (g : IncludedFile) :
    Follows { file := g.file } g 0 (SourceLine.ofFile g.file g.text) where
  file := rfl
  lines := rfl
  le := Nat.zero_le _
  inComment := rfl
  commentLine h := nomatch h

/-- The next line is the one with its number. -/
theorem place (h : f.Follows g n (l :: ls)) :
    (PhysicalLine.split g.text)[n]? = some l.text ∧ l.number = n + 1 := by
  have hget : (SourceLine.ofFile g.file g.text)[n]? = some l := by
    rw [← List.head?_drop, ← h.lines, List.head?_cons]
  rw [SourceLine.ofFile, List.getElem?_mapIdx] at hget
  obtain ⟨text, htext, rfl⟩ := Option.map_eq_some_iff.1 hget
  exact ⟨htext, rfl⟩

/-- **A physical line keeps the number up to date.** -/
theorem after (h : f.Follows g n (l :: ls)) : (f.after l).Follows g (n + 1) ls := by
  obtain ⟨hline, hnumber⟩ := h.place
  have hopen : (f.after l).inComment = Comment.openBefore (PhysicalLine.split g.text) (n + 1) := by
    rw [Comment.openBefore_succ hline, ← h.inComment]
    rfl
  refine ⟨h.file, ?_, (List.getElem?_eq_some_iff.1 hline).1, hopen, fun hafter => ?_⟩
  · rw [← List.drop_drop, ← h.lines]
    rfl
  · have hleaves : Comment.leavesOpen f.inComment l.text = true := hafter
    rw [hopen] at hafter
    cases hbefore : f.inComment with
    | false =>
      refine ⟨n, ?_, .last (h.inComment.symm.trans hbefore) hafter⟩
      rw [OpenFile.after, hleaves, hbefore, ← hnumber]
      rfl
    | true =>
      obtain ⟨m, hm, hlast⟩ := h.commentLine hbefore
      refine ⟨m, ?_, hlast.succ hafter⟩
      rw [OpenFile.after, hleaves, hbefore, ← hm]
      rfl

/-- So do the lines that continue a line. -/
theorem continuationOf (h : f.Follows g n ls) (last : MaskedLine) :
    ∃ k, (f.continuationOf last ls).2.1.Follows g k (f.continuationOf last ls).2.2 := by
  fun_induction OpenFile.continuationOf f last ls generalizing n with
  | case1 => exact ⟨n, h⟩
  | case2 f last l ls _ more f' rest hr ih =>
    rw [hr] at ih
    exact ih h.after
  | case3 => exact ⟨n, h⟩

/-- **A logical line keeps the number up to date**, whatever conditionals are open behind
it. -/
theorem logicalLineOf (h : f.Follows g n (l :: ls)) (branches : Branches) :
    ∃ k, Follows { (f.logicalLineOf l ls).2.1 with branches } g k (f.logicalLineOf l ls).2.2 := by
  obtain ⟨k, hk⟩ := h.after.continuationOf (f.mask l)
  exact ⟨k, hk.file, hk.lines, hk.le, hk.inComment, hk.commentLine⟩

/-- Behind its last line a file has read all of them. -/
theorem eq_length (h : f.Follows g n []) : n = (PhysicalLine.split g.text).length := by
  have hlength := List.drop_eq_nil_iff.1 h.lines.symm
  rw [SourceLine.ofFile, List.length_mapIdx] at hlength
  exact Nat.le_antisymm h.le hlength

end OpenFile.Follows

/-- The report of a comment that is left open at the end of a file. -/
def OpenFile.commentReport (f : OpenFile) (file : String) : Diagnostic where
  stage := Stage.lexical.name
  file := file
  message := "Unterminated block comment"
  line := f.commentLine.map Int.ofNat
  column := some 1
  code := some Code.unterminatedText.text

/-- What is reported at the end of a file: the conditionals left open, and the comment. -/
def OpenFile.endReports (f : OpenFile) (file : String) : List Diagnostic :=
  (Branches.unterminated f.branches).map (fun b => {
      stage := Stage.preprocessing.name, file, message := "Unterminated conditional block"
      line := b.line, column := some 1, code := some Code.unterminatedConditional.text }) ++
    if f.inComment then [f.commentReport file] else []

/-- The end of a file reports what is left open, in order. -/
theorem Work.reportEnd_eq (w : Work) (file : String) (f : OpenFile) :
    w.reportEnd file f = (f.endReports file).foldl Work.push w := by
  rw [reportEnd, OpenFile.endReports, List.foldl_append, List.foldl_map]
  cases f.inComment <;> rfl

/-- The reports of a comment left open, among all reports. -/
def Diagnostic.ofUnclosedComment (ds : List Diagnostic) : List Diagnostic :=
  ds.filter (·.message = "Unterminated block comment")

/-- Of the reports at the end of a file, one is of a comment, if there is one open. -/
theorem OpenFile.ofUnclosedComment_endReports (f : OpenFile) (file : String) :
    Diagnostic.ofUnclosedComment (f.endReports file) =
      if f.inComment then [f.commentReport file] else [] := by
  rw [Diagnostic.ofUnclosedComment, endReports, List.filter_append, List.filter_map,
    List.filter_eq_nil_iff.2 fun b _ => by simp, List.map_nil, List.nil_append]
  cases f.inComment <;> rfl

namespace State

variable {resolve : Resolver}

/-- **A file that is read to its end comes to its end mark**, with the files and the queue
around it as they were, and knows there what it has to report. -/
theorem exists_reaches_close {outer : List String} {f : OpenFile} {w w' : Work}
    {lines : List SourceLine} (hread : w.readLines resolve outer f lines = .ok w')
    {fs : List OpenFile} {q : List Pending} {g : IncludedFile} {n : Nat}
    (houter : fs.map OpenFile.file = outer) (hq : q.countP Pending.isClose = fs.length)
    (hf : f.Follows g n lines) :
    ∃ f' v, f'.Follows g (PhysicalLine.split g.text).length [] ∧
      Reaches resolve (reading f lines fs q w) ⟨.close g.file :: q, f' :: fs, v⟩ ∧
      w' = v.reportEnd g.file f' := by
  fun_induction Work.readLines resolve outer f w lines generalizing w' fs q g n with
  | case1 outer f w =>
    obtain rfl := Except.ok.inj hread
    rw [reading, List.map_nil, List.nil_append, hf.file]
    exact ⟨f, w, hf.eq_length ▸ hf, .refl, rfl⟩
  | case2 => cases hread
  | case3 outer f w l ls line w₁ branches hw =>
    rename_i ih
    obtain ⟨k, hk⟩ := hf.logicalLineOf branches
    have hstep : (reading f (l :: ls) fs q w).step resolve = _ := step_reading_cons hq f l ls w
    rw [hw] at hstep
    obtain ⟨f', v, hf', hreach, hw'⟩ := ih hread houter hq hk
    exact ⟨f', v, hf', .head hstep hreach, hw'⟩
  | case4 => cases hread
  | case5 outer f w l ls line w₁ branches r hw w₂ ha =>
    rename_i ih
    obtain ⟨k, hk⟩ := hf.logicalLineOf branches
    have hstep : (reading f (l :: ls) fs q w).step resolve = _ := step_reading_cons hq f l ls w
    rw [hw, houter] at hstep
    dsimp only [Except.bind] at hstep
    rw [ha] at hstep
    obtain ⟨f', v, hf', hreach, hw'⟩ := ih hread houter hq hk
    exact ⟨f', v, hf', .head hstep hreach, hw'⟩
  | case6 => cases hread
  | case7 outer f w l ls line w₁ branches r hw w₂ g₂ ha w₃ hg ihg =>
    rename_i ih
    obtain ⟨k, hk⟩ := hf.logicalLineOf branches
    have hstep : (reading f (l :: ls) fs q w).step resolve = _ := step_reading_cons hq f l ls w
    rw [hw, houter] at hstep
    dsimp only [Except.bind] at hstep
    rw [ha, Except.map, accepted_reading] at hstep
    -- the included file comes to its end mark, and behind that this file goes on
    have hnames : ({ (f.logicalLineOf l ls).2.1 with branches } :: fs).map OpenFile.file =
        f.file :: outer := by
      rw [List.map_cons, houter, f.file_logicalLineOf]
    have hcount : (reading { (f.logicalLineOf l ls).2.1 with branches } (f.logicalLineOf l ls).2.2
        fs q w₁).queue.countP Pending.isClose = fs.length + 1 := by
      rw [countP_queue_reading, hq]
    obtain ⟨f₂, v₂, -, hreach₂, rfl⟩ := ihg hg hnames hcount (.start g₂)
    obtain ⟨f', v, hf', hreach, hw'⟩ := ih hread houter hq hk
    exact ⟨f', v, hf', .head hstep (hreach₂.trans (.head rfl hreach)), hw'⟩

/-- Where a file is opened in a nested state, the rest of the queue has an end for each of
the files around it. -/
theorem countP_isClose_of_openFile {t : State} {file : String} {source : Text}
    (h : (t.openFile file source).IsNested) :
    t.queue.countP Pending.isClose = t.files.length := by
  rw [openFile_eq_reading] at h
  obtain ⟨hrest, -⟩ := Nested.of_append h
  cases hrest with
  | close hrest => exact hrest.countP_isClose.trans (List.length_map _)

/-- **An unclosed comment is reported in the last line that starts outside of a comment.**
Every file `g` that is opened in a run that comes to its end comes to its end mark.  If its
text does not end inside of a comment, none is reported there.  If it does, one is reported,
with the line `m`; the comment opens in one line `n` of the file, and the two are the same if
and only if the line `n` starts outside of a comment. -/
theorem line_of_unclosed_comment {table : Table} {diagnostics : Diagnostics} {file : String}
    {source : Text} {r : Result} {t : State} {g : IncludedFile}
    (hrun : preprocess resolve table diagnostics file source = .ok r)
    (hopened : Reaches resolve (start table diagnostics file source) (t.openFile g.file g.text)) :
    let lines := PhysicalLine.split g.text
    ∃ f w ds, Reaches resolve (t.openFile g.file g.text)
        ⟨.close g.file :: t.queue, f :: t.files, w⟩ ∧
      step resolve ⟨.close g.file :: t.queue, f :: t.files, w⟩ =
        .ok ⟨t.queue, t.files, ds.foldl Work.push w⟩ ∧
      (lines.foldl Comment.leavesOpen false = false → Diagnostic.ofUnclosedComment ds = []) ∧
      (lines.foldl Comment.leavesOpen false = true → ∃ d m n,
        Diagnostic.ofUnclosedComment ds = [d] ∧ d.file = g.file ∧ d.line = some (Int.ofNat (m + 1)) ∧
        (∀ k, Comment.OpensIn lines k ↔ k = n) ∧
        Comment.IsLastOutside lines lines.length m ∧ m ≤ n ∧
        (m = n ↔ Comment.openBefore lines n = false)) := by
  intro lines
  have hnested := hopened.isNested (isNested_start table diagnostics file source)
  have hcount := countP_isClose_of_openFile hnested
  -- the run from where the file is opened gives a result, so the file is read to its end
  have hresult : (t.openFile g.file g.text).run resolve = .ok r := hopened.run_eq.symm.trans hrun
  rw [openFile_eq_reading, run_eq_readLines hcount] at hresult
  obtain ⟨w', hread⟩ : ∃ w', t.work.readLines resolve (t.files.map OpenFile.file)
      { file := g.file } (SourceLine.ofFile g.file g.text) = .ok w' := by
    cases hread : t.work.readLines resolve (t.files.map OpenFile.file) { file := g.file }
        (SourceLine.ofFile g.file g.text) with
    | error e => rw [hread] at hresult; cases hresult
    | ok w' => exact ⟨w', rfl⟩
  obtain ⟨f, w, hf, hreach, -⟩ := exists_reaches_close hread rfl hcount (.start g)
  have hopen : f.inComment = lines.foldl Comment.leavesOpen false :=
    hf.inComment.trans (Comment.openBefore_of_length_le (Nat.le_refl _))
  refine ⟨f, w, f.endReports g.file, ?_, ?_, fun hclosed => ?_, fun hunclosed => ?_⟩
  · rw [openFile_eq_reading]
    exact hreach
  · rw [← Work.reportEnd_eq]
    rfl
  · rw [f.ofUnclosedComment_endReports, hopen, hclosed]
    rfl
  · rw [hunclosed] at hopen
    obtain ⟨m, hm, hlast⟩ := hf.commentLine hopen
    obtain ⟨n, hn⟩ := Comment.exists_opensIn hunclosed
    rw [f.ofUnclosedComment_endReports, hopen]
    refine ⟨f.commentReport g.file, m, n, rfl, rfl, ?_, fun k => ⟨fun hk => hk.eq hn, ?_⟩, hlast, hlast.le hn,
      hlast.eq_iff hn⟩
    · rw [OpenFile.commentReport, hm]
      rfl
    · rintro rfl
      exact hn

/-- In a file that is included, a comment opens behind another one of the same line.  That
line starts outside of both, so it is reported. -/
theorem line_of_unclosed_comment_shared_line :
    let text := "/* */ /*\n*".toList
    let resolve := Resolver.ofList [("a.h", text)]
    ∃ (r : Result) (t : State) (f : OpenFile) (w : Work) (ds : List Diagnostic) (d : Diagnostic),
      preprocess resolve {} {} "m" "#include \"a.h\"".toList = .ok r ∧
      Reaches resolve (start {} {} "m" "#include \"a.h\"".toList) (t.openFile "a.h" text) ∧
      Reaches resolve (t.openFile "a.h" text) ⟨.close "a.h" :: t.queue, f :: t.files, w⟩ ∧
      step resolve ⟨.close "a.h" :: t.queue, f :: t.files, w⟩ =
        .ok ⟨t.queue, t.files, ds.foldl Work.push w⟩ ∧
      Comment.OpensIn (PhysicalLine.split text) 0 ∧ Diagnostic.ofUnclosedComment ds = [d] ∧
      d.line = some 1 := by
  intro text resolve
  let w : Work :=
    { table := {}, includes := ["a.h"], statements := [⟨"m", 1, 1, "a.h", "a.h"⟩] }
  let t : State := ⟨[.close "m"], [{ file := "m" }], w⟩
  let f : OpenFile := { file := "a.h", inComment := true, commentLine := some 1 }
  have hopened : Reaches resolve (start {} {} "m" "#include \"a.h\"".toList)
      (t.openFile "a.h" text) := .single rfl
  have hend : Reaches resolve (start {} {} "m" "#include \"a.h\"".toList)
      ⟨[], [], w.reportEnd "a.h" f⟩ :=
    hopened.trans <| .head (b := reading f [⟨['*'], "a.h", 2⟩] t.files t.queue w) rfl <|
      .head (b := reading f [] t.files t.queue w) rfl <|
      .head (b := { t with work := w.reportEnd "a.h" f }) rfl <| .single rfl
  have hrun : preprocess resolve {} {} "m" "#include \"a.h\"".toList =
      .ok (w.reportEnd "a.h" f).result :=
    hend.run_eq.trans (run_of_queue_eq_nil rfl)
  have hopens : Comment.OpensIn (PhysicalLine.split text) 0 :=
    ⟨⟨"/* */ /*".toList, "/* */ ".toList, [], rfl, by decide⟩, by decide⟩
  obtain ⟨f', w', ds, hreach, hstep, -, hunclosed⟩ :=
    line_of_unclosed_comment (g := ⟨"a.h", text⟩) hrun hopened
  obtain ⟨d, m, n, hd, -, hline, hn, -, -, heq⟩ := hunclosed rfl
  obtain rfl := (hn 0).1 hopens
  obtain rfl := heq.2 rfl
  exact ⟨_, t, f', w', ds, d, hrun, hopened, hreach, hstep, hopens, hd, hline⟩

/-- The second line closes the comment of the first one and opens another.  The first line is
reported. -/
theorem line_of_unclosed_comment_ne :
    ∃ r, preprocess (Resolver.ofList []) {} {} "main.dts" "/* a\n*/ /* b\n".toList = .ok r ∧
      r.diagnostics = .ofList [{
        stage := "lex", file := "main.dts", message := "Unterminated block comment"
        line := some 1, column := some 1, code := some "DTPP-LEX-0001" }] ∧
      Comment.OpensIn (PhysicalLine.split "/* a\n*/ /* b\n".toList) 1 := by
  let w : Work := { table := {} }
  let f : OpenFile := { file := "main.dts", inComment := true, commentLine := some 1 }
  have hend : Reaches (Resolver.ofList []) (start {} {} "main.dts" "/* a\n*/ /* b\n".toList)
      ⟨[], [], w.reportEnd "main.dts" f⟩ :=
    .head (b := reading f [⟨"*/ /* b".toList, "main.dts", 2⟩] [] [] w) rfl <|
      .head (b := reading f [] [] [] w) rfl <| .single rfl
  refine ⟨_, hend.run_eq.trans (run_of_queue_eq_nil rfl), rfl, ⟨"*/ /* b".toList, "*/ ".toList,
    " b".toList, rfl, by decide⟩, by decide⟩

end State
end DevicetreePrep
