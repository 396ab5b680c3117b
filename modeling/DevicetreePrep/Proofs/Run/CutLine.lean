/-
# A line may be cut into continued lines

`preprocess_cut` compares two runs.  In the second one a line of the source is cut into
pieces, with a backslash behind each piece but the last.  Both runs put out the same
texts, end with tables that differ in places only, and report problems with the same
codes; or both are stopped.  The line has to be free of slashes, which might start or end
a comment, and of backslashes.

There is one condition on the cut.  Whether a logical line is a directive is decided by
its first physical line alone, so the first piece has to be a directive exactly if the
line is one.  Without it the two runs may differ (`preprocess_cut_ne`).

Inside of a comment the pieces are blank lines (`Work.readLines_inComment`).  Outside of
comments they make up one logical line, which reads as the line did
(`OpenFile.logicalLineOf_continued`).  What stands before the line is read alike, and so
is what stands behind it.
-/

import DevicetreePrep.Proofs.Comment.Splicing
import DevicetreePrep.Proofs.Run.Endings
import DevicetreePrep.Proofs.Run.Pasting

namespace DevicetreePrep

namespace Comment

/-- A text without a slash has no mark that starts a comment. -/
theorem hasMark_of_notMem {t : Text} (h : '/' ∉ t) : hasMark t = false := by
  fun_induction hasMark t with
  | case1 cs => exact absurd (List.mem_cons_self ..) h
  | case2 cs => exact absurd (List.mem_cons_self ..) h
  | case3 c cs _ _ ih => exact ih fun hmem => h (List.mem_cons_of_mem _ hmem)
  | case4 => rfl

/-- A text without a slash does not end a comment. -/
theorem maskIn_block_of_notMem {t : Text} (h : '/' ∉ t) :
    maskIn .block t = List.replicate t.length ' ' ∧ modeAfter .block t = .block := by
  induction t with
  | nil => exact ⟨rfl, rfl⟩
  | cons c t ih =>
    have hclose (cs : Text) : c = '*' → t = '/' :: cs → False := by
      rintro - rfl
      exact h (List.mem_cons_of_mem _ (List.mem_cons_self ..))
    obtain ⟨hmask, hmode⟩ := ih fun hmem => h (List.mem_cons_of_mem _ hmem)
    rw [maskIn.eq_8 _ _ hclose, modeAfter.eq_8 _ _ hclose, hmask]
    exact ⟨rfl, hmode⟩

end Comment

/-- Lines without a slash have no comments, if none is open before them. -/
theorem MaskedLine.ofLines_of_notMem {ts : List Text} (h : ∀ t ∈ ts, '/' ∉ t) :
    ofLines false ts = ts.map (fun t => ⟨t, t⟩) ∧ ts.foldl Comment.leavesOpen false = false := by
  induction ts with
  | nil => exact ⟨rfl, rfl⟩
  | cons t ts ih =>
    obtain ⟨hmask, hshows⟩ := Comment.maskIn_of_not_hasMark (m := .code) rfl
      (Comment.hasMark_of_notMem (h t (List.mem_cons_self ..)))
    have hmask : Comment.mask false t = t := hmask
    have hopen : Comment.leavesOpen false t = false := by
      rw [Comment.leavesOpen, decide_eq_false_iff_not]
      intro hblock
      rw [Comment.startMode, if_neg Bool.false_ne_true] at hblock
      rw [hblock] at hshows
      cases hshows
    obtain ⟨hlines, hrest⟩ := ih fun t ht => h t (List.mem_cons_of_mem _ ht)
    rw [ofLines, hmask, hopen, hlines, List.foldl_cons, hopen, hrest]
    exact ⟨rfl, rfl⟩

namespace PhysicalLine

/-- A line that may be cut: no slash and no backslash stands in it. -/
def IsPlain (line : Text) : Prop :=
  '/' ∉ line ∧ '\\' ∉ line

variable {pieces : List Text}

/-- The physical lines of a plain line have no slash, all but the last are continued, and
the last is not. -/
theorem IsPlain.continued (h : IsPlain pieces.flatten) :
    (∀ t ∈ continued pieces, '/' ∉ t) ∧
      (∀ t ∈ (continued pieces).dropLast, isContinued t = true) ∧
      ∀ t ∈ (continued pieces).getLast?, isContinued t = false := by
  rcases List.eq_nil_or_concat' pieces with rfl | ⟨front, last, rfl⟩
  · exact ⟨fun t ht => (nomatch ht), fun t ht => (nomatch ht), fun t ht => (nomatch ht)⟩
  · have hmem {c : Char} {piece : Text} (hpiece : piece ∈ front ++ [last]) (hc : c ∈ piece) :
        c ∈ (front ++ [last]).flatten := List.mem_flatten.2 ⟨piece, hpiece, hc⟩
    have hlast : last ∈ front ++ [last] := List.mem_append_right _ (List.mem_singleton.2 rfl)
    rw [continued_concat, List.dropLast_concat, List.getLast?_concat]
    refine ⟨fun t ht => ?_, fun t ht => ?_, fun t ht => ?_⟩
    · rcases List.mem_append.1 ht with ht | ht
      · obtain ⟨piece, hpiece, rfl⟩ := List.mem_map.1 ht
        rw [List.mem_append, not_or]
        exact ⟨fun hc => h.1 (hmem (List.mem_append_left _ hpiece) hc), by decide⟩
      · rw [List.mem_singleton.1 ht]
        exact fun hc => h.1 (hmem hlast hc)
    · obtain ⟨piece, -, rfl⟩ := List.mem_map.1 ht
      exact isContinued_append_backslash piece
    · obtain rfl := Option.some.inj ht
      exact isContinued_of_notMem fun hc => h.2 (hmem hlast hc)

end PhysicalLine

namespace OpenFile

/-- Lines that are continued to the last one are one logical line. -/
theorem logicalLineOf_of_chained {f : OpenFile} {l : SourceLine} {ls : List SourceLine}
    (h : ∀ p ∈ (f.masks (l :: ls)).dropLast, PhysicalLine.isContinued p.masked = true) :
    (f.logicalLineOf l ls).1.parts = f.masks (l :: ls) ∧ (f.logicalLineOf l ls).2.2 = [] := by
  have key (g : OpenFile) (last : MaskedLine) (ls : List SourceLine)
      (h : ∀ p ∈ (last :: g.masks ls).dropLast, PhysicalLine.isContinued p.masked = true) :
      (g.continuationOf last ls).1 = g.masks ls ∧ (g.continuationOf last ls).2.2 = [] := by
    fun_induction OpenFile.continuationOf g last ls with
    | case1 => exact ⟨rfl, rfl⟩
    | case2 g last l ls _ more g' rest hr ih =>
      rw [masks_cons, List.dropLast_cons_cons] at h
      have hrest := ih fun p hp => h p (List.mem_cons_of_mem _ hp)
      rw [hr] at hrest
      rw [masks_cons, ← hrest.1]
      exact ⟨rfl, hrest.2⟩
    | case3 g last l ls hc =>
      rw [masks_cons, List.dropLast_cons_cons] at h
      exact absurd (h last (List.mem_cons_self ..)) hc
  obtain ⟨hmore, hrest⟩ := key (f.after l) (f.mask l) ls h
  rw [masks_cons, ← hmore]
  exact ⟨rfl, hrest⟩

/-- **Pieces of a plain line are one logical line, which reads as the line**, outside of
comments. -/
theorem logicalLineOf_continued {f : OpenFile} (hcomment : f.inComment = false)
    {pieces : List Text} (hplain : PhysicalLine.IsPlain pieces.flatten) {c : SourceLine}
    {cs : List SourceLine} (htexts : (c :: cs).map SourceLine.text = PhysicalLine.continued pieces)
    (ls : List SourceLine) :
    let line := f.logicalLineOf c (cs ++ ls)
    line.1.masked = pieces.flatten ∧ line.1.raw = pieces.flatten ∧
      line.1.first.masked = c.text ∧ line.2.1.inComment = false ∧ line.2.2 = ls := by
  obtain ⟨hslash, hchained, hended⟩ := hplain.continued
  obtain ⟨hlines, hopen⟩ := MaskedLine.ofLines_of_notMem hslash
  have hmasks : f.masks (c :: cs) = (PhysicalLine.continued pieces).map fun t => ⟨t, t⟩ := by
    rw [masks, hcomment, htexts, hlines]
  have hchained : ∀ p ∈ (f.masks (c :: cs)).dropLast,
      PhysicalLine.isContinued p.masked = true := by
    rw [hmasks, ← List.map_dropLast]
    exact List.forall_mem_map.2 hchained
  have hended : ∀ p ∈ (f.masks (c :: cs)).getLast?,
      PhysicalLine.isContinued p.masked = false := by
    rw [hmasks, List.getLast?_map]
    intro p hp
    obtain ⟨t, ht, rfl⟩ := Option.map_eq_some_iff.1 hp
    exact hended t ht
  obtain ⟨hparts, hrest⟩ := logicalLineOf_of_chained hchained
  have hafter := f.foldl_leavesOpen_logicalLineOf c cs
  rw [hrest, hcomment, htexts, hopen] at hafter
  rw [logicalLineOf_append hended, hrest]
  rw [hmasks] at hparts
  refine ⟨?_, ?_, ?_, hafter, rfl⟩
  · rw [LogicalLine.masked, hparts, PhysicalLine.join, List.map_map, List.map_map]
    exact PhysicalLine.splice_continued pieces
  · rw [LogicalLine.raw, hparts, List.map_map]
    exact PhysicalLine.splice_continued pieces
  · have hfirst := (List.cons.inj (hparts.trans (by rw [← htexts, List.map_cons, List.map_cons]))).1
    rw [hfirst]

end OpenFile

namespace Work

variable {resolve : Resolver} {w w' : Work} {outer : List String} {f f' : OpenFile}

/-- A blank line does nothing. -/
theorem process_of_isAllBlank (w : Work) (bs : Branches) {l : LogicalLine} (hmore : l.more = [])
    (h : Text.isAllBlank l.first.masked = true) : w.process bs l = .ok (w, bs, none) := by
  have hmasked : l.masked = l.first.masked := by
    rw [LogicalLine.masked, LogicalLine.parts, hmore]
    rfl
  have htrim : Text.trimLeft l.first.masked = [] :=
    List.dropWhile_eq_nil_iff.2 (List.all_eq_true.1 h)
  rw [process, Directive.ofLine?, htrim, hmasked, h]
  cases Branches.active bs <;> rfl

/-- **Inside of a comment nothing is done**, as long as no slash may end it. -/
theorem readLines_inComment (resolve : Resolver) (outer : List String) (w : Work)
    (hcomment : f.inComment = true) {ls : List SourceLine} (hslash : ∀ l ∈ ls, '/' ∉ l.text)
    (ms : List SourceLine) :
    ∃ g : OpenFile, g.file = f.file ∧ g.branches = f.branches ∧ g.inComment = true ∧
      w.readLines resolve outer f (ls ++ ms) = w.readLines resolve outer g ms := by
  induction ls generalizing f with
  | nil => exact ⟨f, rfl, rfl, hcomment, rfl⟩
  | cons l ls ih =>
    obtain ⟨hmask, hmode⟩ := Comment.maskIn_block_of_notMem (hslash l (List.mem_cons_self ..))
    have hopen : (f.after l).inComment = true := by
      rw [OpenFile.after, hcomment, Comment.leavesOpen]
      exact decide_eq_true hmode
    obtain ⟨g, hfile, hbranches, hg, hread⟩ :=
      ih (f := f.after l) hopen fun m hm => hslash m (List.mem_cons_of_mem _ hm)
    refine ⟨g, hfile, hbranches, hg, ?_⟩
    rw [← hread]
    have hmasked : (f.mask l).masked = List.replicate l.text.length ' ' := by
      rw [OpenFile.mask, hcomment]
      exact hmask
    have hended : PhysicalLine.isContinued (f.mask l).masked = false := by
      refine PhysicalLine.isContinued_of_notMem fun hmem => ?_
      rw [hmasked] at hmem
      exact absurd (List.eq_of_mem_replicate hmem) (by decide)
    have hblank : Text.isAllBlank (f.mask l).masked = true := by
      rw [hmasked]
      refine List.all_eq_true.2 fun c hc => ?_
      rw [List.eq_of_mem_replicate hc]
      decide
    rw [List.cons_append, readLines_cons, f.logicalLineOf_of_not_isContinued l _ hended,
      process_of_isAllBlank w f.branches rfl hblank]
    rfl

variable {l c : SourceLine} {cs post post' : List SourceLine} {pieces : List Text}

/-- **A plain line may be cut where it stands.**  Its first physical line has to be a
directive exactly if the line is one, unless a comment is open. -/
theorem readLines_cons_cut (h : w.AlikeUpTo .numbers w') (hfile : f.file = f'.file)
    (hcomment : f.inComment = f'.inComment) (hbs : Branches.OnTop [] f.branches f'.branches)
    (hplain : PhysicalLine.IsPlain pieces.flatten) (hl : l.text = pieces.flatten)
    (hcut : (c :: cs).map SourceLine.text = PhysicalLine.continued pieces)
    (hplace : l.file = c.file)
    (hkind : f.inComment = false →
      (Directive.ofLine? c.text).isSome = (Directive.ofLine? l.text).isSome)
    (hpost : post.map SourceLine.unnumbered = post'.map SourceLine.unnumbered) :
    EndsAlike (AlikeUpTo .numbers) (w.readLines resolve outer f (l :: post))
      (w'.readLines resolve outer f' (c :: cs ++ post')) := by
  cases hopen : f.inComment with
  | true =>
    have hslash : ∀ m ∈ c :: cs, '/' ∉ m.text := by
      intro m hm
      refine hplain.continued.1 m.text ?_
      rw [← hcut]
      exact List.mem_map_of_mem hm
    have hslash' : ∀ m ∈ [l], '/' ∉ m.text := by
      intro m hm
      rw [List.mem_singleton.1 hm, hl]
      exact hplain.1
    obtain ⟨g, hg, hgbranches, hgopen, hread⟩ :=
      readLines_inComment resolve outer w hopen hslash' post
    obtain ⟨g', hg', hgbranches', hgopen', hread'⟩ :=
      readLines_inComment resolve outer w' (hcomment.symm.trans hopen) hslash post'
    rw [List.singleton_append] at hread
    rw [hread, hread']
    refine readLines_alike outer h (hg.trans (hfile.trans hg'.symm)) (hgopen.trans hgopen'.symm) ?_
      hpost
    rw [hgbranches, hgbranches']
    exact hbs
  | false =>
    -- the line is the case of one piece
    have hwhole : PhysicalLine.IsPlain [l.text].flatten := by
      rw [List.flatten_singleton, hl]
      exact hplain
    have htext : [l].map SourceLine.text = PhysicalLine.continued [l.text] := rfl
    obtain ⟨hmasked, hraw, hfirst, hafter, hrest⟩ :=
      f.logicalLineOf_continued hopen hwhole htext post
    obtain ⟨hmasked', hraw', hfirst', hafter', hrest'⟩ :=
      f'.logicalLineOf_continued (hcomment.symm.trans hopen) hplain hcut post'
    rw [List.flatten_singleton, hl] at hmasked hraw
    have hreads : (f.logicalLineOf l post).1.ReadsAs .numbers (f'.logicalLineOf c (cs ++ post')).1 :=
      { masked := hmasked.trans hmasked'.symm
        raw := hraw.trans hraw'.symm
        starts := by
          rw [hfirst']
          exact (congrArg (fun t => (Directive.ofLine? t).isSome) hfirst).trans (hkind hopen).symm
        file := fun _ => hplace }
    refine readLines_cons_alike outer h hfile hbs hreads hplace
      (fun g v v' _ hv => readLines_alike _ hv rfl rfl (.refl []) rfl) fun hv hbs => ?_
    refine readLines_alike outer hv ?_ (hafter.trans hafter'.symm) hbs ?_
    · dsimp only
      rw [f.file_logicalLineOf, f'.file_logicalLineOf, hfile]
    · exact (congrArg (List.map SourceLine.unnumbered) hrest).trans
        (hpost.trans (congrArg (List.map SourceLine.unnumbered) hrest').symm)

/-- **A plain line may be cut wherever it stands in its file**, if it starts a logical
line there.  What stands before it is read alike in both runs. -/
theorem readLines_cut {f f' : OpenFile} {w w' : Work} {pre pre' : List SourceLine}
    (h : w.AlikeUpTo .numbers w') (hfile : f.file = f'.file) (hcomment : f.inComment = f'.inComment)
    (hbs : Branches.OnTop [] f.branches f'.branches)
    (hpre : pre.map SourceLine.unnumbered = pre'.map SourceLine.unnumbered)
    (hended : ∀ p ∈ (f.masks pre).getLast?, PhysicalLine.isContinued p.masked = false)
    (hplain : PhysicalLine.IsPlain pieces.flatten) (hl : l.text = pieces.flatten)
    (hcut : (c :: cs).map SourceLine.text = PhysicalLine.continued pieces)
    (hplace : l.file = c.file)
    (hkind : (pre.map SourceLine.text).foldl Comment.leavesOpen f.inComment = false →
      (Directive.ofLine? c.text).isSome = (Directive.ofLine? l.text).isSome)
    (hpost : post.map SourceLine.unnumbered = post'.map SourceLine.unnumbered) :
    EndsAlike (AlikeUpTo .numbers) (w.readLines resolve outer f (pre ++ l :: post))
      (w'.readLines resolve outer f' (pre' ++ (c :: cs ++ post'))) := by
  match pre, pre', hpre with
  | [], [], _ => exact readLines_cons_cut h hfile hcomment hbs hplain hl hcut hplace hkind hpost
  | x :: pre, x' :: pre', hpre =>
    have htexts := congrArg (List.map SourceLine.text) hpre
    rw [SourceLine.map_text_unnumbered, SourceLine.map_text_unnumbered] at htexts
    have hxfile : x.unnumbered.file = x'.unnumbered.file := by rw [(List.cons.inj hpre).1]
    obtain ⟨hparts, hopen⟩ := OpenFile.logicalLineOf_alike hcomment htexts
    have hended' : ∀ p ∈ (f'.masks (x' :: pre')).getLast?,
        PhysicalLine.isContinued p.masked = false := by
      rw [OpenFile.masks, ← hcomment, ← htexts]
      exact hended
    have hkind' : ((f.logicalLineOf x pre).2.2.map SourceLine.text).foldl Comment.leavesOpen
        (f.logicalLineOf x pre).2.1.inComment = false →
        (Directive.ofLine? c.text).isSome = (Directive.ofLine? l.text).isSome := by
      rw [f.foldl_leavesOpen_logicalLineOf]
      exact hkind
    rw [List.cons_append, List.cons_append]
    refine readLines_cons_alike outer h hfile hbs ?_ hxfile
      (fun g v v' _ hv => readLines_alike _ hv rfl rfl (.refl []) rfl) fun hv hbs => ?_
    · rw [OpenFile.logicalLineOf_append hended, OpenFile.logicalLineOf_append hended']
      exact LogicalLine.readsAs_of_parts hparts fun _ => hxfile
    · rw [OpenFile.logicalLineOf_append hended, OpenFile.logicalLineOf_append hended']
      refine readLines_cut hv ?_ hopen hbs (OpenFile.map_rest_logicalLineOf hparts hpre)
        (OpenFile.ended_logicalLineOf hended) hplain hl hcut hplace hkind' hpost
      dsimp only
      rw [f.file_logicalLineOf, f'.file_logicalLineOf, hfile]
termination_by pre.length
decreasing_by exact Nat.lt_succ_of_le (OpenFile.length_continuationOf_le ..)

end Work

/-- **A plain line may be cut into continued lines.**  The text `source` has a line that
starts a logical line and is free of slashes and backslashes; in `cut` the pieces of that
line stand in its place, each but the last with a backslash behind it.  The table must not
define the builtin for the current line.  Outside of comments, the first piece has to be a
directive exactly if the line is one.  Then both runs give a result or none does; and the
results have the same texts of output, tables with the same names in the same order and
definitions that may stand for each other, the same counter, and diagnostics with the same
codes. -/
theorem preprocess_cut {resolve : Resolver} {table : Table} {diagnostics : Diagnostics}
    {file : String} {source cut line first : Text} {before behind more : List Text}
    (htable : table.Hides .numbers)
    (hsource : PhysicalLine.split source = before ++ line :: behind)
    (hcut : PhysicalLine.split cut = before ++ PhysicalLine.continued (first :: more) ++ behind)
    (hmore : more ≠ []) (hline : line = (first :: more).flatten)
    (hplain : PhysicalLine.IsPlain line)
    (hended : ∀ p ∈ (MaskedLine.ofLines false before).getLast?,
      PhysicalLine.isContinued p.masked = false)
    (hkind : before.foldl Comment.leavesOpen false = false →
      (Directive.ofLine? (first ++ ['\\'])).isSome = (Directive.ofLine? line).isSome) :
    ((∃ r, preprocess resolve table diagnostics file source = .ok r) ↔
        ∃ r, preprocess resolve table diagnostics file cut = .ok r) ∧
      ∀ r r', preprocess resolve table diagnostics file source = .ok r →
        preprocess resolve table diagnostics file cut = .ok r' →
          r.lines.map Line.text = r'.lines.map Line.text ∧
          r.table.names = r'.table.names ∧
          List.Forall₂ (fun d e => d.sameAs e = true) r.table.entries r'.table.entries ∧
          r.counter = r'.counter ∧
          r.diagnostics.codes.Perm r'.diagnostics.codes := by
  have hcontinued : PhysicalLine.continued (first :: more) =
      (first ++ ['\\']) :: PhysicalLine.continued more := by
    obtain ⟨piece, pieces, rfl⟩ := List.exists_cons_of_ne_nil hmore
    rfl
  -- the lines of both texts
  have hlines := SourceLine.map_text_ofFile file source
  have hlines' := SourceLine.map_text_ofFile file cut
  rw [hsource] at hlines
  rw [hcut, List.append_assoc] at hlines'
  obtain ⟨pre, rest, hfile, hpre, hrest⟩ := List.map_eq_append_iff.1 hlines
  obtain ⟨l, post, rfl, hl, hpost⟩ := List.map_eq_cons_iff.1 hrest
  obtain ⟨pre', rest', hfile', hpre', hrest'⟩ := List.map_eq_append_iff.1 hlines'
  obtain ⟨pieces, post', rfl, hpieces, hpost'⟩ := List.map_eq_append_iff.1 hrest'
  rw [hcontinued] at hpieces
  obtain ⟨c, cs, rfl, hc, hcs⟩ := List.map_eq_cons_iff.1 hpieces
  -- all of them are lines of the same file
  have hmem : ∀ m ∈ pre ++ l :: post, m.file = file := by
    intro m hm
    rw [← hfile] at hm
    exact SourceLine.file_of_mem_ofFile hm
  have hmem' : ∀ m ∈ pre' ++ (c :: cs ++ post'), m.file = file := by
    intro m hm
    rw [← hfile'] at hm
    exact SourceLine.file_of_mem_ofFile hm
  have hsame {ms ms' : List SourceLine} {ts : List Text} (hms : ∀ m ∈ ms, m.file = file)
      (hms' : ∀ m ∈ ms', m.file = file) (h : ms.map SourceLine.text = ts)
      (h' : ms'.map SourceLine.text = ts) :
      ms.map SourceLine.unnumbered = ms'.map SourceLine.unnumbered := by
    rw [SourceLine.map_unnumbered hms, SourceLine.map_unnumbered hms', h, h']
  rw [preprocess_eq_map_readLines, preprocess_eq_map_readLines, hfile, hfile']
  refine (Work.readLines_cut (Work.AlikeUpTo.refl htable) rfl rfl (.refl []) ?_ ?_ (hline ▸ hplain)
    (hl.trans hline) (hpieces.trans hcontinued.symm) ?_ ?_ ?_).agree
  · exact hsame (fun m hm => hmem m (List.mem_append_left _ hm))
      (fun m hm => hmem' m (List.mem_append_left _ hm)) hpre hpre'
  · rw [OpenFile.masks, hpre]
    exact hended
  · rw [hmem l (by simp), hmem' c (by simp)]
  · rw [hpre, hc, hl]
    exact hkind
  · exact hsame (fun m hm => hmem m (by simp [hm])) (fun m hm => hmem' m (by simp [hm])) hpost hpost'

/-- A definition is cut into three pieces, the first of which ends inside of the name of
the directive: both runs come to their end and give the same. -/
theorem preprocess_cut_definition :
    ∃ r r', preprocess (.ofList []) {} {} "m" "#undef Q\n#define A 1\nA".toList = .ok r ∧
        preprocess (.ofList []) {} {} "m" "#undef Q\n#def\\\nine A\\\n 1\nA".toList = .ok r' ∧
        r.lines.map Line.text = r'.lines.map Line.text ∧
        r.table.names = r'.table.names ∧
        List.Forall₂ (fun d e => d.sameAs e = true) r.table.entries r'.table.entries ∧
        r.counter = r'.counter ∧
        r.diagnostics.codes.Perm r'.diagnostics.codes := by
  let resolve : Resolver := .ofList []
  let source : Text := "#undef Q\n#define A 1\nA".toList
  let cut : Text := "#undef Q\n#def\\\nine A\\\n 1\nA".toList
  have htable : Table.Hides .numbers {} := fun d hd => absurd hd List.not_mem_nil
  have hsource : PhysicalLine.split source =
      ["#undef Q".toList] ++ "#define A 1".toList :: ["A".toList] := rfl
  have hcut : PhysicalLine.split cut = ["#undef Q".toList] ++
      PhysicalLine.continued ["#def".toList, "ine A".toList, " 1".toList] ++ ["A".toList] := rfl
  have hplain : PhysicalLine.IsPlain "#define A 1".toList := ⟨by decide, by decide⟩
  obtain ⟨hiff, hsame⟩ := @preprocess_cut resolve {} {} "m" source cut _ _ _ _ _ htable hsource
    hcut (List.cons_ne_nil _ _) rfl hplain (by decide) (fun _ => by decide)
  -- the run on the whole line comes to its end
  let on (n : Nat) (w : Work) : State :=
    .reading { file := "m" } ((SourceLine.ofFile "m" source).drop n) [] [] w
  let line (n : Nat) (t : Text) : LogicalLine := { file := "m", number := n, first := ⟨t, t⟩ }
  let defined : Work := Work.define { table := {} } (line 2 "#define A 1".toList) " A 1".toList
  let text : Work := defined.emit (line 3 "A".toList)
  have hend : State.Reaches resolve (.start {} {} "m" source) ⟨[], [], text⟩ :=
    .head (b := on 1 { table := {} }) rfl <| .head (b := on 2 defined) rfl <|
      .head (b := on 3 text) rfl <| .single rfl
  have hok : ∃ r, preprocess resolve {} {} "m" source = .ok r :=
    ⟨_, hend.run_eq.trans (State.run_of_queue_eq_nil rfl)⟩
  obtain ⟨r', hr'⟩ := hiff.1 hok
  obtain ⟨r, hr⟩ := hok
  exact ⟨r, r', hr, hr', hsame r r' hr hr'⟩

/-- **The first piece has to be of the kind of the line.**  A property whose name is cut
stops the run, because its first piece reads as a directive; and a definition that is cut
before its hash sign defines nothing, because its first piece does not. -/
theorem preprocess_cut_ne :
    (PhysicalLine.IsPlain "#size-cells = <1>;".toList ∧
        PhysicalLine.split "#size\\\n-cells = <1>;".toList =
          PhysicalLine.continued ["#size".toList, "-cells = <1>;".toList] ∧
        (∃ r, preprocess (.ofList []) {} {} "m" "#size-cells = <1>;".toList = .ok r) ∧
        preprocess (.ofList []) {} {} "m" "#size\\\n-cells = <1>;".toList =
          .error ⟨.notDirective, {}⟩) ∧
      ∃ r r', preprocess (.ofList []) {} {} "m" "#define A 1".toList = .ok r ∧
        preprocess (.ofList []) {} {} "m" "\\\n#define A 1".toList = .ok r' ∧
        r.table.names = ["A".toList] ∧ r'.table.names = [] := by
  let resolve : Resolver := .ofList []
  let w : Work := { table := {} }
  let line (t : Text) : LogicalLine := { file := "m", number := 1, first := ⟨t, t⟩ }
  have hok {source : Text} {v : Work} (h : State.Reaches resolve (.start {} {} "m" source)
      ⟨[], [], v⟩) : preprocess resolve {} {} "m" source = .ok v.result :=
    h.run_eq.trans (State.run_of_queue_eq_nil rfl)
  have hread {source : Text} {v : Work} (h : (State.start {} {} "m" source).step resolve =
      .ok (.reading { file := "m" } [] [] [] v)) :
      State.Reaches resolve (.start {} {} "m" source) ⟨[], [], v⟩ := .head h (.single rfl)
  refine ⟨⟨⟨by decide, by decide⟩, rfl,
    ⟨_, hok (v := w.emit (line "#size-cells = <1>;".toList)) (hread rfl)⟩, ?_⟩, ?_⟩
  · rw [preprocess, State.run_eq_bind_step (List.cons_ne_nil _ _)]
    rfl
  · let text : Work := w.emit
      { line ['\\'] with more := [⟨"#define A 1".toList, "#define A 1".toList⟩] }
    refine ⟨_, _, hok (v := w.define (line "#define A 1".toList) " A 1".toList) (hread rfl),
      hok (v := text) (hread rfl), rfl, ?_⟩
    obtain ⟨subs, v, ⟨n, ds, rfl⟩, hemit⟩ := w.exists_emit_eq
      { line ['\\'] with more := [⟨"#define A 1".toList, "#define A 1".toList⟩] }
    exact congrArg (fun v : Work => v.table.names) hemit

end DevicetreePrep
