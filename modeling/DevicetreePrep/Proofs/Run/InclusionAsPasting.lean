/-
# Including a closed file is pasting its lines

`preprocess_paste` compares two runs.  One comes to a line that includes a closed
file; the other one has the lines of that file in its place.  If the line is reached
in an active place, and the file is included there, both runs put out the same texts,
end with tables that differ in places only, give the same numbers and report as many
problems; or both are stopped.

Up to the line the two runs are the same, for what waits behind it does not matter
(`State.Reaches.before`).  The line asks for the file and does nothing else
(`Work.readLines_spelled`), and from there on the runs are alike
(`Work.readLines_paste`).
-/

import DevicetreePrep.Proofs.Inclusion.Spelled
import DevicetreePrep.Proofs.Run.Endings
import DevicetreePrep.Proofs.Run.Pasting
import DevicetreePrep.Proofs.Run.Waiting

namespace DevicetreePrep

namespace SourceLine

/-- The first lines of a file are numbered whatever lines follow. -/
theorem take_ofFile {source : Text} {before behind : List Text}
    (h : PhysicalLine.split source = before ++ behind) (file : String) :
    (ofFile file source).take before.length = before.mapIdx fun n t => ⟨t, file, n + 1⟩ := by
  rw [ofFile, h, List.mapIdx_append, List.take_left' List.length_mapIdx]

end SourceLine

/-- What runs that end alike give; in particular, they report as many problems. -/
theorem EndsAlike.result {x y : Except Stopped Work} (h : EndsAlike Work.Alike x y) :
    ((∃ r, x.map Work.result = .ok r) ↔ ∃ r, y.map Work.result = .ok r) ∧
      ∀ r r', x.map Work.result = .ok r → y.map Work.result = .ok r' →
        r.lines.map Line.text = r'.lines.map Line.text ∧
        r.table.names = r'.table.names ∧
        List.Forall₂ (fun d e => d.sameAs e = true) r.table.entries r'.table.entries ∧
        r.counter = r'.counter ∧
        r.diagnostics.size = r'.diagnostics.size := by
  obtain ⟨hiff, hagree⟩ := h.agree
  refine ⟨hiff, fun r r' hr hr' => ?_⟩
  obtain ⟨hlines, hnames, hentries, hcounter, hcodes⟩ := hagree r r' hr hr'
  have hsize := hcodes.length_eq
  rw [Diagnostics.codes, Diagnostics.codes, List.length_map, List.length_map] at hsize
  exact ⟨hlines, hnames, hentries, hcounter, hsize⟩

namespace Work

variable {resolve : Resolver}

/-- **A line that spells its file brings it in and does nothing else.**  The file is
read, and then the lines behind. -/
theorem readLines_spelled {outer : List String} {f : OpenFile} {w w' : Work} {l : SourceLine}
    {g : IncludedFile} {name : String} (hw : w.Alike w')
    (hline : Inclusion.IsSpelled l.text name) (hcomment : f.inComment = false)
    (hactive : Branches.active f.branches = true)
    (hg : ∀ angled, resolve { target := name, angled, includer := l.file } = .found g)
    (honce : g.file ∉ w.once) (hopen : g.file ∉ f.file :: outer)
    (hlimit : (f.file :: outer).length < openLimit) (ls : List SourceLine) :
    ∃ v : Work, v.Alike w' ∧
      w.readLines resolve outer f (l :: ls) =
        (v.readLines resolve (f.file :: outer) { file := g.file }
          (SourceLine.ofFile g.file g.text)).bind fun v =>
            v.readLines resolve outer (f.after l) ls := by
  obtain ⟨operand, angled, hdirective, hspelled⟩ := hline.spells
  let line : LogicalLine :=
    { file := l.file, number := l.number, first := ⟨Comment.mask false l.text, l.text⟩ }
  have hmask : f.mask l = line.first := by rw [OpenFile.mask, hcomment]
  have hlogical : f.logicalLineOf l ls = (line, f.after l, ls) := by
    rw [f.logicalLineOf_of_not_isContinued l ls (by rw [hmask]; exact hline.ended), hmask]
  let request : Request :=
    { inclusion := { target := name, angled, includer := l.file }
      line := l.number, column := columnOf l.text }
  have hprocess : w.process f.branches line = .ok (w, f.branches, some request) := by
    have hmasked : line.masked = line.first.masked := rfl
    have hinclusion := w.inclusion_of_spelled? hspelled line
    rw [String.ofList_toList] at hinclusion
    rw [process, hmasked, hdirective]
    dsimp only
    rw [direct_of_not_isConditional rfl, if_pos hactive, perform, hinclusion]
  let v : Work := { w with
    includes := g.file :: w.includes
    statements := { file := l.file, line := l.number, column := columnOf l.text
                    target := name, resolved := g.file } :: w.statements }
  have haccept :
      w.accept (f.file :: outer) request (resolve request.inclusion) = .ok (v, some g) := by
    rw [hg angled, accept]
    dsimp only
    rw [if_neg honce, if_neg hopen, if_neg (Nat.not_le.2 hlimit)]
  refine ⟨v, ⟨hw.table, hw.hides, hw.counter, hw.output, hw.once, hw.codes⟩, ?_⟩
  rw [readLines_cons, hlogical, hprocess, Except.bind, follow, haccept]
  rfl

end Work

namespace State

variable {resolve : Resolver} {s t : State}

/-- The answer to a request leaves the table as it is. -/
theorem table_of_receive {r : Request} {a : Resolution} (h : s.receive r a = .ok t) :
    t.work.table = s.work.table := by
  unfold receive at h
  dsimp only at h
  repeat' split at h
  all_goals first | cases h; done | (obtain rfl := Except.ok.inj h; rfl)

/-- A step keeps the builtins for the current file and line out of the table. -/
theorem isPlaceFree_step (hs : s.work.table.IsPlaceFree) (h : s.step resolve = .ok t) :
    t.work.table.IsPlaceFree := by
  have hnext : ∀ p, s.next = .ok p → p.1.work.table.IsPlaceFree := by
    intro p hp
    rw [← Table.hides_places] at hs ⊢
    obtain ⟨queue, files, w⟩ := s
    match queue, files with
    | [], _ => obtain rfl := Except.ok.inj hp; exact hs
    | .line l :: q, [] => obtain rfl := Except.ok.inj hp; exact hs
    | .close file :: q, [] => obtain rfl := Except.ok.inj hp; exact hs
    | .close file :: q, f :: fs =>
      obtain rfl := Except.ok.inj hp
      exact ((Work.AlikeUpTo.refl hs).reportEnd file file rfl rfl).hides
    | .line l :: q, f :: fs =>
      rw [next_line] at hp
      have halike := Work.process_alike (Work.AlikeUpTo.refl hs)
        (.refl (f.logicalLine l q).2.1.branches) rfl
        (LogicalLine.readsAs_of_parts (Eq.refl (f.logicalLine l q).1.parts) fun _ => rfl)
        (fun _ _ _ => rfl) (fun _ _ _ => .inr rfl)
      cases hw : w.process (f.logicalLine l q).2.1.branches (f.logicalLine l q).1 with
      | error e => rw [hw] at hp; cases hp
      | ok r =>
        rw [hw] at hp halike
        obtain rfl := Except.ok.inj hp
        cases halike with
        | ok hr => exact hr.work.hides
  unfold step at h
  cases hp : s.next with
  | error e => rw [hp] at h; cases h
  | ok p =>
    rw [hp] at h
    obtain ⟨u, r⟩ := p
    cases r with
    | none =>
      obtain rfl := Except.ok.inj h
      exact hnext _ hp
    | some r =>
      rw [table_of_receive h]
      exact hnext _ hp

/-- If no builtin shows the place at the start, none does later. -/
theorem Reaches.isPlaceFree (h : Reaches resolve s t) (hs : s.work.table.IsPlaceFree) :
    t.work.table.IsPlaceFree := by
  induction h with
  | refl => exact hs
  | tail _ hstep ih => exact isPlaceFree_step ih hstep

/-- **Up to a line a run is the same whatever stands from there on.** -/
theorem reaches_of_take_eq {table : Table} {diagnostics : Diagnostics} {source source' : Text}
    {n : Nat} {f : OpenFile} {w : Work} {l : SourceLine} {ls : List SourceLine}
    (htake : (SourceLine.ofFile f.file source).take n = (SourceLine.ofFile f.file source').take n)
    (hdrop : (SourceLine.ofFile f.file source).drop n = l :: ls)
    (h : Reaches resolve (start table diagnostics f.file source) (reading f (l :: ls) [] [] w)) :
    Reaches resolve (start table diagnostics f.file source')
      (reading f ((SourceLine.ofFile f.file source').drop n) [] [] w) := by
  let first : State :=
    ⟨((SourceLine.ofFile f.file source).take n).map .line, [{ file := f.file }],
      { table, diagnostics }⟩
  have hstart {source'' : Text} (htake : (SourceLine.ofFile f.file source).take n =
      (SourceLine.ofFile f.file source'').take n) :
      start table diagnostics f.file source'' =
        first.before
          (((SourceLine.ofFile f.file source'').drop n).map .line ++ [.close f.file]) := by
    rw [start, openFile_eq_reading, reading, before]
    dsimp only [first]
    rw [htake, ← List.append_assoc, ← List.map_append, List.take_append_drop]
  rw [hstart rfl, hdrop, List.map_cons, List.cons_append] at h
  obtain ⟨u, hu, hreading, hall⟩ := h.before rfl
  obtain ⟨queue, files, work⟩ := u
  obtain rfl : queue = [] := hu
  obtain ⟨-, rfl, rfl⟩ := State.mk.inj hreading
  rw [hstart htake]
  refine hall _ ?_
  have hcount (ls : List SourceLine) :
      (ls.map Pending.line ++ [Pending.close f.file]).countP Pending.isClose = 1 :=
    depth_reading f ls [] [] w
  rw [hcount, hcount]

end State

/-- **Including a closed file is the same as pasting its lines.**  The text `source`
has a line that spells the closed file `name`, and `pasted` has the lines of that file
in its place.  The run on `source` comes to the line as the next one to be carried
out: in an active place, outside of comments, with a file that is not open and not
marked to be included once only.  Then both runs give a result or none does; and the
results have the same texts of output, tables with the same names in the same order
and definitions that may stand for each other, the same counter, and as many
diagnostics. -/
theorem preprocess_paste {files : List (String × Text)} {table : Table}
    {diagnostics : Diagnostics} {main name : String} {source pasted text line : Text}
    {before behind : List Text} {s : State} {f : OpenFile} (htable : table.IsPlaceFree)
    (hsource : PhysicalLine.split source = before ++ line :: behind)
    (hpasted : PhysicalLine.split pasted = before ++ PhysicalLine.split text ++ behind)
    (hline : Inclusion.IsSpelled line name) (hname : files.lookup name = some text)
    (hclosed : IncludedFile.IsClosed ⟨name, text⟩)
    (hs : State.Reaches (.ofList files) (State.start table diagnostics main source) s)
    (hqueue : s.queue =
      ((SourceLine.ofFile main source).drop before.length).map .line ++ [.close main])
    (hfiles : s.files = [f]) (hcomment : f.inComment = false)
    (hactive : Branches.active f.branches = true) (honce : name ∉ s.work.once)
    (hopen : name ∉ s.openNames) :
    ((∃ r, preprocess (.ofList files) table diagnostics main source = .ok r) ↔
        ∃ r, preprocess (.ofList files) table diagnostics main pasted = .ok r) ∧
      ∀ r r', preprocess (.ofList files) table diagnostics main source = .ok r →
        preprocess (.ofList files) table diagnostics main pasted = .ok r' →
          r.lines.map Line.text = r'.lines.map Line.text ∧
          r.table.names = r'.table.names ∧
          List.Forall₂ (fun d e => d.sameAs e = true) r.table.entries r'.table.entries ∧
          r.counter = r'.counter ∧
          r.diagnostics.size = r'.diagnostics.size := by
  have hnested := hs.isNested (State.isNested_start table diagnostics main source)
  have hplaceFree := hs.isPlaceFree htable
  obtain ⟨queue, openFiles, w⟩ := s
  obtain rfl : openFiles = [f] := hfiles
  obtain rfl : queue = _ := hqueue
  obtain rfl : f.file = main := by
    cases hnested.of_append.1
    rfl
  -- the lines from the inclusion on, and those in its place
  have hdrop : ((SourceLine.ofFile f.file source).drop before.length).map SourceLine.text =
      line :: behind := by
    rw [List.map_drop, SourceLine.map_text_ofFile, hsource, List.drop_left' rfl]
  have hdrop' : ((SourceLine.ofFile f.file pasted).drop before.length).map SourceLine.text =
      PhysicalLine.split text ++ behind := by
    rw [List.map_drop, SourceLine.map_text_ofFile, hpasted, List.append_assoc, List.drop_left' rfl]
  obtain ⟨l, ls, hlines, hl, hls⟩ := List.map_eq_cons_iff.1 hdrop
  obtain ⟨xs, ls', hlines', hxs, hls'⟩ := List.map_eq_append_iff.1 hdrop'
  have hlfile : ∀ m ∈ l :: ls, m.file = f.file := by
    intro m hm
    rw [← hlines] at hm
    exact SourceLine.file_of_mem_ofFile (List.mem_of_mem_drop hm)
  have hlfile' : ∀ m ∈ ls', m.file = f.file := by
    intro m hm
    have : m ∈ xs ++ ls' := List.mem_append_right _ hm
    rw [← hlines'] at this
    exact SourceLine.file_of_mem_ofFile (List.mem_of_mem_drop this)
  have hunnumbered : ls.map SourceLine.unnumbered = ls'.map SourceLine.unnumbered := by
    rw [SourceLine.map_unnumbered fun m hm => hlfile m (List.mem_cons_of_mem _ hm),
      SourceLine.map_unnumbered hlfile', hls, hls']
  -- both runs come to the same point
  rw [hlines] at hs
  have hs' : State.Reaches (.ofList files) (State.start table diagnostics f.file pasted)
      (State.reading f (xs ++ ls') [] [] w) := by
    rw [← hlines']
    refine State.reaches_of_take_eq ?_ hlines hs
    rw [List.append_assoc] at hpasted
    rw [SourceLine.take_ofFile hsource, SourceLine.take_ofFile hpasted]
  have hrun : preprocess (.ofList files) table diagnostics f.file source =
      (w.readLines (.ofList files) [] f (l :: ls)).map Work.result :=
    hs.run_eq.trans (State.run_reading_eq_map f (l :: ls) w)
  have hrun' : preprocess (.ofList files) table diagnostics f.file pasted =
      (w.readLines (.ofList files) [] f (xs ++ ls')).map Work.result :=
    hs'.run_eq.trans (State.run_reading_eq_map f (xs ++ ls') w)
  -- from there on they are alike
  have hg : ∀ angled, Resolver.ofList files { target := name, angled, includer := l.file } =
      .found ⟨name, text⟩ := by
    intro angled
    rw [Resolver.ofList, hname]
  have hopen' : name ∉ [f.file] := hopen
  have hlimit : [f.file].length < openLimit := by
    rw [List.length_singleton]
    decide
  obtain ⟨v, hv, hread⟩ := Work.readLines_spelled (Work.Alike.refl hplaceFree)
    (hl ▸ hline) hcomment hactive hg honce hopen' hlimit ls
  have hafter : (f.after l).inComment = false := by
    rw [OpenFile.after, hcomment, hl]
    exact hline.uncommented
  have htexts : (SourceLine.ofFile name text).map SourceLine.text = xs.map SourceLine.text := by
    rw [SourceLine.map_text_ofFile, hxs]
  have hends : EndsAlike Work.Alike (w.readLines (.ofList files) [] f (l :: ls))
      (w.readLines (.ofList files) [] f (xs ++ ls')) := by
    rw [hread]
    refine Work.readLines_paste hactive rfl hafter rfl hunnumbered ?_ hv hcomment.symm rfl htexts
    rw [SourceLine.map_text_ofFile]
    exact hclosed
  rw [hrun, hrun']
  exact hends.result

/-- A file with a conditional is included inside of a conditional: both runs come to
their end and give the same. -/
theorem preprocess_paste_inside_conditional :
    ∃ r r', preprocess (.ofList [("x", "#ifdef Q\n#else\nB\n#endif".toList)]) {} {} "m"
          "#ifndef Q\n#include \"x\"\n#endif".toList = .ok r ∧
        preprocess (.ofList [("x", "#ifdef Q\n#else\nB\n#endif".toList)]) {} {} "m"
          "#ifndef Q\n#ifdef Q\n#else\nB\n#endif\n#endif".toList = .ok r' ∧
        r.lines.map Line.text = r'.lines.map Line.text ∧
        r.table.names = r'.table.names ∧
        List.Forall₂ (fun d e => d.sameAs e = true) r.table.entries r'.table.entries ∧
        r.counter = r'.counter ∧
        r.diagnostics.size = r'.diagnostics.size := by
  let resolve : Resolver := .ofList [("x", "#ifdef Q\n#else\nB\n#endif".toList)]
  let source : Text := "#ifndef Q\n#include \"x\"\n#endif".toList
  let pasted : Text := "#ifndef Q\n#ifdef Q\n#else\nB\n#endif\n#endif".toList
  let b : Branch := ⟨.ifUndefined, true, true, true, false, some 1⟩
  let f : OpenFile := { file := "m", branches := [b] }
  let w : Work := { table := {} }
  have htable : Table.IsPlaceFree {} := fun d hd => absurd hd List.not_mem_nil
  have hsource : PhysicalLine.split source =
      ["#ifndef Q".toList] ++ Inclusion.line "x" :: ["#endif".toList] := rfl
  have hpasted : PhysicalLine.split pasted = ["#ifndef Q".toList] ++
      PhysicalLine.split "#ifdef Q\n#else\nB\n#endif".toList ++ ["#endif".toList] := rfl
  have hline : Inclusion.IsSpelled (Inclusion.line "x") "x" :=
    Inclusion.isSpelled_line (by decide) (by decide)
  have hclosed : IncludedFile.IsClosed ⟨"x", "#ifdef Q\n#else\nB\n#endif".toList⟩ :=
    ⟨by decide, rfl, rfl, by decide⟩
  have hs : State.Reaches resolve (.start {} {} "m" source) (.reading f
      [⟨Inclusion.line "x", "m", 2⟩, ⟨"#endif".toList, "m", 3⟩] [] [] w) := .single rfl
  obtain ⟨hiff, hsame⟩ := preprocess_paste htable hsource hpasted hline rfl hclosed hs rfl rfl rfl
    rfl (by decide) (by decide)
  -- the run on the pasted lines comes to its end
  let c (holds isLast : Bool) : Branch := ⟨.ifDefined, holds, holds, true, isLast, some 2⟩
  let on (n : Nat) (bs : Branches) (w : Work) : State :=
    .reading { file := "m", branches := bs } ((SourceLine.ofFile "m" pasted).drop n) [] [] w
  let text : Work := w.emit { file := "m", number := 4, first := ⟨['B'], ['B']⟩ }
  have hend : State.Reaches resolve (.start {} {} "m" pasted) ⟨[], [], text⟩ :=
    .head (b := on 1 [b] w) rfl <| .head (b := on 2 [c false false, b] w) rfl <|
      .head (b := on 3 [c true true, b] w) rfl <| .head (b := on 4 [c true true, b] text) rfl <|
      .head (b := on 5 [b] text) rfl <| .head (b := on 6 [] text) rfl <| .single rfl
  have hok : ∃ r', preprocess resolve {} {} "m" pasted = .ok r' :=
    ⟨_, hend.run_eq.trans (State.run_of_queue_eq_nil rfl)⟩
  obtain ⟨r, hr⟩ := hiff.2 hok
  obtain ⟨r', hr'⟩ := hok
  exact ⟨r, r', hr, hr', hsame r r' hr hr'⟩

end DevicetreePrep
