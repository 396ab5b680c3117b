/-
# Where the lines of output come from

A run opens the file it starts with, and then the files that it includes, one
opening for each.  A line of output comes from one of these openings: from a
stretch of physical lines there, made one line at the backslashes that continue
them (`Line.ComesFrom`).  `exists_origins` says that every line of output has such
an origin, and that two lines from the same opening come from stretches that do not
meet, in the order of the output.

The proof reads the files one inside the other.  While a file is read, all lines
that came from this opening so far stand before the place where it goes on
(`readLines_traced`).  A file that is included is a new opening, so what it puts out
cannot get in the way of the file around it.
-/

import DevicetreePrep.Proofs.Run.LogicalLine
import DevicetreePrep.Proofs.Run.Output

namespace DevicetreePrep

/-- Where a line of output comes from: the number of an opening of a file, and a
stretch of its physical lines, counted from zero. -/
structure Origin where
  opening : Nat
  first : Nat
  /-- The number of lines that continue the first one. -/
  more : Nat
  deriving DecidableEq, Repr

/-- The last physical line of the stretch. -/
def Origin.last (o : Origin) : Nat :=
  o.first + o.more

/-- The physical lines of a file with their comments blanked out. -/
def IncludedFile.masks (g : IncludedFile) : List MaskedLine :=
  MaskedLine.ofLines false (PhysicalLine.split g.text)

/-- The stretch of physical lines of a file that an origin gives. -/
def IncludedFile.stretch (g : IncludedFile) (o : Origin) : List MaskedLine :=
  (g.masks.drop o.first).take (o.more + 1)

/-- The line comes from this stretch of this file.  Its raw text is the stretch, each
line but the last cut at the backslash that continues it, and its text is the raw
text with some characters blanked out, after substitution. -/
structure Line.ComesFrom (l : Line) (g : IncludedFile) (o : Origin) : Prop where
  file : l.file = g.file
  number : l.number = o.first + 1
  inside : o.last < (PhysicalLine.split g.text).length
  continued : ∀ p ∈ (g.stretch o).dropLast, PhysicalLine.isContinued p.masked = true
  raw : l.raw = PhysicalLine.splice ((g.stretch o).map fun p => (p.masked, p.raw))
  text : ∃ base, Blanked base l.raw ∧ l.text = Text.trimRight (Substitution.applyAll base l.subs)

/-- The file `f` goes on behind the first `n` lines of `g`, with the lines `ls`. -/
structure OpenFile.Stands (f : OpenFile) (g : IncludedFile) (n : Nat) (ls : List SourceLine) :
    Prop where
  lines : ls = (SourceLine.ofFile g.file g.text).drop n
  masks : f.masks ls = g.masks.drop n

namespace OpenFile.Stands

variable {f : OpenFile} {g : IncludedFile} {n : Nat} {l : SourceLine} {ls : List SourceLine}

/-- A file stands at its first line when it is opened. -/
theorem start (g : IncludedFile) :
    Stands { file := g.file } g 0 (SourceLine.ofFile g.file g.text) := by
  refine ⟨rfl, ?_⟩
  rw [OpenFile.masks, SourceLine.map_text_ofFile]
  rfl

/-- The line at which a file stands has the name of the file and its own number. -/
theorem place (h : f.Stands g n (l :: ls)) :
    n < (PhysicalLine.split g.text).length ∧ l.file = g.file ∧ l.number = n + 1 := by
  have hget : (SourceLine.ofFile g.file g.text)[n]? = some l := by
    rw [← List.head?_drop, ← h.lines, List.head?_cons]
  rw [SourceLine.ofFile, List.getElem?_mapIdx] at hget
  obtain ⟨text, htext, rfl⟩ := Option.map_eq_some_iff.1 hget
  exact ⟨(List.getElem?_eq_some_iff.1 htext).1, rfl, rfl⟩

/-- Behind a logical line the file stands behind its physical lines, whatever
conditionals are open there. -/
theorem next (h : f.Stands g n (l :: ls)) (branches : Branches) :
    Stands { (f.logicalLineOf l ls).2.1 with branches } g
      (n + ((f.logicalLineOf l ls).1.more.length + 1)) (f.logicalLineOf l ls).2.2 := by
  refine ⟨?_, ?_⟩
  · rw [f.rest_logicalLineOf, h.lines, List.drop_drop]
  · have hmasks := f.masks_logicalLineOf l ls
    rw [h.masks, List.drop_drop] at hmasks
    exact hmasks

/-- The logical line at which a file stands is the stretch that starts there. -/
theorem parts_eq (h : f.Stands g n (l :: ls)) (id : Nat) :
    (f.logicalLineOf l ls).1.parts =
      g.stretch ⟨id, n, (f.logicalLineOf l ls).1.more.length⟩ := by
  rw [f.parts_logicalLineOf, h.masks, IncludedFile.stretch]

/-- The stretch of a logical line lies inside of its file. -/
theorem last_lt (h : f.Stands g n (l :: ls)) :
    n + (f.logicalLineOf l ls).1.more.length < (PhysicalLine.split g.text).length := by
  have hlength := congrArg List.length (h.parts_eq 0)
  rw [LogicalLine.parts, List.length_cons, IncludedFile.stretch, List.length_take,
    List.length_drop, IncludedFile.masks, MaskedLine.length_ofLines] at hlength
  dsimp only at hlength
  omega

/-- **What a logical line puts out comes from its stretch.** -/
theorem comesFrom (h : f.Stands g n (l :: ls)) (id : Nat) (subs : List Substitution) :
    let line := (f.logicalLineOf l ls).1
    Line.ComesFrom (Line.build line.raw line.masked line.number line.file subs) g
      ⟨id, n, line.more.length⟩ := by
  have hparts := h.parts_eq id
  obtain ⟨-, hfile, hnumber⟩ := h.place
  refine ⟨hfile, ?_, h.last_lt, ?_, ?_, _, ?_, rfl⟩
  · have hline : (f.logicalLineOf l ls).1.number = n + 1 := hnumber
    dsimp only [Line.build]
    omega
  · rw [← hparts]
    exact f.isChained_logicalLineOf l ls
  · rw [← hparts]
    rfl
  · refine LogicalLine.blanked_masked fun p hp => ?_
    rw [f.parts_logicalLineOf] at hp
    exact MaskedLine.blanked_of_mem_ofLines (List.mem_of_mem_take hp)

end OpenFile.Stands

/-- The run has opened the files `os`, the one it started with first, and its lines
of output come from them as `origins` says. -/
structure Work.Traced (resolve : Resolver) (os : List IncludedFile) (origins : List Origin)
    (w : Work) : Prop where
  includes : os.tail.map IncludedFile.file = w.includes.reverse
  found : ∀ g ∈ os.tail, ∃ i, resolve i = .found g
  comes : List.Forall₂ (fun l o => ∃ g, os[o.opening]? = some g ∧ Line.ComesFrom l g o)
    w.output.reverse origins
  ordered : origins.Pairwise fun o o' => o.opening = o'.opening → o.last < o'.first

namespace Work.Traced

variable {resolve : Resolver} {os : List IncludedFile} {origins : List Origin} {w w' : Work}

/-- What puts out nothing and brings in nothing keeps all origins. -/
theorem keep (h : w.Traced resolve os origins) (hw : w.Keeps w') :
    w'.Traced resolve os origins where
  includes := by rw [h.includes, hw.includes]
  found := h.found
  comes := by rw [hw.output]; exact h.comes
  ordered := h.ordered

/-- The origins are openings that there are. -/
theorem opening_lt (h : w.Traced resolve os origins) {o : Origin} (ho : o ∈ origins) :
    o.opening < os.length := by
  obtain ⟨i, hi, rfl⟩ := List.mem_iff_getElem.1 ho
  have hlength := h.comes.length_eq
  obtain ⟨g, hg, -⟩ := (List.forall₂_iff_get.1 h.comes).2 i (by omega) hi
  exact (List.getElem?_eq_some_iff.1 hg).1

/-- One more line is put out, which comes from behind all lines of its opening. -/
theorem put (h : w.Traced resolve os origins) {l : Line} {g : IncludedFile} {o : Origin}
    (houtput : w'.output = l :: w.output) (hincludes : w'.includes = w.includes)
    (hg : os[o.opening]? = some g) (hl : l.ComesFrom g o)
    (hbehind : ∀ o' ∈ origins, o'.opening = o.opening → o'.last < o.first) :
    w'.Traced resolve os (origins ++ [o]) where
  includes := by rw [h.includes, hincludes]
  found := h.found
  comes := by
    rw [houtput, List.reverse_cons]
    exact List.rel_append h.comes (.cons ⟨g, hg, hl⟩ .nil)
  ordered := by
    refine List.pairwise_append.2 ⟨h.ordered, List.pairwise_singleton .., fun o' ho' o'' ho'' => ?_⟩
    rw [List.mem_singleton.1 ho'']
    exact hbehind o' ho'

/-- One more file is opened. -/
theorem enter (h : w.Traced resolve os origins) (hos : os ≠ []) {g : IncludedFile} {i : Inclusion}
    (houtput : w'.output = w.output) (hincludes : w'.includes = g.file :: w.includes)
    (hg : resolve i = .found g) : w'.Traced resolve (os ++ [g]) origins where
  includes := by
    rw [List.tail_append_of_ne_nil hos, List.map_append, h.includes, hincludes, List.reverse_cons]
    rfl
  found := by
    intro g' hg'
    rw [List.tail_append_of_ne_nil hos, List.mem_append, List.mem_singleton] at hg'
    rcases hg' with hg' | rfl
    · exact h.found g' hg'
    · exact ⟨i, hg⟩
  comes := by
    rw [houtput]
    refine h.comes.imp fun l o ho => ?_
    obtain ⟨g', hg', hl⟩ := ho
    exact ⟨g', (List.getElem?_append_left (List.getElem?_eq_some_iff.1 hg').1).trans hg', hl⟩
  ordered := h.ordered

end Work.Traced

namespace Work

variable {resolve : Resolver}

/-- What a logical line brings about keeps the origins, and adds the origin of the
line that it may put out. -/
theorem Traced.process {os : List IncludedFile} {origins : List Origin} {w w' : Work}
    {f : OpenFile} {g : IncludedFile} {id n : Nat} {l : SourceLine} {ls : List SourceLine}
    {bs bs' : Branches} {r : Option Request} (h : w.Traced resolve os origins)
    (hid : os[id]? = some g) (hf : f.Stands g n (l :: ls))
    (hbehind : ∀ o ∈ origins, o.opening = id → o.last < n)
    (hw : w.process bs (f.logicalLineOf l ls).1 = .ok (w', bs', r)) :
    ∃ new, w'.Traced resolve os (origins ++ new) ∧ (∀ o ∈ new, o.opening = id) ∧
      ∀ o ∈ origins ++ new, o.opening = id →
        o.last < n + ((f.logicalLineOf l ls).1.more.length + 1) := by
  obtain ⟨hincludes, houtput | ⟨subs, houtput⟩⟩ := output_of_process hw
  · refine ⟨[], ?_, fun o ho => absurd ho List.not_mem_nil, fun o ho ho' => ?_⟩
    · rw [List.append_nil]
      exact h.keep ⟨houtput, hincludes⟩
    · rw [List.append_nil] at ho
      have := hbehind o ho ho'
      omega
  · refine ⟨[⟨id, n, (f.logicalLineOf l ls).1.more.length⟩], ?_, ?_, fun o ho ho' => ?_⟩
    · exact h.put houtput hincludes hid (hf.comesFrom id subs) hbehind
    · intro o ho
      rw [List.mem_singleton.1 ho]
    · rcases List.mem_append.1 ho with ho | ho
      · have := hbehind o ho ho'
        omega
      · rw [List.mem_singleton.1 ho, Origin.last]
        dsimp only
        omega

/-- The origins `origins` of lines from the openings `os` have been kept, and those
added since come from the opening `id` or from openings made since. -/
def TracedSince (resolve : Resolver) (os : List IncludedFile) (origins : List Origin) (id : Nat)
    (w : Work) : Prop :=
  ∃ os' new, w.Traced resolve (os ++ os') (origins ++ new) ∧
    ∀ o ∈ new, o.opening = id ∨ os.length ≤ o.opening

/-- What is traced since a later moment is traced since an earlier one, if the lines between come
from the same opening or from later ones. -/
theorem TracedSince.of_append {os os₁ : List IncludedFile} {origins new₁ : List Origin} {id : Nat}
    {w : Work} (h : w.TracedSince resolve (os ++ os₁) (origins ++ new₁) id)
    (hnew₁ : ∀ o ∈ new₁, o.opening = id ∨ os.length ≤ o.opening) :
    w.TracedSince resolve os origins id := by
  obtain ⟨os₂, new₂, htraced, hnew₂⟩ := h
  rw [List.append_assoc, List.append_assoc] at htraced
  refine ⟨os₁ ++ os₂, new₁ ++ new₂, htraced, fun o ho => ?_⟩
  rcases List.mem_append.1 ho with ho | ho
  · exact hnew₁ o ho
  · rcases hnew₂ o ho with hopening | hopening
    · exact .inl hopening
    · rw [List.length_append] at hopening
      exact .inr (by omega)

/-- **To read a file to its end keeps the origins and adds those of the lines that
are put out.**  They come from this opening, behind the place `n` where it goes on,
or from files that are opened meanwhile. -/
theorem readLines_traced {outer : List String} {f : OpenFile} {w w' : Work}
    {lines : List SourceLine} (hread : w.readLines resolve outer f lines = .ok w')
    {os : List IncludedFile} {origins : List Origin} {g : IncludedFile} {id n : Nat}
    (h : w.Traced resolve os origins) (hid : os[id]? = some g) (hf : f.Stands g n lines)
    (hbehind : ∀ o ∈ origins, o.opening = id → o.last < n) :
    w'.TracedSince resolve os origins id := by
  fun_induction Work.readLines resolve outer f w lines generalizing w' os origins g id n with
  | case1 outer f w =>
    obtain rfl := Except.ok.inj hread
    refine ⟨[], [], ?_, fun o ho => absurd ho List.not_mem_nil⟩
    rw [List.append_nil, List.append_nil]
    exact h.keep (reports_reportEnd w f.file f).keeps
  | case2 => cases hread
  | case3 outer f w l ls line w₁ branches hw =>
    rename_i ih
    obtain ⟨new₁, h₁, hnew₁, hbehind₁⟩ := h.process hid hf hbehind hw
    have hsince := ih hread h₁ hid (hf.next branches) hbehind₁
    rw [← List.append_nil os] at hsince
    exact hsince.of_append fun o ho => .inl (hnew₁ o ho)
  | case4 => cases hread
  | case5 outer f w l ls line w₁ branches r hw w₂ ha =>
    rename_i ih
    obtain ⟨new₁, h₁, hnew₁, hbehind₁⟩ := h.process hid hf hbehind hw
    obtain ⟨houtput, hincludes, -⟩ := includes_of_accept ha
    have hkeeps : Keeps w₁ w₂ := ⟨houtput, hincludes⟩
    have h₂ := h₁.keep hkeeps
    have hsince := ih hread h₂ hid (hf.next branches) hbehind₁
    rw [← List.append_nil os] at hsince
    exact hsince.of_append fun o ho => .inl (hnew₁ o ho)
  | case6 => cases hread
  | case7 outer f w l ls line w₁ branches r hw w₂ g₂ ha w₃ hg ihg =>
    rename_i ih
    obtain ⟨new₁, h₁, hnew₁, hbehind₁⟩ := h.process hid hf hbehind hw
    obtain ⟨houtput, hincludes, hfound⟩ := includes_of_accept ha
    have hidlt : id < os.length := (List.getElem?_eq_some_iff.1 hid).1
    have h₂ : w₂.Traced resolve (os ++ [g₂]) (origins ++ new₁) :=
      h₁.enter (List.ne_nil_of_length_pos (by omega)) houtput hincludes (hfound g₂ rfl)
    -- the included file is a new opening, with no lines of output yet
    have hid₂ : (os ++ [g₂])[os.length]? = some g₂ := List.getElem?_concat_length
    have hbehind₂ : ∀ o ∈ origins ++ new₁, o.opening = os.length → o.last < 0 := by
      intro o ho hopening
      have := h₁.opening_lt ho
      omega
    obtain ⟨os₃, new₂, h₃, hnew₂⟩ := ihg hg h₂ hid₂ (.start g₂) hbehind₂
    have hfar : ∀ o ∈ new₂, os.length ≤ o.opening := by
      intro o ho
      have hlength : (os ++ [g₂]).length = os.length + 1 := List.length_append
      rcases hnew₂ o ho with hopening | hopening <;> omega
    -- so the file around it goes on behind all lines that came from it
    have hid₃ : ((os ++ [g₂]) ++ os₃)[id]? = some g := by
      rw [List.append_assoc, List.getElem?_append_left hidlt, hid]
    have hbehind₃ : ∀ o ∈ (origins ++ new₁) ++ new₂, o.opening = id →
        o.last < n + ((f.logicalLineOf l ls).1.more.length + 1) := by
      intro o ho hopening
      rcases List.mem_append.1 ho with ho | ho
      · exact hbehind₁ o ho hopening
      · have := hfar o ho
        omega
    have hsince := ih hread h₃ hid₃ (hf.next branches) hbehind₃
    rw [List.append_assoc, List.append_assoc origins] at hsince
    refine hsince.of_append fun o ho => ?_
    rcases List.mem_append.1 ho with ho | ho
    · exact .inl (hnew₁ o ho)
    · exact .inr (hfar o ho)

end Work

/-- With one file open, a run gives what reading this file to its end gives. -/
theorem State.run_reading_eq_map {resolve : Resolver} (f : OpenFile) (ls : List SourceLine)
    (w : Work) :
    (reading f ls [] [] w).run resolve = (w.readLines resolve [] f ls).map Work.result := by
  rw [run_eq_readLines rfl, List.map_nil]
  cases w.readLines resolve [] f ls with
  | error e => rfl
  | ok w => exact run_of_queue_eq_nil rfl

/-- A run gives what reading its file to the end gives. -/
theorem preprocess_eq_map_readLines (resolve : Resolver) (table : Table) (diagnostics : Diagnostics)
    (file : String) (source : Text) :
    preprocess resolve table diagnostics file source =
      (Work.readLines resolve [] { file } { table, diagnostics }
        (SourceLine.ofFile file source)).map Work.result := by
  rw [preprocess, State.start, State.openFile_eq_reading]
  exact State.run_reading_eq_map { file } _ _

/-- **Every line of output can be traced to its source.**  There is a list of
openings, the file of the run first and then one for each included file, and an
origin for each line of output, from which the line comes.  Two lines from the same
opening come from stretches of which the earlier one ends before the later one
starts; so their numbers rise, and no physical line is in two of them. -/
theorem exists_origins {resolve : Resolver} {table : Table} {diagnostics : Diagnostics}
    {file : String} {source : Text} {r : Result}
    (h : preprocess resolve table diagnostics file source = .ok r) :
    ∃ (included : List IncludedFile) (origins : List Origin),
      included.map IncludedFile.file = r.includes ∧
      (∀ g ∈ included, ∃ i, resolve i = .found g) ∧
      List.Forall₂
        (fun l o => ∃ g, (⟨file, source⟩ :: included)[o.opening]? = some g ∧ Line.ComesFrom l g o)
        r.lines origins ∧
      origins.Pairwise fun o o' => o.opening = o'.opening → o.last < o'.first := by
  rw [preprocess_eq_map_readLines] at h
  cases hread : Work.readLines resolve [] { file } { table, diagnostics }
      (SourceLine.ofFile file source) with
  | error e => rw [hread] at h; cases h
  | ok w =>
    rw [hread] at h
    obtain rfl := Except.ok.inj h
    have hstart : Work.Traced resolve [⟨file, source⟩] [] { table, diagnostics } :=
      ⟨rfl, fun g hg => absurd hg List.not_mem_nil, .nil, .nil⟩
    have hid : [(⟨file, source⟩ : IncludedFile)][0]? = some ⟨file, source⟩ := rfl
    obtain ⟨included, origins, htraced, -⟩ := Work.readLines_traced hread hstart hid
      (.start ⟨file, source⟩) fun o ho => absurd ho List.not_mem_nil
    exact ⟨included, origins, htraced.includes, htraced.found, htraced.comes, htraced.ordered⟩

/-- Two physical lines, the second with a comment, give one line of output, which has
its origin. -/
theorem exists_origins_continued_line :
    ∃ r, preprocess (Resolver.ofList []) {} {} "m" "a \\\n/* */b".toList = .ok r ∧
      r.lines.map Line.raw = ["a /* */b".toList] ∧
      ∃ (included : List IncludedFile) (origins : List Origin),
        included.map IncludedFile.file = r.includes ∧
        (∀ g ∈ included, ∃ i, Resolver.ofList [] i = .found g) ∧
        List.Forall₂
          (fun l o => ∃ g, (⟨"m", "a \\\n/* */b".toList⟩ :: included)[o.opening]? = some g ∧
            Line.ComesFrom l g o)
          r.lines origins ∧
        origins.Pairwise fun o o' => o.opening = o'.opening → o.last < o'.first := by
  let line : LogicalLine :=
    { file := "m", number := 1, first := ⟨"a \\".toList, "a \\".toList⟩
      more := [⟨"     b".toList, "/* */b".toList⟩] }
  let w : Work := Work.emit { table := {} } line
  have hline : (State.start {} {} "m" "a \\\n/* */b".toList).step (Resolver.ofList []) =
      .ok ⟨[.close "m"], [{ file := "m" }], w⟩ := rfl
  have hclose : State.step (Resolver.ofList []) ⟨[.close "m"], [{ file := "m" }], w⟩ =
      .ok ⟨[], [], w.reportEnd "m" { file := "m" }⟩ := rfl
  have hrun : preprocess (Resolver.ofList []) {} {} "m" "a \\\n/* */b".toList =
      .ok (w.reportEnd "m" { file := "m" }).result := by
    rw [preprocess, State.run_eq_bind_step (List.cons_ne_nil _ _), hline, Except.bind,
      State.run_eq_bind_step (List.cons_ne_nil _ _), hclose, Except.bind,
      State.run_of_queue_eq_nil rfl]
    rfl
  refine ⟨_, hrun, ?_, exists_origins hrun⟩
  obtain ⟨⟨subs, houtput⟩, -⟩ := Work.output_emit { table := {} } line
  have hlines : (w.reportEnd "m" { file := "m" }).result.lines =
      [Line.build line.raw line.masked line.number line.file subs] :=
    congrArg List.reverse houtput
  rw [hlines]
  rfl

end DevicetreePrep
