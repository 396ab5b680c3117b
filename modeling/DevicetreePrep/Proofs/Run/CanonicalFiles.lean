/-
# Which file stands behind a name

The rules of inclusion compare names: no name is open twice, and a file that is marked is not
opened again under the name that it was marked by.  What is meant are files.  Every name
that a run opens, but the first, was given by the resolver (`State.exists_found_of_step`), and
the resolver of a file system gives canonical names.  Two canonical names of one file are the
same, so for included files the rules for names are rules for files.

The file that the run starts with goes by the path as it was given.  If this is not its
canonical name, the file may be included by itself, and a mark in it does not count
(`reaches_twice_open`).  `files_open_once` says that there is no other exception.
-/

import DevicetreePrep.Options
import DevicetreePrep.Proofs.FileSystem.Canonical
import DevicetreePrep.Proofs.Run.IncludeDiscipline

namespace DevicetreePrep

namespace State

variable {resolve : Resolver} {s t : State}

/-- **A step opens only what the resolver found.** -/
theorem exists_found_of_step (hs : s.IsNested) (h : s.step resolve = .ok t) {name : String}
    (hname : name ∈ t.openNames) :
    name ∈ s.openNames ∨ ∃ i g, resolve i = .found g ∧ g.file = name := by
  cases hnext : s.next with
  | error e => rw [step, hnext] at h; cases h
  | ok p =>
    obtain ⟨u, r | r⟩ := p
    · rw [step, hnext] at h
      obtain rfl := Except.ok.inj h
      rcases (stays_of_next hnext).1 with names | names
      · exact .inl (names ▸ hname)
      · exact .inl (List.mem_of_mem_tail (names ▸ hname))
    · rw [step_eq_accept hs hnext] at h
      cases haccept : u.work.accept u.openNames r (resolve r.inclusion) with
      | error e => rw [haccept] at h; cases h
      | ok b =>
        rw [haccept] at h
        obtain rfl := Except.ok.inj h
        obtain ⟨w, g⟩ := b
        obtain ⟨-, -, hfound⟩ := Work.includes_of_accept haccept
        rw [← openNames_of_next hnext]
        cases g with
        | none => exact .inl hname
        | some g =>
          rcases List.mem_cons.1 hname with rfl | hname
          · exact .inr ⟨r.inclusion, g, hfound g rfl, rfl⟩
          · exact .inl hname

/-- What holds of all names that the resolver gives, and of the names that are open at the
start, holds of all names that are open. -/
theorem Reaches.forall_openNames {P : String → Prop}
    (hfound : ∀ i g, resolve i = .found g → P g.file) (h : Reaches resolve s t) (hs : s.IsNested)
    (hstart : ∀ name ∈ s.openNames, P name) : ∀ name ∈ t.openNames, P name := by
  induction h with
  | refl => exact hstart
  | tail hreach hstep ih =>
    intro name hname
    have hfrom := exists_found_of_step (Reaches.isNested hs hreach) hstep hname
    rcases hfrom with hname | ⟨i, g, hg, rfl⟩
    · exact ih name hname
    · exact hfound i g hg

/-- A file that a step opens is one that the resolver found. -/
theorem exists_found_of_opened? (hs : s.IsNested) (h : s.step resolve = .ok t) {file : String}
    (hfile : opened? s t = some file) : ∃ i g, resolve i = .found g ∧ g.file = file := by
  cases (moves_of_step hs h).1 with
  | stays names => rw [opened?_eq_none names] at hfile; cases hfile
  | enters i names closed =>
    rw [opened?_eq_some names] at hfile
    obtain rfl := Option.some.inj hfile
    have hmem : i.resolved ∈ t.openNames := by
      rw [names]
      exact List.mem_cons_self ..
    exact (exists_found_of_step hs h hmem).resolve_left closed

/-- The file that is marked is open. -/
theorem MarksOnce.mem_openNames {file : String} (h : s.MarksOnce file) : file ∈ s.openNames := by
  obtain ⟨l, q, f, fs, operand, -, hfiles, rfl, -⟩ := h
  rw [openNames, hfiles]
  exact List.mem_cons_self ..

end State

/-- **No file is open twice, and none that is marked is opened again, whatever names it has;
but for the first file.**  The run may be over any file system whose working directory is
well-formed, with any options, from any path to a file that can be read.  The name of the
first file denotes the place that the file was read from.  In every state of the run, two
open files stand at different places; the only exception is the first file, under a name
that is not canonical.  And when a file has been marked, no file at its place is opened from
then on, with the same exception. -/
theorem files_open_once {fs : FileSystem} (hhome : FileSystem.IsPlace fs.home) (o : Options)
    (diagnostics : Diagnostics) {stdin : Text} {path : String} {source : Source}
    (hpath : path ≠ "-") (hread : Source.read fs stdin path = .ok source) :
    (fs.denoted source.file = fs.denoted path ∧
        fs.Holds (fs.denoted source.file) source.text) ∧
      (∀ s, State.Reaches (fs.resolver o.includeDirs)
          (State.start o.table diagnostics source.file source.text) s →
        s.openNames.Pairwise fun inner outer => fs.denoted inner = fs.denoted outer →
          ¬fs.IsCanonical source.file ∧ (inner = source.file ∨ outer = source.file)) ∧
      ∀ s t u v marked file, State.Reaches (fs.resolver o.includeDirs)
          (State.start o.table diagnostics source.file source.text) s →
        s.MarksOnce marked → s.step (fs.resolver o.includeDirs) = .ok t →
        State.Reaches (fs.resolver o.includeDirs) t u →
        u.step (fs.resolver o.includeDirs) = .ok v → State.opened? u v = some file →
        fs.denoted file = fs.denoted marked →
          ¬fs.IsCanonical source.file ∧ marked = source.file := by
  have hstart := State.isOrderly_start o.table diagnostics source.file source.text
  have hnames : ∀ s, State.Reaches (fs.resolver o.includeDirs)
      (State.start o.table diagnostics source.file source.text) s →
      ∀ name ∈ s.openNames, name = source.file ∨ fs.IsCanonical name := by
    intro s hs
    refine hs.forall_openNames (fun i g hg => ?_) hstart.nested fun name hname => ?_
    · exact .inr (FileSystem.isCanonical_of_found hhome hg).1
    · exact .inl (List.mem_singleton.1 hname)
  refine ⟨FileSystem.holds_of_read hpath hread, fun s hs => ?_, ?_⟩
  · refine List.Pairwise.imp_of_mem ?_ (hs.isOrderly hstart).nodup
    intro inner outer hinner houter hne hdenoted
    have hother : ¬(fs.IsCanonical inner ∧ fs.IsCanonical outer) := fun h =>
      hne (h.1.eq h.2 hdenoted)
    rcases hnames s hs inner hinner with rfl | hinner
    · rcases hnames s hs outer houter with houter | houter
      · exact absurd houter.symm hne
      · exact ⟨fun h => hother ⟨h, houter⟩, .inl rfl⟩
    · rcases hnames s hs outer houter with rfl | houter
      · exact ⟨fun h => hother ⟨hinner, h⟩, .inr rfl⟩
      · exact absurd ⟨hinner, houter⟩ hother
  · intro s t u v marked file hs hmarks hst htu huv hopened hdenoted
    have hnested := hs.isNested hstart.nested
    have hmem := htu.once_subset (hnested.step hst) (hmarks.mem_once hnested hst)
    have hu := htu.isNested (hnested.step hst)
    have hfresh := State.notMem_once_of_opened? hu huv hopened
    obtain ⟨i, g, hg, rfl⟩ := State.exists_found_of_opened? hu huv hopened
    have hcanonical := (FileSystem.isCanonical_of_found hhome hg).1
    have hother : ¬fs.IsCanonical marked := fun h => hfresh (hcanonical.eq h hdenoted ▸ hmem)
    rcases hnames s hs marked hmarks.mem_openNames with rfl | hmarked
    · exact ⟨hother, rfl⟩
    · exact absurd hmarked hother

/-- The text of a file that marks itself and includes itself. -/
def selfIncludingText : Text :=
  "#pragma once\n#include \"a.dts\"".toList

/-- A working directory with this file. -/
def selfIncluding : FileSystem where
  home := [['w']]
  entries := [(["a.dts".toList], .file "#pragma once\n#include \"a.dts\"".toUTF8.toList)]

/-- The working directory of the example is a place. -/
theorem isPlace_home_selfIncluding : FileSystem.IsPlace selfIncluding.home := by
  intro n hn
  obtain rfl := List.mem_singleton.1 hn
  exact ⟨⟨by decide, by decide, by decide⟩, by decide⟩

/-- From its canonical path, the file is never open twice. -/
theorem files_open_once_canonical_path :
    Source.read selfIncluding [] "/w/a.dts" = .ok ⟨"/w/a.dts", selfIncludingText⟩ ∧
      ∀ s, State.Reaches (selfIncluding.resolver [])
          (State.start (Options.table {}) {} "/w/a.dts" selfIncludingText) s →
        s.openNames.Pairwise fun inner outer =>
          selfIncluding.denoted inner ≠ selfIncluding.denoted outer := by
  have hread : Source.read selfIncluding [] "/w/a.dts" = .ok ⟨"/w/a.dts", selfIncludingText⟩ := by
    cbv
  have hcanonical : selfIncluding.IsCanonical "/w/a.dts" := by
    unfold FileSystem.IsCanonical
    cbv
  refine ⟨hread, fun s hs => ?_⟩
  obtain ⟨-, hopen, -⟩ := files_open_once isPlace_home_selfIncluding {} {} (by decide) hread
  exact (hopen s hs).imp fun hexcept heq => (hexcept heq).1 hcanonical

/-- From the path as it is typed in the working directory, the file goes by another name than
when it is included.  So its mark does not count, and it is open twice. -/
theorem reaches_twice_open :
    ∃ s t u : State,
      Source.read selfIncluding [] "a.dts" = .ok ⟨"a.dts", selfIncludingText⟩ ∧
      s = State.start (Options.table {}) {} "a.dts" selfIncludingText ∧ s.MarksOnce "a.dts" ∧
      s.step (selfIncluding.resolver []) = .ok t ∧ t.step (selfIncluding.resolver []) = .ok u ∧
      State.opened? t u = some "/w/a.dts" ∧ u.openNames = ["/w/a.dts", "a.dts"] ∧
      selfIncluding.denoted "/w/a.dts" = selfIncluding.denoted "a.dts" := by
  let s : State := .start (Options.table {}) {} "a.dts" selfIncludingText
  let w : Work := { table := Options.table {}, once := ["a.dts"] }
  let t : State :=
    ⟨[.line ⟨"#include \"a.dts\"".toList, "a.dts", 2⟩, .close "a.dts"], [{ file := "a.dts" }], w⟩
  let u : State := .openFile
    ⟨[.close "a.dts"], [{ file := "a.dts" }],
      { w with includes := ["/w/a.dts"], statements := [⟨"a.dts", 2, 1, "a.dts", "/w/a.dts"⟩] }⟩
    "/w/a.dts" selfIncludingText
  have hread : Source.read selfIncluding [] "a.dts" = .ok ⟨"a.dts", selfIncludingText⟩ := by
    cbv
  have hmarks : s.MarksOnce "a.dts" := ⟨_, _, _, _, " once".toList, rfl, rfl, rfl, rfl, rfl, rfl⟩
  have hst : s.step (selfIncluding.resolver []) = .ok t := rfl
  have hfound : selfIncluding.resolver [] ⟨"a.dts", false, "a.dts"⟩ =
      .found ⟨"/w/a.dts", selfIncludingText⟩ := by
    cbv
  have hnext : t.next =
      .ok (⟨[.close "a.dts"], [{ file := "a.dts" }], w⟩, some ⟨⟨"a.dts", false, "a.dts"⟩, 2, 1⟩) :=
    rfl
  have htu : t.step (selfIncluding.resolver []) = .ok u := by
    rw [State.step, hnext]
    dsimp only [bind, Except.bind]
    rw [hfound]
    rfl
  exact ⟨s, t, u, hread, rfl, hmarks, hst, htu, rfl, rfl, by cbv⟩

end DevicetreePrep
