/-
# Collections of diagnostics and their logs

The log of a collection is the list of all diagnostics that were added to it, in the order in
which they came.  A collection keeps no log, but it is the log with the files brought together
(`Diagnostics.Groups`): the diagnostics of a file are those of the log, in their order, and the
files stand in the order in which they first come up there (`Diagnostics.groups_ofList`).

Collections can be kept under names and changed in place (`Collections`).  To add all
diagnostics of one collection to another is then a loop over a collection that may be the very
one that grows.  The loop fixes the files that it goes through when it starts, and the
diagnostics of a file when it comes to this file.  That is enough: what is added belongs to the
file whose turn it is, so no file that is still to come changes
(`Collections.mergeFiles_ofLogs`).  A collection that is added to itself has every file doubled.
-/

import DevicetreePrep.Diagnostic
import Mathlib.Data.List.Induction
import Mathlib.Data.List.Nodup
import Mathlib.Logic.Function.Basic

namespace DevicetreePrep

/-- A name behind a list of names is new, or the list has it. -/
theorem eraseDups_concat {α : Type} [DecidableEq α] (xs : List α) (x : α) :
    (xs ++ [x]).eraseDups = if x ∈ xs then xs.eraseDups else xs.eraseDups ++ [x] := by
  rw [List.eraseDups_append]
  by_cases hx : x ∈ xs <;> simp [List.removeAll, hx, List.eraseDups_cons]

/-- Without its repetitions a list has none. -/
theorem nodup_eraseDups {α : Type} [DecidableEq α] (xs : List α) : xs.eraseDups.Nodup := by
  induction xs using List.reverseRecOn with
  | nil => exact .nil
  | append_singleton xs x ih =>
    rw [eraseDups_concat]
    split
    · exact ih
    · rename_i hx
      refine List.Nodup.append ih (List.nodup_singleton x) (List.disjoint_singleton.2 ?_)
      exact fun hmem => hx (List.mem_eraseDups.1 hmem)

namespace Diagnostics

/-- A diagnostic is added to the others, at the end of those of its file. -/
theorem toList_push_perm (s : Diagnostics) (d : Diagnostic) :
    (s.push d).toList.Perm (d :: s.toList) := by
  have hplace (fs : List FileDiagnostics) :
      ((place d fs).flatMap FileDiagnostics.items).Perm
        (d :: fs.flatMap FileDiagnostics.items) := by
    induction fs with
    | nil => exact .refl _
    | cons f fs ih =>
      rw [place]
      split
      · rw [List.flatMap_cons, List.flatMap_cons, List.append_assoc, List.singleton_append]
        exact List.perm_middle
      · rw [List.flatMap_cons, List.flatMap_cons]
        exact (ih.append_left f.items).trans List.perm_middle
  exact hplace s.files

theorem size_push (s : Diagnostics) (d : Diagnostic) : (s.push d).size = s.size + 1 :=
  (s.toList_push_perm d).length_eq

/-- The files of a log, each where it first comes up, with their diagnostics. -/
def grouped (log : List Diagnostic) : List FileDiagnostics :=
  (log.map Diagnostic.file).eraseDups.map fun file => ⟨file, log.filter (·.file = file)⟩

/-- A diagnostic of a file that is new starts it at the end. -/
theorem place_of_notMem {d : Diagnostic} {names : List String} (h : d.file ∉ names)
    (items : String → List Diagnostic) :
    place d (names.map fun file => ⟨file, items file⟩) =
      names.map (fun file => ⟨file, items file⟩) ++ [⟨d.file, [d]⟩] := by
  induction names with
  | nil => rfl
  | cons name names ih =>
    obtain ⟨hname, hnames⟩ := List.ne_and_not_mem_of_not_mem_cons h
    rw [List.map_cons, place, if_neg (Ne.symm hname), ih hnames]
    rfl

/-- A diagnostic of a file that is there goes to its end, and the others stay as they are. -/
theorem place_of_mem {d : Diagnostic} {names : List String} (hnames : names.Nodup)
    (h : d.file ∈ names) (items : String → List Diagnostic) :
    place d (names.map fun file => ⟨file, items file⟩) =
      names.map fun file => ⟨file, if file = d.file then items file ++ [d] else items file⟩ := by
  induction names with
  | nil => cases h
  | cons name names ih =>
    obtain ⟨hname, hnames⟩ := List.nodup_cons.1 hnames
    rw [List.map_cons, List.map_cons, place]
    by_cases hfile : name = d.file
    · rw [if_pos hfile, if_pos hfile]
      refine congrArg (_ :: ·) (List.map_congr_left fun file hmem => ?_)
      rw [if_neg fun h => hname (by rwa [hfile, ← h])]
    · rw [if_neg hfile, if_neg hfile, ih hnames (List.mem_of_ne_of_mem (Ne.symm hfile) h)]

/-- **One more diagnostic in the log is one more in its group.** -/
theorem place_grouped (log : List Diagnostic) (d : Diagnostic) :
    place d (grouped log) = grouped (log ++ [d]) := by
  have hfilter (file : String) : (log ++ [d]).filter (·.file = file) =
      if file = d.file then log.filter (·.file = file) ++ [d] else log.filter (·.file = file) := by
    rw [List.filter_append]
    by_cases hfile : file = d.file
    · simp [hfile]
    · simp [hfile, Ne.symm hfile]
  rw [grouped, grouped, List.map_append, List.map_singleton, eraseDups_concat]
  split
  · rename_i hmem
    rw [place_of_mem (nodup_eraseDups _) (List.mem_eraseDups.2 hmem)]
    simp only [hfilter]
  · rename_i hnew
    -- the file is new, so nothing of it is in the log
    have hnone : log.filter (·.file = d.file) = [] :=
      List.filter_eq_nil_iff.2 fun e he hfile =>
        hnew (List.mem_map.2 ⟨e, he, of_decide_eq_true hfile⟩)
    rw [place_of_notMem fun hmem => hnew (List.mem_eraseDups.1 hmem), List.map_append,
      List.map_singleton, hfilter, if_pos rfl, hnone, List.nil_append]
    refine congrArg (· ++ _) (List.map_congr_left fun file hmem => ?_)
    rw [hfilter, if_neg]
    rintro rfl
    exact hnew (List.mem_eraseDups.1 hmem)

theorem ofList_append (log ds : List Diagnostic) :
    ofList (log ++ ds) = ds.foldl push (ofList log) :=
  List.foldl_append ..

theorem ofList_concat (log : List Diagnostic) (d : Diagnostic) :
    ofList (log ++ [d]) = (ofList log).push d :=
  ofList_append log [d]

/-- The files of a collection are those of its log, in the order of their first entries. -/
theorem files_ofList (log : List Diagnostic) : (ofList log).files = grouped log := by
  induction log using List.reverseRecOn with
  | nil => rfl
  | append_singleton log d ih => rw [ofList_concat, push, ih, place_grouped]

/-- A collection lists what was logged, though not in its order. -/
theorem toList_ofList_perm (log : List Diagnostic) : (ofList log).toList.Perm log := by
  induction log using List.reverseRecOn with
  | nil => exact .refl _
  | append_singleton log d ih =>
    rw [ofList_concat]
    exact ((toList_push_perm _ d).trans (ih.cons d)).trans (List.perm_append_singleton d log).symm

/-- The collection is its log, with the files brought together. -/
structure Groups (s : Diagnostics) (log : List Diagnostic) : Prop where
  /-- The diagnostics of a file are those of the log, in their order. -/
  forFile : ∀ file, s.forFile file = log.filter (·.file = file)
  /-- The files stand in the order in which they first come up. -/
  fileNames : s.fileNames = (log.map Diagnostic.file).eraseDups
  toList : s.toList = s.fileNames.flatMap s.forFile
  errors : s.errors = (s.fileNames.flatMap s.forFile).filter (·.severity = .error)
  size : s.size = log.length

/-- **A collection is its log, with the files brought together.** -/
theorem groups_ofList (log : List Diagnostic) : (ofList log).Groups log := by
  have hforFile (file : String) : (ofList log).forFile file = log.filter (·.file = file) := by
    rw [forFile, files_ofList, grouped, List.find?_map]
    cases hfound : (log.map Diagnostic.file).eraseDups.find?
        ((·.file = file) ∘ fun file => (⟨file, log.filter (·.file = file)⟩ : FileDiagnostics)) with
    | some name =>
      obtain rfl : name = file := by simpa using List.find?_some hfound
      rfl
    | none =>
      refine (List.filter_eq_nil_iff.2 fun d hd hfile => ?_).symm
      have hmem := List.mem_eraseDups.2 (List.mem_map_of_mem (f := Diagnostic.file) hd)
      exact absurd hfile (by simpa using List.find?_eq_none.1 hfound _ hmem)
  have hnames : (ofList log).fileNames = (log.map Diagnostic.file).eraseDups := by
    rw [fileNames, files_ofList, grouped, List.map_map]
    exact List.map_id _
  have htoList : (ofList log).toList = (ofList log).fileNames.flatMap (ofList log).forFile := by
    rw [toList, files_ofList, grouped, List.flatMap_map, hnames, funext hforFile]
  refine ⟨hforFile, hnames, htoList, ?_, (toList_ofList_perm log).length_eq⟩
  rw [errors, htoList]

/-- To bring the files together takes no diagnostic of a file from another one's place. -/
theorem filter_flatMap_filter (log : List Diagnostic) (file : String) {names : List String}
    (hnames : names.Nodup) :
    (names.flatMap fun name => log.filter (·.file = name)).filter (·.file = file) =
      if file ∈ names then log.filter (·.file = file) else [] := by
  have hfilter (name : String) : (log.filter (·.file = name)).filter (·.file = file) =
      if name = file then log.filter (·.file = file) else [] := by
    rw [List.filter_filter]
    split
    · rename_i hname
      simp [hname]
    · rename_i hname
      refine List.filter_eq_nil_iff.2 fun d _ hd => hname ?_
      simp only [Bool.and_eq_true, decide_eq_true_eq] at hd
      rw [← hd.2, hd.1]
  induction names with
  | nil => rfl
  | cons name names ih =>
    obtain ⟨hname, hnames⟩ := List.nodup_cons.1 hnames
    rw [List.flatMap_cons, List.filter_append, hfilter, ih hnames]
    by_cases hfile : name = file
    · subst hfile
      simp [hname]
    · simp [hfile, Ne.symm hfile]

/-- A file has the same diagnostics in the log and where the files are brought together. -/
theorem filter_toList_ofList (log : List Diagnostic) (file : String) :
    (ofList log).toList.filter (·.file = file) = log.filter (·.file = file) := by
  have hgroups := groups_ofList log
  rw [hgroups.toList, hgroups.fileNames, funext hgroups.forFile,
    filter_flatMap_filter log file (nodup_eraseDups _)]
  split
  · rfl
  · rename_i hnone
    refine (List.filter_eq_nil_iff.2 fun d hd hfile => hnone ?_).symm
    exact List.mem_eraseDups.2 (List.mem_map.2 ⟨d, hd, of_decide_eq_true hfile⟩)

end Diagnostics

/-- Collections that are kept under names. -/
abbrev Collections (ι : Type) := ι → Diagnostics

/-- A change of collections in place. -/
inductive CollectionOp (ι : Type)
  /-- Adds a diagnostic. -/
  | push (into : ι) (d : Diagnostic)
  /-- Adds all diagnostics of a collection, which may be the same one. -/
  | merge (into source : ι)

variable {ι : Type} [DecidableEq ι]

namespace Collections

/-- Adds a diagnostic in place. -/
def push (c : Collections ι) (into : ι) (d : Diagnostic) : Collections ι :=
  Function.update c into ((c into).push d)

/-- Goes on to add the diagnostics of one collection to another in place, where the files `names`
are still to come.  The diagnostics of a file are read when it comes to this file. -/
def mergeFiles (c : Collections ι) (into source : ι) : List String → Collections ι
  | [] => c
  | file :: names =>
    mergeFiles (((c source).forFile file).foldl (fun c d => push c into d) c) into source names

/-- Adds the diagnostics of one collection to another in place, for the files that there are when
it starts. -/
def merge (c : Collections ι) (into source : ι) : Collections ι :=
  mergeFiles c into source (c source).fileNames

/-- The collections with these logs. -/
def ofLogs (logs : ι → List Diagnostic) : Collections ι :=
  fun i => Diagnostics.ofList (logs i)

variable (logs : ι → List Diagnostic) (into source : ι)

/-- Collections that are changed at one place are those of the logs changed at that place. -/
theorem ofLogs_update (log : List Diagnostic) :
    ofLogs (Function.update logs into log) =
      Function.update (ofLogs logs) into (Diagnostics.ofList log) :=
  Function.comp_update Diagnostics.ofList logs into log

/-- What is added in place comes to the end of the log. -/
theorem foldl_push_ofLogs (ds : List Diagnostic) :
    ds.foldl (fun c d => push c into d) (ofLogs logs) =
      ofLogs (Function.update logs into (logs into ++ ds)) := by
  induction ds using List.reverseRecOn with
  | nil => rw [List.append_nil, Function.update_eq_self]; rfl
  | append_singleton ds d ih =>
    rw [List.foldl_append, ih, List.foldl_cons, List.foldl_nil, push, ofLogs_update, ofLogs_update,
      Function.update_self, Function.update_idem, ← List.append_assoc, Diagnostics.ofList_concat]

/-- **A file that is still to come does not change**, also if the collection is added to
itself. -/
theorem mergeFiles_ofLogs {names : List String} (hnames : names.Nodup) :
    mergeFiles (ofLogs logs) into source names =
      ofLogs (Function.update logs into
        (logs into ++ names.flatMap fun file => (logs source).filter (·.file = file))) := by
  induction names generalizing logs with
  | nil => rw [List.flatMap_nil, List.append_nil, Function.update_eq_self]; rfl
  | cons file names ih =>
    obtain ⟨hfile, hnames⟩ := List.nodup_cons.1 hnames
    have hread : (ofLogs logs source).forFile file = (logs source).filter (·.file = file) :=
      (Diagnostics.groups_ofList (logs source)).forFile file
    have hkept : ∀ name ∈ names,
        (Function.update logs into (logs into ++ (logs source).filter (·.file = file)) source).filter
          (·.file = name) = (logs source).filter (·.file = name) := by
      intro name hname
      by_cases hsource : source = into
      · subst hsource
        have hnone : ((logs source).filter (·.file = file)).filter (·.file = name) = [] := by
          rw [List.filter_filter]
          refine List.filter_eq_nil_iff.2 fun d _ hd => hfile ?_
          simp only [Bool.and_eq_true, decide_eq_true_eq] at hd
          rwa [← hd.2, hd.1]
        rw [Function.update_self, List.filter_append, hnone, List.append_nil]
      · rw [Function.update_of_ne hsource]
    rw [mergeFiles, hread, foldl_push_ofLogs, ih _ hnames, Function.update_idem,
      Function.update_self, List.flatMap_cons, ← List.append_assoc]
    rw [List.flatMap_congr hkept]

/-- **To add a collection in place is to add what it is at the start.** -/
theorem merge_ofLogs :
    merge (ofLogs logs) into source =
      ofLogs (Function.update logs into (logs into ++ (ofLogs logs source).toList)) := by
  have hgroups : (ofLogs logs source).Groups (logs source) := Diagnostics.groups_ofList _
  rw [merge, hgroups.toList, hgroups.fileNames, funext hgroups.forFile]
  exact mergeFiles_ofLogs logs into source (nodup_eraseDups _)

end Collections

/-- Collections together with their logs. -/
structure Logged (ι : Type) where
  collections : Collections ι := fun _ => {}
  /-- What was added to each collection, in the order in which it came. -/
  logs : ι → List Diagnostic := fun _ => []

namespace Logged

/-- Makes a change.  A collection that is added to another one comes into its log as it is listed
at that moment. -/
def perform (s : Logged ι) : CollectionOp ι → Logged ι
  | .push into d =>
    { collections := s.collections.push into d
      logs := Function.update s.logs into (s.logs into ++ [d]) }
  | .merge into source =>
    { collections := s.collections.merge into source
      logs := Function.update s.logs into (s.logs into ++ (s.collections source).toList) }

/-- The collections after the given changes, from empty ones. -/
def after (ops : List (CollectionOp ι)) : Logged ι :=
  ops.foldl perform {}

/-- A change of the collections is the change of their logs. -/
theorem collections_perform {s : Logged ι} (hs : s.collections = .ofLogs s.logs)
    (op : CollectionOp ι) : (s.perform op).collections = .ofLogs (s.perform op).logs := by
  cases op with
  | push into d =>
    rw [perform, hs]
    exact Collections.foldl_push_ofLogs s.logs into [d]
  | merge into source =>
    rw [perform, hs]
    exact Collections.merge_ofLogs s.logs into source

/-- **After any operations** the collections are those of the logs. -/
theorem collections_after (ops : List (CollectionOp ι)) :
    (after ops).collections = .ofLogs (after ops).logs := by
  induction ops using List.reverseRecOn with
  | nil => rfl
  | append_singleton ops op ih =>
    rw [after, List.foldl_append]
    exact collections_perform ih op

/-- **Whatever is added to collections, each is its log with the files brought together.**  A
collection that is added to another one, or to itself, is added as it is at the start, so each
file of it that is added to itself is doubled. -/
theorem groups_after_operations (ops : List (CollectionOp ι)) :
    (∀ i, ((after ops).collections i).Groups ((after ops).logs i)) ∧
      ∀ into source,
        (after ops).collections.merge into source =
          Function.update (after ops).collections into
            (((after ops).collections into).merge ((after ops).collections source)) ∧
        ∀ file, ((after ops).collections.merge into source into).forFile file =
          ((after ops).collections into).forFile file ++
            ((after ops).collections source).forFile file := by
  rw [collections_after]
  refine ⟨fun i => Diagnostics.groups_ofList _, fun into source => ?_⟩
  rw [Collections.merge_ofLogs, Collections.ofLogs_update]
  refine ⟨congrArg (Function.update _ into) (Diagnostics.ofList_append ..), fun file => ?_⟩
  have hforFile (log : List Diagnostic) := (Diagnostics.groups_ofList log).forFile file
  simp only [Collections.ofLogs, Function.update_self, hforFile, List.filter_append,
    Diagnostics.filter_toList_ofList]

end Logged
end DevicetreePrep
