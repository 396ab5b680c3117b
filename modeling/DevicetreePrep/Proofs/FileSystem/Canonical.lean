/-
# Canonical names of files

A path leads to a place, whether something stands there or not: single names lead on, and a
double dot leads back (`FileSystem.place`).  Where a walk along the path comes to an end, it
has come to that place (`FileSystem.place_of_walk`).  So every name of a file denotes a
place, and each place has one canonical name among those that denote it: the path to it from
the root (`FileSystem.denoted_canonicalName`).

A file that is found for an inclusion goes by its canonical name
(`FileSystem.isCanonical_of_found`).  A source goes by the path as it was given, which
denotes the place that it was read from (`FileSystem.holds_of_read`) but need not be
canonical.
-/

import DevicetreePrep.FileSystem
import DevicetreePrep.Proofs.Definition.Declaration

namespace DevicetreePrep

namespace Text

/-- The separator stands in no piece. -/
theorem notMem_of_mem_split {c : Char} {t piece : Text} (h : piece ∈ split c t) : c ∉ piece := by
  induction t generalizing piece with
  | nil =>
    rw [split, List.mem_singleton] at h
    simp [h]
  | cons d ds ih =>
    rw [split] at h
    split at h
    · rcases List.mem_cons.1 h with rfl | h
      · exact List.not_mem_nil
      · exact ih h
    · rename_i hd
      cases hs : split c ds with
      | nil =>
        rw [hs, List.mem_singleton] at h
        simpa [h] using Ne.symm hd
      | cons p ps =>
        rw [hs] at h ih
        rcases List.mem_cons.1 h with rfl | h
        · have hp := ih (List.mem_cons_self ..)
          simpa [hp] using Ne.symm hd
        · exact ih (List.mem_cons_of_mem _ h)

end Text

namespace Path

/-- What may stand between two slashes of a path. -/
structure IsName (n : Text) : Prop where
  ne_nil : n ≠ []
  ne_dot : n ≠ ['.']
  slash_notMem : '/' ∉ n

/-- A path as it is spelled: with two slashes in front at most, and with names. -/
structure IsSpelled (p : Path) : Prop where
  anchor : p.anchor = [] ∨ p.anchor = ['/'] ∨ p.anchor = ['/', '/']
  names : ∀ n ∈ p.names, IsName n

/-- The path of a text is as it is spelled. -/
theorem isSpelled_ofText (t : Text) : (ofText t).IsSpelled where
  anchor := by
    show anchorOf t = [] ∨ anchorOf t = ['/'] ∨ anchorOf t = ['/', '/']
    unfold anchorOf
    split <;> simp
  names := by
    intro n hn
    obtain ⟨hmem, hkept⟩ := List.mem_filter.1 hn
    rw [Bool.and_eq_true, decide_eq_true_eq, decide_eq_true_eq] at hkept
    exact ⟨hkept.1, hkept.2, Text.notMem_of_mem_split hmem⟩

/-- The names of a path are found again between its slashes. -/
theorem filter_split_joinWith {names : List Text} (h : ∀ n ∈ names, IsName n) :
    (Text.split '/' (Text.joinWith ['/'] names)).filter (fun n => n ≠ [] && n ≠ ['.']) =
      names := by
  by_cases hne : names = []
  · subst hne
    decide
  · rw [Text.split_joinWith hne fun n hn => (h n hn).slash_notMem, List.filter_eq_self]
    intro n hn
    simp [(h n hn).ne_nil, (h n hn).ne_dot]

/-- Names do not start with a slash. -/
theorem takeWhile_joinWith {names : List Text} (h : ∀ n ∈ names, IsName n) :
    (Text.joinWith ['/'] names).takeWhile (· = '/') = [] := by
  cases names with
  | nil => rfl
  | cons n ns =>
    obtain ⟨c, cs, rfl⟩ := List.exists_cons_of_ne_nil (h n (List.mem_cons_self ..)).ne_nil
    have hc : c ≠ '/' := fun hc =>
      (h _ (List.mem_cons_self ..)).slash_notMem (hc ▸ List.mem_cons_self ..)
    have hjoin : ∃ rest, Text.joinWith ['/'] ((c :: cs) :: ns) = c :: rest := by
      cases ns with
      | nil => exact ⟨cs, rfl⟩
      | cons m ms => exact ⟨_, rfl⟩
    obtain ⟨rest, hrest⟩ := hjoin
    rw [hrest, List.takeWhile_cons_of_neg (by simpa using hc)]

/-- **A path is read again from its spelling.** -/
theorem ofText_toText {p : Path} (h : p.IsSpelled) : ofText p.toText = p := by
  obtain ⟨anchor, names⟩ := p
  obtain ⟨hanchor, hnames⟩ := h
  have hsplit := filter_split_joinWith hnames
  have hfront := takeWhile_joinWith hnames
  dsimp only at hanchor hsplit hfront
  rcases hanchor with rfl | rfl | rfl
  · by_cases hne : names = []
    · subst hne
      decide
    · have htext : toText ⟨[], names⟩ = Text.joinWith ['/'] names := by
        simp [toText, hne]
      rw [htext, ofText, anchorOf, hfront, hsplit]
      rfl
  · have htext : toText ⟨['/'], names⟩ = '/' :: Text.joinWith ['/'] names := rfl
    have hslash : anchorOf ('/' :: Text.joinWith ['/'] names) = ['/'] := by
      rw [anchorOf, List.takeWhile_cons_of_pos (by decide), hfront]
      rfl
    rw [htext, ofText, hslash, Text.split, if_pos rfl, List.filter_cons_of_neg (by decide), hsplit]
  · have htext : toText ⟨['/', '/'], names⟩ = '/' :: '/' :: Text.joinWith ['/'] names := rfl
    have hslash : anchorOf ('/' :: '/' :: Text.joinWith ['/'] names) = ['/', '/'] := by
      rw [anchorOf, List.takeWhile_cons_of_pos (by decide), List.takeWhile_cons_of_pos (by decide),
        hfront]
      rfl
    rw [htext, ofText, hslash, Text.split, if_pos rfl, Text.split, if_pos rfl,
      List.filter_cons_of_neg (by decide), List.filter_cons_of_neg (by decide), hsplit]

end Path

namespace FileSystem

/-- Where names lead from a place. -/
def placeFrom (place : List Text) : List Text → List Text
  | [] => place
  | name :: names =>
    if name = ['.', '.'] then placeFrom place.dropLast names else placeFrom (place ++ [name]) names

/-- The place that a path leads to. -/
def place (fs : FileSystem) (p : Path) : List Text :=
  placeFrom (if p.isAbsolute then [] else fs.home) p.names

/-- The place that the name of a file denotes. -/
def denoted (fs : FileSystem) (name : String) : List Text :=
  fs.place (Path.ofText name.toList)

/-- The name of a file that stands at a place: the path to it from the root. -/
def canonicalName (place : List Text) : String :=
  String.ofList (Path.ofNames place).toText

/-- The name is the canonical one of the place that it denotes. -/
def IsCanonical (fs : FileSystem) (name : String) : Prop :=
  canonicalName (fs.denoted name) = name

/-- A file with this text stands at a place. -/
def Holds (fs : FileSystem) (place : List Text) (text : Text) : Prop :=
  ∃ bytes, fs.node? place = some (.file bytes) ∧ textOf bytes = .ok text

/-- The names on the way to a place, none of which leads back. -/
def IsPlace (place : List Text) : Prop :=
  ∀ n ∈ place, Path.IsName n ∧ n ≠ ['.', '.']

variable {fs : FileSystem} {place : List Text} {p : Path}

/-! ### Places -/

/-- From a place, names lead to a place. -/
theorem isPlace_placeFrom (h : IsPlace place) {names : List Text}
    (hnames : ∀ n ∈ names, Path.IsName n) : IsPlace (placeFrom place names) := by
  induction names generalizing place with
  | nil => exact h
  | cons name names ih =>
    obtain ⟨hname, hnames⟩ := List.forall_mem_cons.1 hnames
    rw [placeFrom]
    split
    · exact ih (fun n hn => h n (List.dropLast_subset _ hn)) hnames
    · rename_i hback
      refine ih ?_ hnames
      intro n hn
      rcases List.mem_append.1 hn with hn | hn
      · exact h n hn
      · rw [List.mem_singleton.1 hn]
        exact ⟨hname, hback⟩

/-- Names that do not lead back lead to the place that they spell. -/
theorem placeFrom_of_isPlace {names : List Text} (h : IsPlace names) (place : List Text) :
    placeFrom place names = place ++ names := by
  induction names generalizing place with
  | nil => rw [placeFrom, List.append_nil]
  | cons name names ih =>
    obtain ⟨⟨-, hback⟩, hnames⟩ := List.forall_mem_cons.1 h
    rw [placeFrom, if_neg hback, ih hnames, List.append_assoc, List.singleton_append]

/-- **The canonical name of a place denotes it.** -/
theorem denoted_canonicalName (fs : FileSystem) (h : IsPlace place) :
    fs.denoted (canonicalName place) = place := by
  have hspelled : (Path.ofNames place).IsSpelled := ⟨.inr (.inl rfl), fun n hn => (h n hn).1⟩
  rw [denoted, canonicalName, String.toList_ofList, Path.ofText_toText hspelled, FileSystem.place]
  exact placeFrom_of_isPlace h []

/-- The name of a place is canonical. -/
theorem isCanonical_canonicalName (fs : FileSystem) (h : IsPlace place) :
    fs.IsCanonical (canonicalName place) := by
  rw [IsCanonical, fs.denoted_canonicalName h]

/-- **A file has one canonical name.** -/
theorem IsCanonical.eq {a b : String} (ha : fs.IsCanonical a) (hb : fs.IsCanonical b)
    (h : fs.denoted a = fs.denoted b) : a = b := by
  rw [← ha, ← hb, h]

/-! ### Walks -/

/-- A walk that finds a file comes to the place that the names lead to. -/
theorem place_of_walkFrom {names place' : List Text} {bytes : List UInt8}
    (h : fs.walkFrom place names = .ok (place', .file bytes)) :
    place' = placeFrom place names ∧ fs.node? place' = some (.file bytes) := by
  induction names generalizing place with
  | nil => cases h
  | cons name names ih =>
    rw [walkFrom] at h
    rw [placeFrom]
    split at h
    · rename_i hback
      rw [if_pos hback]
      exact ih h
    · rename_i hback
      rw [if_neg hback]
      split at h
      · cases h
      · dsimp only at h
        split at h
        · cases h
        · exact ih h
        · rename_i hnode
          cases h
          exact ⟨rfl, hnode⟩
        · cases h

/-- **A walk along a path that finds a file comes to the place of the path.** -/
theorem place_of_walk {bytes : List UInt8} (h : fs.walk p = .ok (place, .file bytes)) :
    place = fs.place p ∧ fs.node? place = some (.file bytes) := by
  unfold walk at h
  split at h
  · cases h
  · exact place_of_walkFrom h

/-- A file that a path leads to stands at the place of the path. -/
theorem place_of_fileAt? {bytes : List UInt8} (h : fs.fileAt? p = .ok (some (place, bytes))) :
    place = fs.place p ∧ fs.node? place = some (.file bytes) := by
  unfold fileAt? at h
  split at h
  · cases h
  · split at h
    · rename_i hwalk
      cases h
      exact place_of_walk hwalk
    · cases h
    · split at h <;> cases h

/-- The first file is the file of a candidate. -/
theorem exists_of_firstFile? {ps : List Path} {bytes : List UInt8}
    (h : fs.firstFile? ps = .ok (some (place, bytes))) :
    ∃ p ∈ ps, fs.fileAt? p = .ok (some (place, bytes)) := by
  induction ps with
  | nil => cases h
  | cons p ps ih =>
    rw [firstFile?] at h
    cases hp : fs.fileAt? p with
    | error e => rw [hp] at h; cases h
    | ok found =>
      rw [hp] at h
      cases found with
      | some found =>
        obtain rfl : found = (place, bytes) := Option.some.inj (Except.ok.inj h)
        exact ⟨p, List.mem_cons_self .., hp⟩
      | none =>
        obtain ⟨q, hq, hfile⟩ := ih h
        exact ⟨q, List.mem_cons_of_mem _ hq, hfile⟩

/-- A path may lead out of the working directory and on from the root. -/
example :
    let fs : FileSystem :=
      { home := [['w']], entries := [], elsewhere := [([['s'], ['a']], .file [])] }
    fs.walk (Path.ofText "../s/./a".toList) = .ok ([['s'], ['a']], .file []) := by
  decide +kernel

/-! ### Files that are found -/

/-- A candidate is made of names. -/
theorem isName_of_mem_candidates {i : Inclusion} {includeDirs : List String}
    (h : p ∈ i.candidates includeDirs) : ∀ n ∈ p.names, Path.IsName n := by
  obtain ⟨root, hroot, rfl⟩ := List.mem_map.1 h
  have htarget := (Path.isSpelled_ofText i.target.toList).names
  have hnames : ∀ n ∈ root.names, Path.IsName n := by
    rcases List.mem_append.1 hroot with hroot | hroot
    · split at hroot
      · rw [List.mem_singleton.1 hroot]
        intro n hn
        exact (Path.isSpelled_ofText i.includer.toList).names n (List.dropLast_subset _ hn)
      · cases hroot
    · obtain ⟨d, -, rfl⟩ := List.mem_map.1 hroot
      exact (Path.isSpelled_ofText d.toList).names
  rw [Path.append]
  split
  · exact htarget
  · exact List.forall_mem_append.2 ⟨hnames, htarget⟩

/-- **A file that is found goes by its canonical name**, and its text stands there.  The
working directory has to be a place. -/
theorem isCanonical_of_found (hhome : IsPlace fs.home) {includeDirs : List String}
    {i : Inclusion} {g : IncludedFile} (h : fs.resolver includeDirs i = .found g) :
    fs.IsCanonical g.file ∧ fs.Holds (fs.denoted g.file) g.text := by
  unfold resolver at h
  split at h
  · cases h
  · cases h
  · rename_i place bytes hfirst
    obtain ⟨p, hp, hfile⟩ := exists_of_firstFile? hfirst
    obtain ⟨hplace, hnode⟩ := place_of_fileAt? hfile
    have hnames : IsPlace place := by
      rw [hplace, FileSystem.place]
      refine isPlace_placeFrom ?_ (isName_of_mem_candidates hp)
      split
      · exact List.forall_mem_nil _
      · exact hhome
    unfold Inclusion.resolution at h
    split at h
    · rename_i text htext
      cases h
      refine ⟨fs.isCanonical_canonicalName hnames, bytes, ?_, htext⟩
      rw [← hnode]
      exact congrArg fs.node? (fs.denoted_canonicalName hnames)
    · cases h

/-- **The name of a source denotes the place that it was read from.** -/
theorem holds_of_read {stdin : Text} {path : String} {source : Source} (hpath : path ≠ "-")
    (h : Source.read fs stdin path = .ok source) :
    fs.denoted source.file = fs.denoted path ∧
      fs.Holds (fs.denoted source.file) source.text := by
  unfold Source.read at h
  rw [if_neg hpath] at h
  dsimp only at h
  cases hread : fs.read (Path.ofText path.toList) with
  | error e => rw [hread] at h; cases h
  | ok text =>
    rw [hread] at h
    cases h
    have hdenoted : fs.denoted (String.ofList (Path.ofText path.toList).toText) =
        fs.denoted path := by
      rw [denoted, String.toList_ofList, Path.ofText_toText (Path.isSpelled_ofText _)]
      rfl
    refine ⟨hdenoted, ?_⟩
    unfold read at hread
    split at hread
    · cases hread
    · split at hread
      · rename_i place bytes hwalk
        obtain ⟨hplace, hnode⟩ := place_of_walk hwalk
        dsimp only
        refine ⟨bytes, ?_, hread⟩
        rw [hdenoted, denoted, ← hplace]
        exact hnode
      · cases hread
      · cases hread

end FileSystem
end DevicetreePrep
