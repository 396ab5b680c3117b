/-
# Dumped tables are read back

A table is dumped as one line for each definition that is no builtin: its head, an equals
sign and its replacement.  A run that is given these lines as definitions accepts them and
starts with the same definitions (`Options.table_dump`).  Three facts make it up.  Heads
are read again (`Definition.readAssignment_signature`).  A replacement is a part of the
tokens of some text, without white space at its ends, and so its spelling is cut into the
same tokens again (`Definition.outline_bodyOf_value`).  The names of a table are distinct,
so no line takes the place of another one (`Table.entries_foldl_insert`).

A replacement may start or end with a blank that is no white space between tokens.  Such a
blank is trimmed away when the line is read, which is why the spelling is asked to have none.
-/

import DevicetreePrep.Options
import DevicetreePrep.Proofs.Definition.Declaration
import DevicetreePrep.Proofs.Token.Rereading
import DevicetreePrep.Proofs.Token.Trimming

namespace DevicetreePrep

/-- Behind the first tokens of a text stand the tokens of another one. -/
theorem exists_dropWhile_tokenizeFrom (p : Token → Bool) (here : Nat) (text : Text) :
    ∃ here' text', (tokenizeFrom here text).dropWhile p = tokenizeFrom here' text' := by
  fun_induction tokenizeFrom here text with
  | case1 => exact ⟨0, [], by rw [tokenizeFrom]; rfl⟩
  | case2 here c cs l =>
    rename_i ih
    rw [List.dropWhile_cons]
    split
    · exact ih
    · exact ⟨here, c :: cs, by rw [tokenizeFrom]⟩

namespace Definition

/-- A replacement is the front of the tokens of some text. -/
theorem exists_tokenizeFrom_bodyOf (replacement : Text) :
    ∃ here text us, tokenizeFrom here text = bodyOf replacement ++ us := by
  obtain ⟨here, text, htokens⟩ :=
    exists_dropWhile_tokenizeFrom Token.isWhite 0 (Text.trim replacement)
  obtain ⟨us, hus⟩ := List.rdropWhile_prefix Token.isWhite (l := tokenizeFrom here text)
  refine ⟨here, text, us, ?_⟩
  rw [bodyOf, trimWhite, trimWhere_eq_rdropWhile, tokenize, htokens, hus]

/-- The outline of a body keeps the readings, with one blank for white space. -/
theorem outline_eq (body : List Token) :
    outline body =
      (body.map Token.reading).map fun r => (r.1, if r.1 = .whitespace then [' '] else r.2) := by
  rw [List.map_map]
  refine List.map_congr_left fun t _ => ?_
  by_cases h : t.kind = .whitespace <;> simp [Token.reading, Token.isWhite, h]

/-- The readings of trimmed tokens are the trimmed readings. -/
theorem reading_trimWhite (ts : List Token) :
    (trimWhite ts).map Token.reading = trimWhere (·.1 = .whitespace) (ts.map Token.reading) := by
  rw [trimWhere_map]
  rfl

/-- **The spelling of a replacement is read as the same replacement.** -/
theorem outline_bodyOf_value {d : Definition} {replacement : Text} (h : d.body = bodyOf replacement)
    (htrim : Text.trim d.value = d.value) : outline (bodyOf (' ' :: d.value)) = outline d.body := by
  have hblank : Text.trim (' ' :: d.value) = d.value := by
    rw [Text.trim, Text.trimLeft, List.dropWhile_cons_of_pos (by decide)]
    exact htrim
  obtain ⟨here, text, us, htokens⟩ := exists_tokenizeFrom_bodyOf replacement
  rw [← h] at htokens
  -- the replacement need not be all tokens of a text, as white space at its end was dropped
  have hread : (tokenize d.value).map Token.reading = d.body.map Token.reading :=
    reading_tokenizeFrom_render htokens 0
  rw [bodyOf, hblank, outline_eq, outline_eq, reading_trimWhite, hread, h, bodyOf,
    reading_trimWhite, trimWhere_trimWhere]

/-- The definition as it is read back from its line of a dump. -/
def readBack (d : Definition) : Definition :=
  { name := d.name, shape := d.shape, body := bodyOf (' ' :: d.value) }

/-- The definition was read, and its spelling neither starts nor ends with a blank. -/
def IsDumpable (d : Definition) : Prop :=
  (∃ operand file line, read operand file line = .ok d) ∧ Text.trim d.value = d.value

variable {d : Definition}

/-- **A line of a dump is read back**, as a definition that may stand for the old one. -/
theorem IsDumpable.readAssignment (h : d.IsDumpable) :
    readAssignment (d.signature ++ '=' :: d.value) = .ok d.readBack ∧
      d.readBack.sameAs d = true := by
  obtain ⟨⟨operand, file, line, hread⟩, htrim⟩ := h
  obtain ⟨hdeclared, replacement, hbody⟩ := isDeclared_of_read hread
  refine ⟨readAssignment_signature hdeclared d.value, ?_⟩
  rw [sameAs, Bool.and_eq_true, decide_eq_true_eq, decide_eq_true_eq]
  exact ⟨rfl, outline_bodyOf_value hbody htrim⟩

end Definition

namespace Table

variable {t : Table} {d : Definition}

/-- A definition with a new name is put at the end. -/
theorem place_of_notMem {es : List Definition} (h : d.name ∉ es.map Definition.name) :
    place d es = es ++ [d] := by
  induction es with
  | nil => rfl
  | cons e es ih =>
    rw [List.map_cons, List.mem_cons, not_or] at h
    rw [place, if_neg (Ne.symm h.1), ih h.2, List.cons_append]

/-- **Definitions of new names come to the end of a table**, in their order. -/
theorem entries_foldl_insert (t : Table) {ds : List Definition}
    (h : ((t.entries ++ ds).map Definition.name).Nodup) :
    (ds.foldl insert t).entries = t.entries ++ ds := by
  induction ds generalizing t with
  | nil => rw [List.foldl_nil, List.append_nil]
  | cons d ds ih =>
    have hnew : d.name ∉ t.entries.map Definition.name := by
      rw [List.map_append, List.map_cons, List.nodup_append] at h
      exact fun hmem => h.2.2 _ hmem _ (List.mem_cons_self ..) rfl
    have hinsert : (t.insert d).entries = t.entries ++ [d] := place_of_notMem hnew
    rw [List.foldl_cons, ih (t.insert d), hinsert, List.append_assoc, List.singleton_append]
    rwa [hinsert, List.append_assoc, List.singleton_append]

/-- An entry is the definition of its name. -/
theorem find?_of_mem (h : d ∈ t.entries) : t.find? d.name = some d := by
  cases hfind : t.find? d.name with
  | none =>
    have := List.find?_eq_none.1 hfind d h
    simp at this
  | some e =>
    have hname : e.name = d.name := by simpa using List.find?_some hfind
    rw [List.inj_on_of_nodup_map t.distinct (List.mem_of_find?_eq_some hfind) h hname]

/-- The definitions that a dump has a line for, in the order of their names. -/
def dumped (t : Table) : List Definition :=
  (t.entries.mergeSort fun d e => d.name.atMost e.name).filter (·.shape ≠ .builtin)

theorem dump_eq (t : Table) : t.dump = t.dumped.map fun d => d.signature ++ '=' :: d.value :=
  rfl

theorem perm_dumped (t : Table) : t.dumped.Perm (t.entries.filter (·.shape ≠ .builtin)) :=
  (List.mergeSort_perm ..).filter _

theorem nodup_dumped (t : Table) : (t.dumped.map Definition.name).Nodup :=
  (t.perm_dumped.map _).nodup_iff.2 (t.distinct.sublist (List.filter_sublist.map _))

end Table

namespace Options

/-- Definitions that can be read are accepted. -/
theorem make_of_forall {defines : List Text}
    (h : ∀ text ∈ defines, ∃ d, Definition.readAssignment text = .ok d) :
    make [] defines [] false "human" = .ok { defines, builtins := false } := by
  have hformat : DiagnosticFormat.ofName? "human" = some .human := by decide
  have hdefines : (defines.find? fun d => !(Definition.readAssignment d).isOk) = none := by
    refine List.find?_eq_none.2 fun text htext => ?_
    obtain ⟨d, hd⟩ := h text htext
    rw [hd]
    exact Bool.false_ne_true
  rw [make, hformat]
  dsimp only
  rw [hdefines]
  rfl

/-- The definitions that a run starts with when it is given those that a table has lines
for. -/
theorem entries_table_dump {t : Table} (h : ∀ d ∈ t.dumped, d.IsDumpable) :
    (table { defines := t.dump, builtins := false }).entries =
      t.dumped.map Definition.readBack := by
  have hread : (t.dump.filterMap fun text => (Definition.readAssignment text).toOption) =
      t.dumped.map Definition.readBack := by
    rw [Table.dump_eq, List.filterMap_map, ← List.filterMap_eq_map]
    refine List.filterMap_congr fun d hd => ?_
    rw [Function.comp_apply, (h d hd).readAssignment.1]
    rfl
  have hnodup : ((Table.empty.entries ++ t.dumped.map Definition.readBack).map
      Definition.name).Nodup := by
    rw [Table.empty, List.nil_append, List.map_map]
    exact t.nodup_dumped
  rw [table, hread]
  exact Table.entries_foldl_insert Table.empty hnodup

/-- **A dumped table is read back.**  The lines of the dump are accepted as definitions, and
a run that starts without builtins has exactly the names in it that the table has beside
its builtins, each with a definition that may stand for the old one. -/
theorem table_dump {t : Table} (h : ∀ d ∈ t.entries, d.shape ≠ .builtin → d.IsDumpable) :
    ∃ o, make [] t.dump [] false "human" = .ok o ∧
      o.table.names.Perm ((t.entries.filter (·.shape ≠ .builtin)).map Definition.name) ∧
      ∀ d ∈ t.entries, d.shape ≠ .builtin →
        ∃ d', o.table.find? d.name = some d' ∧ d'.sameAs d = true := by
  have hmem (d : Definition) : d ∈ t.dumped ↔ d ∈ t.entries ∧ d.shape ≠ .builtin := by
    rw [t.perm_dumped.mem_iff, List.mem_filter, decide_eq_true_eq]
  have hdumped : ∀ d ∈ t.dumped, d.IsDumpable :=
    fun d hd => h d ((hmem d).1 hd).1 ((hmem d).1 hd).2
  have hentries := entries_table_dump hdumped
  refine ⟨{ defines := t.dump, builtins := false }, make_of_forall ?_, ?_, ?_⟩
  · rw [Table.dump_eq, List.forall_mem_map]
    exact fun d hd => ⟨d.readBack, (hdumped d hd).readAssignment.1⟩
  · rw [Table.names, hentries, List.map_map]
    exact t.perm_dumped.map _
  · intro d hd hshape
    refine ⟨d.readBack, ?_, (h d hd hshape).readAssignment.2⟩
    refine Table.find?_of_mem (d := d.readBack) ?_
    rw [hentries]
    exact List.mem_map_of_mem ((hmem d).2 ⟨hd, hshape⟩)

/-- Beside a builtin, an object that starts with an equals sign and leaves a literal open,
and a function with a named rest. -/
theorem table_dump_open_literal :
    ∃ t : Table, t.names = ["__LINE__".toList, "G".toList, "E".toList] ∧
      (∀ d ∈ t.entries, d.shape ≠ .builtin → d.IsDumpable) ∧
      ∃ o, make [] t.dump [] false "human" = .ok o ∧
        o.table.names.Perm ["G".toList, "E".toList] ∧
        ∃ d, o.table.find? "G".toList = some d ∧
          d.shape = .function ["a".toList] (.named "r".toList) := by
  let openLiteral : Definition :=
    { name := "E".toList
      body := [⟨.punctuator, "=".toList, 0⟩, ⟨.stringLiteral, "\"x".toList, 1⟩] }
  let namedRest : Definition :=
    { name := "G".toList, shape := .function ["a".toList] (.named "r".toList),
      body := [⟨.ident, "a".toList, 0⟩, ⟨.punctuator, "##".toList, 1⟩, ⟨.ident, "r".toList, 3⟩] }
  let t : Table :=
    { entries := [{ name := "__LINE__".toList, shape := .builtin }, namedRest, openLiteral]
      distinct := by decide }
  have hopen : openLiteral.IsDumpable :=
    ⟨⟨"E =\"x".toList, none, none, by decide +kernel⟩, by decide⟩
  have hnamed : namedRest.IsDumpable :=
    ⟨⟨"G( a, r...) a##r".toList, none, none, by decide +kernel⟩, by decide⟩
  have hdumpable : ∀ d ∈ t.entries, d.shape ≠ .builtin → d.IsDumpable := by
    simp only [t, List.forall_mem_cons, List.not_mem_nil, false_imp_iff, implies_true, and_true]
    exact ⟨fun hshape => absurd rfl hshape, fun _ => hnamed, fun _ => hopen⟩
  obtain ⟨o, hmake, hnames, hfind⟩ := table_dump hdumpable
  obtain ⟨d, hd, hsame⟩ := hfind namedRest (by simp [t]) Shape.noConfusion
  rw [Definition.sameAs, Bool.and_eq_true, decide_eq_true_eq] at hsame
  exact ⟨t, rfl, hdumpable, o, hmake, hnames, d, hd, hsame.1⟩

end Options

end DevicetreePrep
