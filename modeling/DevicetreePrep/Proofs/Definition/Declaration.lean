/-
# Heads of definitions are read again

What is read as the head of a definition obeys the rules for names
(`Definition.isDeclared_of_read`): the name and the parameters are names, no parameter
comes twice, and a rest that has a name has one of its own.  A head that obeys these rules
is spelled without blanks, and without the characters that end one of its parts, so each
part is read again as it was (`Definition.parametersOf_joinWith`,
`Definition.read_signature`).
-/

import DevicetreePrep.Definition.Reading
import Mathlib.Data.List.Nodup

namespace DevicetreePrep

/-- A number in ranges is in one of them. -/
theorem exists_of_inRanges {n : Nat} {rs : List (Nat × Nat)} (h : inRanges n rs = true) :
    ∃ r ∈ rs, r.1 ≤ n ∧ n ≤ r.2 := by
  fun_induction inRanges n rs with
  | case1 => cases h
  | case2 lo hi rs ih =>
    rw [Bool.and_eq_true, Bool.or_eq_true, decide_eq_true_eq, decide_eq_true_eq] at h
    obtain ⟨hlo, hhi | hrs⟩ := h
    · exact ⟨(lo, hi), List.mem_cons_self .., hlo, hhi⟩
    · obtain ⟨r, hr, hn⟩ := ih hrs
      exact ⟨r, List.mem_cons_of_mem _ hr, hn⟩

/-- No character of a word is a blank. -/
theorem isBlank_of_isWordChar {c : Char} (h : isWordChar c = true) : isBlank c = false := by
  have hblanks : ∀ r ∈ blankRanges, ∀ n < r.2 + 1 - r.1,
      isWordChar (Char.ofNat (r.1 + n)) = false := by
    decide +kernel
  rw [Bool.eq_false_iff]
  intro hblank
  obtain ⟨r, hr, hlo, hhi⟩ := exists_of_inRanges hblank
  have hc := hblanks r hr (c.toNat - r.1) (by omega)
  rw [Nat.add_sub_cancel' hlo, Char.ofNat_toNat, h] at hc
  cases hc

namespace Text

variable {c : Char} {t rest : Text}

/-- A text is cut at the first character where it may be cut. -/
theorem cut_append (h : c ∉ t) (rest : Text) : cut c (t ++ c :: rest) = (t, some rest) := by
  induction t with
  | nil => rw [List.nil_append, cut, if_pos rfl]
  | cons d t ih =>
    rw [List.mem_cons, not_or] at h
    rw [List.cons_append, cut, if_neg (Ne.symm h.1), ih h.2]
    rfl

/-- A text without the separator is not cut. -/
theorem cut_of_notMem (h : c ∉ t) : cut c t = (t, none) := by
  induction t with
  | nil => rfl
  | cons d t ih =>
    rw [List.mem_cons, not_or] at h
    rw [cut, if_neg (Ne.symm h.1), ih h.2]
    rfl

/-- A text without the separator is one piece. -/
theorem split_of_notMem (h : c ∉ t) : split c t = [t] := by
  induction t with
  | nil => rfl
  | cons d t ih =>
    rw [List.mem_cons, not_or] at h
    rw [split, if_neg (Ne.symm h.1), ih h.2]

/-- The piece in front of the first separator is the first piece. -/
theorem split_append (h : c ∉ t) (rest : Text) : split c (t ++ c :: rest) = t :: split c rest := by
  induction t with
  | nil => rw [List.nil_append, split, if_pos rfl]
  | cons d t ih =>
    rw [List.mem_cons, not_or] at h
    rw [List.cons_append, split, if_neg (Ne.symm h.1), ih h.2]

/-- **Texts that are joined are split again**, if the separator stands in none of them. -/
theorem split_joinWith {ts : List Text} (hne : ts ≠ []) (h : ∀ t ∈ ts, c ∉ t) :
    split c (joinWith [c] ts) = ts := by
  fun_induction joinWith [c] ts with
  | case1 => exact absurd rfl hne
  | case2 t => exact split_of_notMem (h t (List.mem_cons_self ..))
  | case3 t ts hts ih =>
    obtain ⟨ht, hrest⟩ := List.forall_mem_cons.1 h
    rw [List.append_assoc, List.singleton_append, split_append ht, ih hts hrest]

/-- A character of a joined text is one of the separator or of a piece. -/
theorem mem_joinWith {sep : Text} {ts : List Text} (h : c ∈ joinWith sep ts) :
    c ∈ sep ∨ ∃ t ∈ ts, c ∈ t := by
  fun_induction joinWith sep ts with
  | case1 => cases h
  | case2 t => exact .inr ⟨t, List.mem_cons_self .., h⟩
  | case3 t ts hts ih =>
    rw [List.mem_append, List.mem_append] at h
    rcases h with (h | h) | h
    · exact .inr ⟨t, List.mem_cons_self .., h⟩
    · exact .inl h
    · refine (ih h).imp_right ?_
      rintro ⟨u, hu, hc⟩
      exact ⟨u, List.mem_cons_of_mem _ hu, hc⟩

/-- A text without blanks is trimmed already. -/
theorem trimRight_of_forall (h : ∀ c ∈ t, isBlank c = false) : trimRight t = t := by
  have hdrop : t.reverse.dropWhile isBlank = t.reverse := by
    cases hrev : t.reverse with
    | nil => rfl
    | cons d ds =>
      have hd : d ∈ t := by
        rw [← List.mem_reverse, hrev]
        exact List.mem_cons_self ..
      exact List.dropWhile_cons_of_neg (by rw [h d hd]; exact Bool.false_ne_true)
  rw [trimRight, hdrop, List.reverse_reverse]

theorem trimLeft_cons (hc : isBlank c = false) (t : Text) : trimLeft (c :: t) = c :: t :=
  List.dropWhile_cons_of_neg (by rw [hc]; exact Bool.false_ne_true)

/-- A text without blanks is not trimmed. -/
theorem trim_of_forall (h : ∀ c ∈ t, isBlank c = false) : trim t = t := by
  rw [trim]
  cases t with
  | nil => rfl
  | cons c t => rw [trimLeft_cons (h c (List.mem_cons_self ..)), trimRight_of_forall h]

/-- A name starts as a name does, and goes on with word characters. -/
theorem exists_of_isName (h : isName t = true) :
    ∃ c cs, t = c :: cs ∧ isNameStart c = true ∧ ∀ d ∈ c :: cs, isWordChar d = true := by
  match t, h with
  | c :: cs, h =>
    obtain ⟨hc, hcs⟩ := Bool.and_eq_true_iff.1 h
    exact ⟨c, cs, rfl, hc,
      List.forall_mem_cons.2 ⟨isWordChar_of_isNameStart hc, List.all_eq_true.1 hcs⟩⟩

theorem isWordChar_of_mem_name (h : isName t = true) : ∀ c ∈ t, isWordChar c = true := by
  obtain ⟨c, cs, rfl, -, hword⟩ := exists_of_isName h
  exact hword

/-- What is read as a name is one. -/
theorem isName_of_name? {name : Text} (h : name? t = some (name, rest)) : isName name = true := by
  match t with
  | c :: cs =>
    rw [name?] at h
    split at h
    · rename_i hc
      obtain ⟨rfl, -⟩ := Prod.mk.inj (Option.some.inj h)
      rw [isName, hc, Bool.true_and]
      exact List.all_takeWhile
    · cases h

/-- **A name is read again**, if what follows it cannot go on with it. -/
theorem name?_name_append {name : Text} (h : isName name = true)
    (hrest : ∀ c ∈ rest.head?, isWordChar c = false) :
    name? (name ++ rest) = some (name, rest) := by
  obtain ⟨c, cs, rfl, hc, hword⟩ := exists_of_isName h
  have hcs : ∀ d ∈ cs, isWordChar d = true := fun d hd => hword d (List.mem_cons_of_mem _ hd)
  have htake : rest.takeWhile isWordChar = [] ∧ rest.dropWhile isWordChar = rest := by
    cases rest with
    | nil => exact ⟨rfl, rfl⟩
    | cons d ds =>
      have hd : ¬isWordChar d = true := by
        rw [hrest d rfl]
        exact Bool.false_ne_true
      exact ⟨List.takeWhile_cons_of_neg hd, List.dropWhile_cons_of_neg hd⟩
  rw [List.cons_append, name?, if_pos hc, List.takeWhile_append_of_pos hcs,
    List.dropWhile_append_of_pos hcs, htake.1, htake.2, List.append_nil]

end Text

namespace Definition

/-- The rules for the parameters of a function. -/
structure AreParameters (fixed : List Text) (rest : Rest) : Prop where
  isName : ∀ p ∈ fixed, Text.isName p = true
  nodup : fixed.Nodup
  /-- A rest that has a name has one of its own. -/
  rest : ∀ n, rest = .named n → Text.isName n = true ∧ n ≠ restName ∧ n ∉ fixed

/-- The parameters as they are declared, one by one. -/
def declared (fixed : List Text) : Rest → List Text
  | .none => fixed
  | .anonymous => fixed ++ [dots]
  | .named n => fixed ++ [n ++ dots]

/-- The parameters that are read obey the rules. -/
theorem areParameters_of_readParameters {seen items fixed : List Text} {rest : Rest}
    (hseen : AreParameters seen .none) (h : readParameters seen items = .ok (fixed, rest)) :
    AreParameters fixed rest := by
  have hreverse {seen : List Text} (hseen : AreParameters seen .none) (rest : Rest)
      (hrest : ∀ n, rest = .named n → Text.isName n = true ∧ n ≠ restName ∧ n ∉ seen) :
      AreParameters seen.reverse rest :=
    ⟨fun p hp => hseen.isName p (List.mem_reverse.1 hp), List.nodup_reverse.2 hseen.nodup,
      fun n hn => by rw [List.mem_reverse]; exact hrest n hn⟩
  have hcons {seen : List Text} {p : Text} (hseen : AreParameters seen .none)
      (hp : Text.isName p = true) (hmem : p ∉ seen) : AreParameters (p :: seen) .none :=
    ⟨List.forall_mem_cons.2 ⟨hp, hseen.isName⟩, List.nodup_cons.2 ⟨hmem, hseen.nodup⟩,
      fun _ h => nomatch h⟩
  fun_induction readParameters seen items with
  | case1 | case2 =>
    obtain ⟨rfl, rfl⟩ := Prod.mk.inj (Except.ok.inj h)
    exact hreverse hseen _ fun _ h => nomatch h
  | case3 | case4 | case7 | case8 => cases h
  | case5 seen item items _ _ name hname hrest =>
    obtain ⟨rfl, rfl⟩ := Prod.mk.inj (Except.ok.inj h)
    simp only [Bool.or_eq_true, Bool.not_eq_true', List.contains_iff_mem, not_or,
      Bool.not_eq_false] at hname
    exact hreverse (hcons hseen hname.1 hname.2) _ fun _ h => nomatch h
  | case6 seen item items _ _ name hname hrest =>
    obtain ⟨rfl, rfl⟩ := Prod.mk.inj (Except.ok.inj h)
    simp only [Bool.or_eq_true, Bool.not_eq_true', List.contains_iff_mem, not_or,
      Bool.not_eq_false] at hname
    refine hreverse hseen _ ?_
    rintro n ⟨rfl⟩
    exact ⟨hname.1, hrest, hname.2⟩
  | case9 seen item items _ _ hname hmem ih =>
    rw [Bool.not_eq_true', Bool.not_eq_false] at hname
    rw [List.contains_iff_mem] at hmem
    exact ih (hcons hseen hname hmem) h

theorem areParameters_nil : AreParameters [] .none :=
  ⟨fun _ h => absurd h List.not_mem_nil, List.nodup_nil, fun _ h => nomatch h⟩

/-- What reads as a list of parameters declares parameters. -/
theorem areParameters_of_parametersOf {inner : Text} {fixed : List Text} {rest : Rest}
    (h : parametersOf inner = .ok (fixed, rest)) : AreParameters fixed rest := by
  rw [parametersOf] at h
  split at h
  · obtain ⟨rfl, rfl⟩ := Prod.mk.inj (Except.ok.inj h)
    exact areParameters_nil
  · exact areParameters_of_readParameters areParameters_nil h

/-- A name does not end with dots. -/
theorem not_isSuffixOf_dots {p : Text} (h : Text.isName p = true) : dots.isSuffixOf p = false := by
  rw [Bool.eq_false_iff, ne_eq, List.isSuffixOf_iff_suffix]
  intro hsuffix
  have hdot := Text.isWordChar_of_mem_name h '.' (hsuffix.subset (by decide))
  exact absurd hdot (by decide)

/-- Names that differ are read one by one. -/
theorem readParameters_append {fixed : List Text} (hnames : ∀ p ∈ fixed, Text.isName p = true)
    (hnodup : fixed.Nodup) (seen items : List Text) (hseen : ∀ p ∈ fixed, p ∉ seen) :
    readParameters seen (fixed ++ items) = readParameters (fixed.reverse ++ seen) items := by
  induction fixed generalizing seen with
  | nil => rfl
  | cons p fixed ih =>
    obtain ⟨hp, hnames⟩ := List.forall_mem_cons.1 hnames
    obtain ⟨hmem, hnodup⟩ := List.nodup_cons.1 hnodup
    obtain ⟨hpseen, hseen⟩ := List.forall_mem_cons.1 hseen
    have hdots : p ≠ dots := by
      rintro rfl
      exact absurd hp (by decide)
    have hnext : ∀ q ∈ fixed, q ∉ p :: seen := by
      intro q hq hcons
      rcases List.mem_cons.1 hcons with rfl | hqseen
      · exact hmem hq
      · exact hseen q hq hqseen
    rw [List.cons_append, readParameters, if_neg hdots, not_isSuffixOf_dots hp, Bool.false_and,
      if_neg Bool.false_ne_true, if_neg (by simp [hp]), if_neg (by simpa using hpseen),
      ih hnames hnodup _ hnext, List.reverse_cons, List.append_assoc, List.singleton_append]

/-- **Parameters are read again as they are declared.** -/
theorem readParameters_declared {fixed : List Text} {rest : Rest} (h : AreParameters fixed rest) :
    readParameters [] (declared fixed rest) = .ok (fixed, rest) := by
  have hfixed (items : List Text) :
      readParameters [] (fixed ++ items) = readParameters fixed.reverse items := by
    rw [readParameters_append h.isName h.nodup _ _ fun _ _ => List.not_mem_nil, List.append_nil]
  cases rest with
  | none =>
    have := hfixed []
    rw [List.append_nil] at this
    rw [declared, this, readParameters, List.reverse_reverse]
  | anonymous =>
    rw [declared, hfixed, readParameters, if_pos rfl, List.isEmpty_nil, if_pos rfl,
      List.reverse_reverse]
  | named n =>
    obtain ⟨hname, hown, hmem⟩ := h.rest n rfl
    have hdots : n ++ dots ≠ dots := by
      intro hnil
      obtain rfl : n = [] := by simpa using hnil
      cases hname
    have hsuffix : dots.isSuffixOf (n ++ dots) = true :=
      List.isSuffixOf_iff_suffix.2 (List.suffix_append n dots)
    have htrim : Text.trimRight ((n ++ dots).take ((n ++ dots).length - dots.length)) = n := by
      rw [List.length_append, Nat.add_sub_cancel, List.take_left]
      exact Text.trimRight_of_forall fun c hc =>
        isBlank_of_isWordChar (Text.isWordChar_of_mem_name hname c hc)
    rw [declared, hfixed, readParameters, if_neg hdots, hsuffix, List.isEmpty_nil, Bool.and_self,
      if_pos rfl, htrim]
    simp [hname, hmem, hown]

/-- The head of a definition obeys the rules for names. -/
structure IsDeclared (d : Definition) : Prop where
  name : Text.isName d.name = true
  shape : d.shape = .object ∨
    ∃ fixed rest, d.shape = .function fixed rest ∧ AreParameters fixed rest

/-- **Whatever is read obeys the rules**, and its replacement is made of the tokens of a
text. -/
theorem isDeclared_of_read {operand : Text} {file : Option String} {line : Option Int}
    {d : Definition} (h : read operand file line = .ok d) :
    d.IsDeclared ∧ ∃ replacement, d.body = bodyOf replacement := by
  unfold read at h
  split at h
  · cases h
  · rename_i name tail hname
    split at h
    · cases h
    · rename_i inner replacement _
      cases hp : parametersOf inner with
      | error e => rw [hp] at h; cases h
      | ok p =>
        rw [hp] at h
        obtain rfl := Except.ok.inj h
        exact ⟨⟨Text.isName_of_name? hname,
          .inr ⟨p.1, p.2, rfl, areParameters_of_parametersOf hp⟩⟩, replacement, rfl⟩
  · rename_i name replacement _ hname
    obtain rfl := Except.ok.inj h
    exact ⟨⟨Text.isName_of_name? hname, .inl rfl⟩, replacement, rfl⟩

/-- What stands between the brackets of a head. -/
theorem mem_declared {fixed : List Text} {rest : Rest} (h : AreParameters fixed rest) {item : Text}
    (hitem : item ∈ declared fixed rest) :
    item ≠ [] ∧ ∀ c ∈ item, isWordChar c = true ∨ c = '.' := by
  have hname {p : Text} (hp : Text.isName p = true) :
      p ≠ [] ∧ ∀ c ∈ p, isWordChar c = true ∨ c = '.' := by
    refine ⟨?_, fun c hc => .inl (Text.isWordChar_of_mem_name hp c hc)⟩
    rintro rfl
    cases hp
  have hdots (c : Char) (hc : c ∈ dots) : isWordChar c = true ∨ c = '.' :=
    .inr (List.eq_of_mem_replicate (n := 3) hc)
  cases rest with
  | none => exact hname (h.isName item hitem)
  | anonymous =>
    rcases List.mem_append.1 hitem with hitem | hitem
    · exact hname (h.isName item hitem)
    · obtain rfl := List.mem_singleton.1 hitem
      exact ⟨List.cons_ne_nil _ _, hdots⟩
  | named n =>
    rcases List.mem_append.1 hitem with hitem | hitem
    · exact hname (h.isName item hitem)
    · obtain rfl := List.mem_singleton.1 hitem
      refine ⟨by simp [dots], fun c hc => ?_⟩
      exact (List.mem_append.1 hc).elim ((hname (h.rest n rfl).1).2 c) (hdots c)

/-- No character between the brackets of a head is a blank or ends a part of it. -/
theorem mem_joinWith_declared {fixed : List Text} {rest : Rest} (h : AreParameters fixed rest)
    {c : Char} (hc : c ∈ Text.joinWith [','] (declared fixed rest)) :
    isBlank c = false ∧ c ≠ ')' ∧ c ≠ '=' := by
  have hword {c : Char} (hc : isWordChar c = true) : isBlank c = false ∧ c ≠ ')' ∧ c ≠ '=' := by
    refine ⟨isBlank_of_isWordChar hc, ?_, ?_⟩ <;> rintro rfl <;> exact absurd hc (by decide)
  rcases Text.mem_joinWith hc with hc | ⟨item, hitem, hc⟩
  · obtain rfl := List.mem_singleton.1 hc
    decide
  · rcases (mem_declared h hitem).2 c hc with hc | rfl
    · exact hword hc
    · decide

/-- **A list of parameters is read again.** -/
theorem parametersOf_joinWith {fixed : List Text} {rest : Rest} (h : AreParameters fixed rest) :
    parametersOf (Text.joinWith [','] (declared fixed rest)) = .ok (fixed, rest) := by
  have hblank : ∀ c ∈ Text.joinWith [','] (declared fixed rest), isBlank c = false :=
    fun c hc => (mem_joinWith_declared h hc).1
  have hcomma : ∀ item ∈ declared fixed rest, ',' ∉ item := by
    intro item hitem hmem
    exact absurd ((mem_declared h hitem).2 ',' hmem) (by decide)
  have htrim : (declared fixed rest).map Text.trim = declared fixed rest := by
    refine (List.map_congr_left (g := id) fun item hitem => ?_).trans (List.map_id _)
    refine Text.trim_of_forall fun c hc => ?_
    rcases (mem_declared h hitem).2 c hc with hword | rfl
    · exact isBlank_of_isWordChar hword
    · decide
  rw [parametersOf, Text.trim_of_forall hblank]
  by_cases hempty : declared fixed rest = []
  · have hread := readParameters_declared h
    rw [hempty] at hread ⊢
    exact hread
  · have hsplit := Text.split_joinWith hempty hcomma
    have hinner : ¬(Text.joinWith [','] (declared fixed rest)).isEmpty = true := by
      intro hnil
      rw [List.isEmpty_iff.1 hnil, Text.split] at hsplit
      have hmem : [] ∈ declared fixed rest := by
        rw [← hsplit]
        exact List.mem_singleton.2 rfl
      exact (mem_declared h hmem).1 rfl
    rw [if_neg hinner, hsplit, htrim, readParameters_declared h]

theorem signature_of_object {d : Definition} (h : d.shape = .object) : d.signature = d.name := by
  rw [signature, h]

/-- The signature of a function: its name, and its parameters in brackets. -/
theorem signature_of_function {d : Definition} {fixed : List Text} {rest : Rest}
    (h : d.shape = .function fixed rest) :
    d.signature = d.name ++ '(' :: (Text.joinWith [','] (declared fixed rest) ++ [')']) := by
  rw [signature, h]
  cases rest <;> simp [declared, dots]

/-- **The head of a definition is read again**, together with whatever stands behind it. -/
theorem read_signature {d : Definition} (h : d.IsDeclared) (replacement : Text) :
    read (d.signature ++ ' ' :: replacement) =
      .ok { name := d.name, shape := d.shape, body := bodyOf (' ' :: replacement) } := by
  have htrim (rest : Text) : Text.trimLeft (d.name ++ rest) = d.name ++ rest := by
    obtain ⟨c, cs, hname, -, hword⟩ := Text.exists_of_isName h.name
    rw [hname]
    exact Text.trimLeft_cons (isBlank_of_isWordChar (hword c (List.mem_cons_self ..))) _
  have hspace : ∀ c ∈ (' ' :: replacement).head?, isWordChar c = false := by
    rintro c ⟨rfl⟩
    decide
  have hbracket (tail : Text) : ∀ c ∈ ('(' :: tail).head?, isWordChar c = false := by
    rintro c ⟨rfl⟩
    decide
  rcases h.shape with hshape | ⟨fixed, rest, hshape, hparams⟩
  · rw [signature_of_object hshape, read, htrim, Text.name?_name_append h.name hspace, hshape]
    rfl
  · have hclose : ')' ∉ Text.joinWith [','] (declared fixed rest) :=
      fun hmem => (mem_joinWith_declared hparams hmem).2.1 rfl
    rw [signature_of_function hshape, List.append_assoc, List.cons_append, List.append_assoc,
      List.singleton_append, read, htrim, Text.name?_name_append h.name (hbracket _)]
    simp only [Text.cut_append hclose, parametersOf_joinWith hparams, hshape]
    rfl

/-- **A definition is read again in the form of the command line.** -/
theorem readAssignment_signature {d : Definition} (h : d.IsDeclared) (replacement : Text) :
    readAssignment (d.signature ++ '=' :: replacement) =
      .ok { name := d.name, shape := d.shape, body := bodyOf (' ' :: replacement) } := by
  have hword {c : Char} (hc : isWordChar c = false) : c ∉ d.name := by
    intro hmem
    rw [Text.isWordChar_of_mem_name h.name c hmem] at hc
    cases hc
  have hhead : '=' ∉ d.signature ∧ (Text.cut '(' d.signature).1 = d.name := by
    rcases h.shape with hshape | ⟨fixed, rest, hshape, hparams⟩
    · rw [signature_of_object hshape, Text.cut_of_notMem (hword (by decide))]
      exact ⟨hword (by decide), rfl⟩
    · rw [signature_of_function hshape, Text.cut_append (hword (by decide))]
      refine ⟨?_, rfl⟩
      rw [List.mem_append, List.mem_cons, List.mem_append, List.mem_singleton]
      rintro (hmem | hmem | hmem | hmem)
      · exact hword (by decide) hmem
      · exact absurd hmem (by decide)
      · exact (mem_joinWith_declared hparams hmem).2.2 rfl
      · exact absurd hmem (by decide)
  rw [readAssignment, Text.cut_append hhead.1]
  dsimp only
  rw [hhead.2, if_pos h.name, Option.getD_some, read_signature h]

end Definition

end DevicetreePrep
