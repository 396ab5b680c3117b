/-
# Strings that are made by expansion

Expansion makes a string literal of an argument behind `#`, and of the name of the
current file.  Either is read back as one closed literal that stands for what it was made
of: for the file, its name; for an argument, the words of its items with a space between
any two of them (`IsLiteralFor`).

Inside of the quotes every stretch that is written goes on with the literal and stands for
a text of its own (`Encodes`).  Literals are written with their quotes and backslashes
escaped (`encodes_escape`); the other tokens have neither of them, except for a backslash
that stands alone (`ne_of_mem_text`).  So the string is put together from stretches of
both kinds and from spaces (`encodes_stringizeFrom`).
-/

import DevicetreePrep.Proofs.Expansion.Block
import DevicetreePrep.Proofs.Token.Respacing

namespace DevicetreePrep

namespace Lexeme

/-- Only literals have a double quote or a backslash in them, apart from a backslash that
stands alone. -/
theorem ne_of_mem_text {here : Nat} {c : Char} {cs : Text} (hgap : Gap.startsAt (c :: cs) = false)
    (hstring : (read here c cs).kind ≠ .stringLiteral) (hchar : (read here c cs).kind ≠ .charConst)
    (hslash : (read here c cs).kind = .punctuator → (read here c cs).text ≠ ['\\']) :
    ∀ d ∈ (read here c cs).text, d ≠ '"' ∧ d ≠ '\\' := by
  rw [read_of_not_startsAt hgap] at hstring hchar hslash ⊢
  cases hl : literal? here (c :: cs) with
  | some l =>
    simp only [hl] at hstring hchar
    obtain ⟨_, -, rfl⟩ := Option.map_eq_some_iff.1 hl
    dsimp only at hstring hchar
    split at hstring <;> simp_all
  | none =>
    have hc := ne_quote_of_literal?_eq_none hl
    simp only [hl] at hslash ⊢
    split
    · rename_i hnumber
      have hfirst : c ≠ '\\' := by
        rintro rfl
        rw [isNumberStart.eq_2 _ _ fun _ _ h => absurd h (by decide)] at hnumber
        exact absurd hnumber (by decide)
      intro d hd
      rcases List.mem_cons.1 hd with rfl | hd
      · exact ⟨hc.1, hfirst⟩
      · rcases isNumberPart_of_mem hd with hpart | rfl | rfl
        · constructor <;> rintro rfl <;> exact absurd hpart (by decide)
        · decide
        · decide
    · split
      · rename_i hword
        have hfirst : c ≠ '\\' := by
          rintro rfl
          exact absurd hword (by decide)
        intro d hd
        rcases List.mem_cons.1 hd with rfl | hd
        · exact ⟨hc.1, hfirst⟩
        · have hd := List.all_eq_true.1 List.all_takeWhile d hd
          constructor <;> rintro rfl <;> exact absurd hd (by decide)
      · rename_i hnumber hword
        rw [if_neg hnumber, if_neg hword] at hslash
        dsimp only at hslash ⊢
        have hlong : ∀ p ∈ triples ++ pairs, ∀ d ∈ p, d ≠ '"' ∧ d ≠ '\\' := by
          simp [triples, pairs]
        rcases punctuator_cases c cs with hshort | hmem
        · rw [hshort] at hslash ⊢
          intro d hd
          obtain rfl := List.mem_singleton.1 hd
          exact ⟨hc.1, fun h => hslash rfl (h ▸ rfl)⟩
        · exact hlong _ hmem

end Lexeme

namespace Expansion

/-- The text without the backslashes that hide a backslash or a double quote. -/
def unescape : Text → Text
  | '\\' :: '\\' :: t => '\\' :: unescape t
  | '\\' :: '"' :: t => '"' :: unescape t
  | c :: t => c :: unescape t
  | [] => []

/-- The text `s` is a string literal, and nothing else, and it stands for `t`: between its
quotes, `t` is what comes of undoing the escapes. -/
def IsLiteralFor (s t : Text) : Prop :=
  lexSingle? s = some ⟨.stringLiteral, s, 0⟩ ∧
    ∃ inner, s = '"' :: (inner ++ ['"']) ∧ unescape inner = t

/-- Inside of a string literal `s` neither closes it nor hides what follows, and it stands
for `t`. -/
structure Encodes (s t : Text) : Prop where
  quotedWidth_append : ∀ rest, Lexeme.quotedWidth '"' (s ++ rest) =
    ((Lexeme.quotedWidth '"' rest).1 + s.length, (Lexeme.quotedWidth '"' rest).2)
  unescape_append : ∀ rest, unescape (s ++ rest) = t ++ unescape rest

namespace Encodes

variable {s s' t t' : Text}

theorem nil : Encodes [] [] :=
  ⟨fun _ => rfl, fun _ => rfl⟩

/-- Encodings in a row encode the texts in a row. -/
theorem append (h : Encodes s t) (h' : Encodes s' t') : Encodes (s ++ s') (t ++ t') := by
  constructor
  · intro rest
    rw [List.append_assoc, h.quotedWidth_append, h'.quotedWidth_append, List.length_append]
    exact Prod.ext (by dsimp only; omega) rfl
  · intro rest
    rw [List.append_assoc, h.unescape_append, h'.unescape_append, List.append_assoc]

/-- A character that is neither a quote nor a backslash stands for itself. -/
theorem char {c : Char} (h : c ≠ '"' ∧ c ≠ '\\') : Encodes [c] [c] := by
  constructor
  · intro rest
    rw [List.singleton_append, Lexeme.quotedWidth.eq_3 _ _ _ fun _ _ hc => absurd hc h.2,
      if_neg h.1]
    rfl
  · intro rest
    rw [List.singleton_append, unescape.eq_3 _ _ (fun _ hc => absurd hc h.2)
      fun _ hc => absurd hc h.2]
    rfl

/-- A text without quotes and backslashes is its own encoding. -/
theorem of_forall {t : Text} (h : ∀ c ∈ t, c ≠ '"' ∧ c ≠ '\\') : Encodes t t := by
  induction t with
  | nil => exact nil
  | cons c t ih =>
    obtain ⟨hc, ht⟩ := List.forall_mem_cons.1 h
    exact (char hc).append (ih ht)

end Encodes

/-- **Any text stands for itself once it is escaped.** -/
theorem encodes_escape (t : Text) : Encodes (escape t) t := by
  have hhidden (c : Char) (hc : c = '\\' ∨ c = '"') : Encodes ['\\', c] [c] := by
    rcases hc with rfl | rfl <;> exact ⟨fun _ => rfl, fun _ => rfl⟩
  induction t with
  | nil => exact .nil
  | cons c t ih =>
    have hcons : escape (c :: t) =
        (if c = '\\' || c = '"' then ['\\', c] else [c]) ++ escape t :=
      List.flatMap_cons
    rw [hcons]
    refine Encodes.append (t := [c]) ?_ ih
    split
    · rename_i hc
      exact hhidden c (by simpa using hc)
    · rename_i hc
      simp only [Bool.or_eq_true, decide_eq_true_eq, not_or] at hc
      exact .char hc.symm

/-- **A stretch that goes on with a literal makes up one, between two quotes.** -/
theorem Encodes.isLiteralFor {s t : Text} (h : Encodes s t) :
    IsLiteralFor ('"' :: (s ++ ['"'])) t := by
  have hwidth : Lexeme.quotedWidth '"' (s ++ ['"']) = (s.length + 1, true) := by
    rw [h.quotedWidth_append]
    exact Prod.ext (Nat.add_comm ..) rfl
  have hread : Lexeme.read 0 '"' (s ++ ['"']) =
      { kind := .stringLiteral, text := '"' :: (s ++ ['"']), width := s.length + 2 } := by
    have hlength : (s ++ ['"']).length = s.length + 1 := by simp
    rw [Lexeme.read_of_not_startsAt rfl,
      ← List.nil_append ('"' :: (s ++ ['"'])), @Lexeme.literal?_eq 0 [] _ '"' rfl, hwidth]
    dsimp only
    rw [← hlength, List.take_length, hlength]
    simp only [List.nil_append, List.length_nil, if_true]
    congr 1
    omega
  have hrest : ('"' :: (s ++ ['"'])).drop (s.length + 2) = [] := by
    simp
  refine ⟨?_, s, rfl, ?_⟩
  · rw [lexSingle?, lexicalError?, lexicalErrorFrom?, tokenize, tokenizeFrom, hread]
    dsimp only
    rw [hrest, lexicalErrorFrom?, tokenizeFrom]
    rfl
  · have hs := h.unescape_append []
    rwa [List.append_nil, unescape, List.append_nil] at hs

/-! Arguments. -/

/-- The words that runs of items spell, those without items left out. -/
def wordsOf (runs : List (List Item)) : List Text :=
  (runs.filter (!·.isEmpty)).map fun run => render (run.map Item.token)

/-- What an argument says: the words between its white space, with one space between any
two of them. -/
def spokenText (is : List Item) : Text :=
  Text.joinWith [' '] (wordsOf (is.splitOnP Item.isWhite))

/-- The words, each of them behind a space. -/
def spacedWords (words : List Text) : Text :=
  words.flatMap (' ' :: ·)

/-- Joined by blanks, the words behind the first one have a blank in front of each. -/
theorem joinWith_cons_eq (word : Text) (words : List Text) :
    Text.joinWith [' '] (word :: words) = word ++ spacedWords words := by
  induction words generalizing word with
  | nil => exact (List.append_nil word).symm
  | cons next words ih =>
    have hjoin : Text.joinWith [' '] (word :: next :: words) =
        word ++ [' '] ++ Text.joinWith [' '] (next :: words) := rfl
    rw [hjoin, ih, spacedWords, spacedWords, List.flatMap_cons, List.append_assoc]
    rfl

/-- What items say behind others, of which some were written already unless these are the
`first`; `spaced` says whether white space came between. -/
def spokenFrom (spaced first : Bool) (is : List Item) : Text :=
  if first then spokenText is
  else if spaced then spacedWords (wordsOf (is.splitOnP Item.isWhite))
  else match is.splitOnP Item.isWhite with
    | [] => []
    | run :: runs => render (run.map Item.token) ++ spacedWords (wordsOf runs)

/-- White space is spoken as a blank in front of the next word. -/
theorem spokenFrom_of_isWhite {i : Item} (hi : i.isWhite = true) (spaced first : Bool)
    (is : List Item) : spokenFrom spaced first (i :: is) = spokenFrom true first is := by
  have hsplit : (i :: is).splitOnP Item.isWhite = [] :: is.splitOnP Item.isWhite := by
    rw [List.splitOnP_cons_eq_if_modifyHead, if_pos hi]
  have hwords : wordsOf ((i :: is).splitOnP Item.isWhite) =
      wordsOf (is.splitOnP Item.isWhite) := by
    rw [hsplit]
    rfl
  rw [spokenFrom, spokenFrom, spokenText, spokenText, hwords, hsplit]
  cases first <;> cases spaced <;> rfl

/-- Any other item is spoken as its text, behind a blank if white space came before it. -/
theorem spokenFrom_of_not_isWhite {i : Item} (hi : i.isWhite = false) (spaced first : Bool)
    (is : List Item) :
    spokenFrom spaced first (i :: is) =
      (if spaced && !first then [' '] else []) ++ i.token.text ++ spokenFrom false false is := by
  obtain ⟨run, runs, hruns⟩ :=
    List.exists_cons_of_ne_nil (List.splitOnP_ne_nil Item.isWhite is)
  have hsplit : (i :: is).splitOnP Item.isWhite = (i :: run) :: runs := by
    rw [List.splitOnP_cons_eq_if_modifyHead, if_neg (Bool.eq_false_iff.1 hi), hruns]
    rfl
  have hwords : wordsOf ((i :: run) :: runs) =
      (i.token.text ++ render (run.map Item.token)) :: wordsOf runs :=
    rfl
  have hrest : spokenFrom false false is =
      render (run.map Item.token) ++ spacedWords (wordsOf runs) := by
    rw [spokenFrom, hruns]
    rfl
  rw [spokenFrom, spokenText, hsplit, hwords, joinWith_cons_eq, hrest]
  cases first <;> cases spaced <;> simp [spacedWords, render]

/-- How an item is written into a string. -/
def Item.written (i : Item) : Text :=
  if i.token.kind = .stringLiteral || i.token.kind = .charConst then escape i.token.text
  else i.token.text

/-- **A token of a text is written as a stretch that stands for it**, unless it is a lone
backslash. -/
theorem Item.encodes_written {i : Item} {source : Text} (h : i.token ∈ tokenize source)
    (hwhite : i.isWhite = false) (hslash : i.isPunct ['\\'] = false) :
    Encodes i.written i.token.text := by
  rw [Item.written]
  split
  · exact encodes_escape i.token.text
  · rename_i hkind
    simp only [Bool.or_eq_true, decide_eq_true_eq, not_or] at hkind
    obtain ⟨here, c, cs, htoken⟩ := exists_read_of_mem_tokenizeFrom h
    rw [Item.isWhite] at hwhite
    rw [Item.isPunct, Token.isPunct] at hslash
    rw [htoken] at hkind hwhite hslash ⊢
    have hgap : Gap.startsAt (c :: cs) = false := by
      rw [Bool.eq_false_iff]
      intro hgap
      rw [Lexeme.read_of_startsAt hgap] at hwhite
      cases hwhite
    refine .of_forall (Lexeme.ne_of_mem_text hgap hkind.1 hkind.2 fun hpunct htext => ?_)
    simp [hpunct, htext] at hslash

/-- **What is written for the items of an argument stands for what they say.** -/
theorem encodes_stringizeFrom {is : List Item}
    (hread : ∀ i ∈ is, ∃ source, i.token ∈ tokenize source)
    (hslash : ∀ i ∈ is, i.isPunct ['\\'] = false) (spaced first : Bool) :
    Encodes (stringizeFrom spaced first is) (spokenFrom spaced first is) := by
  induction is generalizing spaced first with
  | nil =>
    have hnil : spokenFrom spaced first [] = [] := by
      cases first <;> cases spaced <;> rfl
    rw [hnil]
    exact .nil
  | cons i is ih =>
    obtain ⟨⟨source, hsource⟩, hread⟩ := List.forall_mem_cons.1 hread
    obtain ⟨hi, hslash⟩ := List.forall_mem_cons.1 hslash
    rw [stringizeFrom]
    cases hwhite : i.isWhite with
    | true =>
      have htext : i.token.text.isEmpty = false := by
        simpa using text_ne_nil_of_mem_tokenizeFrom hsource
      rw [if_pos rfl, spokenFrom_of_isWhite hwhite, htext, Bool.not_false, Bool.or_true]
      exact ih hread hslash true first
    | false =>
      rw [if_neg Bool.false_ne_true, spokenFrom_of_not_isWhite hwhite]
      have hspace : Encodes (if spaced && !first then [' '] else [])
          (if spaced && !first then [' '] else []) := by
        split
        · exact .char (by decide)
        · exact .nil
      exact (hspace.append (Item.encodes_written hsource hwhite hi)).append
        (ih hread hslash false false)

/-- **A string that expansion makes stands for what it is made of.**  Let an argument be of
tokens that were read from texts, without a lone backslash among them.  The literal made
of it is read back as one literal; with its quotes removed and its escapes undone it is
the words of the argument with one space between any two of them.  The literal for a text,
such as the name of a file, stands for that text. -/
theorem stringize_isLiteralFor (is : List Item)
    (hread : ∀ i ∈ is, ∃ source, i.token ∈ tokenize source)
    (hslash : ∀ i ∈ is, i.isPunct ['\\'] = false) :
    IsLiteralFor (stringize is) (spokenText is) ∧ ∀ f : Text, IsLiteralFor (quote f) f :=
  ⟨(encodes_stringizeFrom hread hslash false true).isLiteralFor,
    fun f => (encodes_escape f).isLiteralFor⟩

/-- An argument of two literals with white space around them, of which one has an escape and
the other one a quote. -/
def literalArgument : List Item :=
  Item.ofTokens (tokenize "\t\"q\\n\"  + u'\"' ".toList)

/-- Literals in an argument keep their quotes and their escapes. -/
theorem stringize_isLiteralFor_literals :
    (∀ i ∈ literalArgument, ∃ source, i.token ∈ tokenize source) ∧
      (∀ i ∈ literalArgument, i.isPunct ['\\'] = false) ∧
      stringize literalArgument = "\"\\\"q\\\\n\\\" + u'\\\"'\"".toList ∧
      IsLiteralFor (stringize literalArgument) "\"q\\n\" + u'\"'".toList ∧
      IsLiteralFor (quote "a\\b.dts".toList) "a\\b.dts".toList := by
  have hread : ∀ i ∈ literalArgument, ∃ source, i.token ∈ tokenize source := by
    intro i hi
    have hmem := List.mem_map_of_mem (f := Item.token) hi
    rw [literalArgument, Item.map_token_ofTokens] at hmem
    exact ⟨_, hmem⟩
  have hslash : ∀ i ∈ literalArgument, i.isPunct ['\\'] = false := by
    decide +kernel
  have hspoken : spokenText literalArgument = "\"q\\n\" + u'\"'".toList := by
    decide +kernel
  obtain ⟨hargument, htext⟩ := stringize_isLiteralFor literalArgument hread hslash
  rw [hspoken] at hargument
  exact ⟨hread, hslash, by decide +kernel, hargument, htext _⟩

end Expansion

end DevicetreePrep
