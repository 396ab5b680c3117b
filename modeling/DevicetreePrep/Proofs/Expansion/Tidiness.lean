/-
# White space stays in its place

A token is tidy if it is white space that is spelled by white space only, or another token
that does not end with white space (`Token.IsTidy`).  The tokens of a text are tidy, with one
exception: a literal that is never closed runs to the end of the text and takes the white
space there with it (`exists_tidy_tokenizeFrom`).  The replacement of a definition that was
read has no such literal, since it is trimmed before it is read
(`Definition.IsMade.isTidy`).

Whatever expansion makes is tidy too: strings, numbers, and the tokens that come of `##`.  A
literal at the end of a line that is never closed is not taken into an argument, because no
bracket can close the list behind it.  So all that a line expands to is tidy, but for that
literal (`isTidy_of_expand`).
-/

import DevicetreePrep.Proofs.Expansion.Anchors

namespace DevicetreePrep

/-- White space is spelled by white space, and nothing else ends with it. -/
structure Token.IsTidy (t : Token) : Prop where
  white : t.isWhite = true → ∀ c ∈ t.text, isSpace c = true
  solid : t.isWhite = false → ∀ c ∈ t.text.getLast?, isSpace c = false

/-- A literal, of characters or of a string. -/
def Token.isLiteral (t : Token) : Bool :=
  t.kind = .stringLiteral || t.kind = .charConst

namespace Token

/-- A literal is no white space. -/
theorem isWhite_of_isLiteral {t : Token} (h : t.isLiteral = true) : t.isWhite = false := by
  rw [Bool.eq_false_iff]
  intro hwhite
  rw [isWhite, decide_eq_true_eq] at hwhite
  rw [isLiteral, hwhite] at h
  cases h

theorem isTidy_of_spaces {s : Text} (h : ∀ c ∈ s, isSpace c = true) (offset : Nat) :
    IsTidy ⟨.whitespace, s, offset⟩ :=
  ⟨fun _ => h, fun hwhite => nomatch hwhite⟩

/-- A token without white space in its text is tidy. -/
theorem isTidy_of_solid {t : Token} (hwhite : t.isWhite = false)
    (h : ∀ c ∈ t.text, isSpace c = false) : t.IsTidy := by
  refine ⟨fun hwhite' => ?_, fun _ c hc => h c (List.mem_of_getLast? hc)⟩
  rw [hwhite] at hwhite'
  cases hwhite'

/-- A token that does not end with white space is tidy. -/
theorem isTidy_of_getLast? {t : Token} (hwhite : t.isWhite = false) {d : Char}
    (hlast : t.text.getLast? = some d) (hd : isSpace d = false) : t.IsTidy := by
  refine ⟨fun hwhite' => ?_, fun _ c hc => ?_⟩
  · rw [hwhite] at hwhite'
    cases hwhite'
  · rw [hlast] at hc
    exact Option.some.inj hc ▸ hd

end Token

namespace Lexeme

/-- A literal that is closed ends with its quote. -/
theorem getLast?_take_quotedWidth {quote : Char} {t : Text} (h : (quotedWidth quote t).2 = true) :
    (t.take (quotedWidth quote t).1).getLast? = some quote := by
  fun_induction quotedWidth quote t with
  | case1 => cases h
  | case2 d cs n closed hn ih =>
    rw [hn] at ih
    rw [List.take_succ_cons, List.take_succ_cons, List.getLast?_cons_cons, List.getLast?_cons, ih h]
    rfl
  | case3 cs => rfl
  | case4 c cs _ _ n closed hn ih =>
    rw [hn] at ih
    rw [List.take_succ_cons, List.getLast?_cons, ih h]
    rfl

/-- A token that is not left open is tidy. -/
theorem isTidy_read {here : Nat} {c : Char} {cs : Text} (h : (read here c cs).fault = none)
    (offset : Nat) : Token.IsTidy ⟨(read here c cs).kind, (read here c cs).text, offset⟩ := by
  cases hgap : Gap.startsAt (c :: cs) with
  | true =>
    rw [read_of_startsAt hgap]
    exact Token.isTidy_of_spaces (Gap.isSpace_of_mem_text here .space _) offset
  | false =>
    have hwhite : Token.isWhite ⟨(read here c cs).kind, (read here c cs).text, offset⟩ = false :=
      decide_eq_false (kind_of_not_startsAt hgap)
    have hc : isSpace c = false := by
      rw [Bool.eq_false_iff]
      intro hspace
      rw [Gap.startsAt_of_isSpace hspace] at hgap
      cases hgap
    have hread : read here c cs = _ := read_of_not_startsAt hgap
    have hsolid {d : Char} (hd : isWordChar d = true ∨ isNumberPart d = true) :
        isSpace d = false := by
      rw [Bool.eq_false_iff]
      intro hspace
      have hparts := parts_of_isSpace hspace
      rcases hd with hd | hd
      · rw [hparts.1] at hd
        cases hd
      · rw [hparts.2.1] at hd
        cases hd
    cases hl : literal? here (c :: cs) with
    | some l =>
      obtain ⟨letters, quote, inner, hsource, -, hquote, hwidth, hclosed⟩ := exists_of_literal? hl
      rw [hl] at hread
      rw [hread] at h
      have hlast : (read here c cs).text.getLast? = some quote := by
        rw [text_of_not_startsAt hgap, hread, hwidth, hsource, Nat.add_assoc,
          List.take_length_add_append, Nat.add_comm, List.take_succ_cons, List.getLast?_append,
          List.getLast?_cons, getLast?_take_quotedWidth (hclosed.1 h)]
        rfl
      refine Token.isTidy_of_getLast? hwhite hlast ?_
      rcases hquote with rfl | rfl <;> decide
    | none =>
      refine Token.isTidy_of_solid hwhite ?_
      dsimp only
      rw [hread, hl]
      dsimp only
      split
      · refine List.forall_mem_cons.2 ⟨hc, fun d hd => ?_⟩
        rcases isNumberPart_of_mem hd with hd | rfl | rfl
        · exact hsolid (.inr hd)
        · decide
        · decide
      · split
        · refine List.forall_mem_cons.2 ⟨hc, fun d hd => ?_⟩
          exact hsolid (.inl (List.all_eq_true.1 List.all_takeWhile d hd))
        · have hlong : ∀ p ∈ triples ++ pairs, ∀ d ∈ p, isSpace d = false := by
            simp [triples, pairs, isSpace]
          rcases punctuator_cases c cs with hshort | hmem
          · dsimp only
            rw [hshort]
            exact List.forall_mem_singleton.2 hc
          · exact hlong _ hmem

/-- What is left open is a literal, or a gap with a comment in it. -/
theorem isLiteral_of_fault {here : Nat} {c : Char} {cs : Text} {e : LexicalError}
    (h : (read here c cs).fault = some e) (hgap : Gap.startsAt (c :: cs) = false) (offset : Nat) :
    Token.isLiteral ⟨(read here c cs).kind, (read here c cs).text, offset⟩ = true := by
  rw [read_of_not_startsAt hgap] at h ⊢
  cases hl : literal? here (c :: cs) with
  | some l =>
    obtain ⟨⟨before, quote⟩, -, rfl⟩ := Option.map_eq_some_iff.1 hl
    dsimp only [Token.isLiteral]
    split <;> rfl
  | none =>
    rw [hl] at h
    dsimp only at h
    split at h
    · cases h
    · split at h <;> cases h

end Lexeme

/-- **The tokens of a text are tidy**, but for a literal at its end that is not closed. -/
theorem exists_tidy_tokenizeFrom (here : Nat) (text : Text) :
    ∃ front stop, tokenizeFrom here text = front ++ stop ∧ (∀ t ∈ front, t.IsTidy) ∧
      stop.length ≤ 1 ∧
        ∀ t ∈ stop, t.isLiteral = true ∧ t.text.getLast? = text.getLast? := by
  fun_induction tokenizeFrom here text with
  | case1 => exact ⟨[], [], rfl, List.forall_mem_nil _, Nat.zero_le _, List.forall_mem_nil _⟩
  | case2 here c cs l ih =>
    cases hfault : l.fault with
    | none =>
      obtain ⟨front, stop, htokens, hfront, hlength, hstop⟩ := ih
      refine ⟨⟨l.kind, l.text, here⟩ :: front, stop, congrArg (_ :: ·) htokens,
        List.forall_mem_cons.2 ⟨Lexeme.isTidy_read hfault here, hfront⟩, hlength, fun t ht => ?_⟩
      have hmore : ¬(c :: cs).length ≤ l.width := by
        intro hle
        rw [List.drop_of_length_le hle, tokenizeFrom] at htokens
        rw [(List.append_eq_nil_iff.1 htokens.symm).2] at ht
        cases ht
      rw [(hstop t ht).2, List.getLast?_drop, if_neg hmore]
      exact ⟨(hstop t ht).1, rfl⟩
    | some e =>
      have hdrop : (c :: cs).drop l.width = [] := Lexeme.drop_width_of_fault hfault
      rw [hdrop, tokenizeFrom]
      cases hgap : Gap.startsAt (c :: cs) with
      | true =>
        have hkind : l.kind = .whitespace := by
          simp only [l]
          rw [Lexeme.read_of_startsAt hgap]
        have hspaces : ∀ d ∈ l.text, isSpace d = true := by
          simp only [l]
          rw [Lexeme.read_of_startsAt hgap]
          exact Gap.isSpace_of_mem_text here .space _
        refine ⟨[⟨l.kind, l.text, here⟩], [], rfl, List.forall_mem_singleton.2 ?_, Nat.zero_le _,
          List.forall_mem_nil _⟩
        rw [hkind]
        exact Token.isTidy_of_spaces hspaces here
      | false =>
        have htext : l.text = c :: cs := by
          have htake : l.text = (c :: cs).take l.width := Lexeme.text_of_not_startsAt hgap
          rw [htake, List.take_of_length_le (List.drop_eq_nil_iff.1 hdrop)]
        exact ⟨[], [⟨l.kind, l.text, here⟩], rfl, List.forall_mem_nil _, Nat.le_refl _,
          List.forall_mem_singleton.2
            ⟨Lexeme.isLiteral_of_fault hfault hgap here, congrArg List.getLast? htext⟩⟩

/-- The tokens of a text that does not end with white space are tidy. -/
theorem isTidy_of_mem_tokenizeFrom {here : Nat} {text : Text}
    (htext : ∀ c ∈ text.getLast?, isSpace c = false) {t : Token}
    (ht : t ∈ tokenizeFrom here text) : t.IsTidy := by
  obtain ⟨front, stop, htokens, hfront, -, hstop⟩ := exists_tidy_tokenizeFrom here text
  rw [htokens, List.mem_append] at ht
  rcases ht with ht | ht
  · exact hfront t ht
  · obtain ⟨hliteral, hlast⟩ := hstop t ht
    refine ⟨fun hwhite => ?_, fun _ => hlast ▸ htext⟩
    rw [Token.isWhite_of_isLiteral hliteral] at hwhite
    cases hwhite

/-- A token that is read by itself is tidy. -/
theorem isTidy_of_lexSingle? {s : Text} {t : Token} (h : lexSingle? s = some t) : t.IsTidy := by
  obtain ⟨c, cs, rfl, -, hfault, -⟩ := exists_of_lexSingle? h
  rw [lexSingle?] at h
  split at h
  · rename_i u _ htokens
    split at h
    · cases h
    · obtain rfl := Option.some.inj h
      rw [tokenize, tokenizeFrom] at htokens
      rw [← (List.cons.inj htokens).1]
      exact Lexeme.isTidy_read hfault 0
  · cases h

theorem isTidy_quoted (s : Text) (offset : Nat) :
    Token.IsTidy ⟨.stringLiteral, '"' :: s ++ ['"'], offset⟩ :=
  Token.isTidy_of_getLast? rfl List.getLast?_concat (by decide)

/-- **The replacement of a definition that was made is tidy.** -/
theorem Definition.IsMade.isTidy {d : Definition} (h : d.IsMade) : ∀ t ∈ d.body, t.IsTidy := by
  rcases h with ⟨operand, file, line, hread⟩ | hbuiltin
  · obtain ⟨-, replacement, hbody⟩ := isDeclared_of_read hread
    rw [hbody]
    intro t ht
    refine isTidy_of_mem_tokenizeFrom (fun c hc => ?_) (mem_of_mem_trimWhite ht)
    have hblank := (isTrimmed_trimWhere isBlank replacement).last c hc
    rw [Bool.eq_false_iff] at hblank ⊢
    exact fun hspace => hblank (isBlank_of_isSpace hspace)
  · have hnone : ∀ d ∈ builtins, d.body = [] := by decide
    rw [hnone d hbuiltin]
    exact List.forall_mem_nil _

namespace Expansion

/-! What goes into a replacement. -/

/-- The tokens that stand in a part as they are. -/
def Part.tokens : Part → List Token
  | .token t => [t]
  | .commaRest comma _ => [comma]
  | _ => []

/-- The tokens of the parts come from the replacement. -/
theorem mem_body_of_mem_parts {d : Definition} {part : Part} (h : part ∈ parts d) :
    ∀ t ∈ part.tokens, t ∈ d.body := by
  have hroles : Corresponds d d id (fun _ p => ∀ t ∈ p.tokens, t ∈ d.body) d.body :=
    { isWhite := fun _ => rfl
      isIdent := fun _ => rfl
      isPunct := fun _ _ => rfl
      takes := fun _ _ _ => rfl
      tiesComma := fun _ _ _ => rfl
      paste := List.forall_mem_nil _
      token := fun _ ht _ => List.forall_mem_singleton.2 ht
      stringize := fun _ _ _ => List.forall_mem_nil _
      commaRest := fun _ hc _ _ _ _ => List.forall_mem_singleton.2 hc
      operand := fun _ _ _ => List.forall_mem_nil _
      parameter := fun _ _ _ => List.forall_mem_nil _ }
  have hparts := hroles.forall₂_partsFrom none (List.Subset.refl _)
  rw [List.map_id] at hparts
  exact List.forall₂_same.1 hparts part h

/-- What stands under a name is one of the pairs. -/
theorem mem_of_lookup {β : Type} {name : Text} {value : β} {ps : List (Text × β)}
    (h : ps.lookup name = some value) : (name, value) ∈ ps := by
  obtain ⟨before, behind, rfl, -⟩ := List.lookup_eq_some_iff.1 h
  exact List.mem_append_right _ (List.mem_cons_self ..)

/-- Arguments in a row have their items in the row, and the commas too. -/
theorem Call.mem_interleave {args : List (List Item)} {commas : List Item}
    (h : args.length = commas.length + 1) {i : Item}
    (hi : (∃ arg ∈ args, i ∈ arg) ∨ i ∈ commas) : i ∈ interleave args commas := by
  induction commas generalizing args with
  | nil =>
    have hrow : interleave args [] = args.flatten := by cases args <;> rfl
    rw [hrow, List.mem_flatten]
    exact hi.resolve_right List.not_mem_nil
  | cons comma commas ih =>
    obtain ⟨first, args, rfl⟩ := List.exists_cons_of_length_eq_add_one h
    have hrest := ih (Nat.succ.inj h)
    rw [interleave, List.mem_append, List.mem_cons]
    rcases hi with ⟨arg, hmem, hi⟩ | hi
    · rcases List.mem_cons.1 hmem with rfl | hmem
      · exact .inl hi
      · exact .inr (.inr (hrest (.inl ⟨arg, hmem, hi⟩)))
    · exact .inr ((List.mem_cons.1 hi).imp_right fun hi => hrest (.inr hi))

/-- The rest behind some arguments is made of their items and of the commas. -/
theorem Call.mem_of_mem_restOf {n : Nat} {args : List (List Item)} {commas : List Item} {i : Item}
    (h : i ∈ restOf n args commas) : (∃ arg ∈ args, i ∈ arg) ∨ i ∈ commas := by
  rw [restOf] at h
  split at h
  · cases h
  · rename_i arg others hdrop
    have hsubset : arg :: others ⊆ args := hdrop ▸ (List.drop_subset n args)
    rcases List.mem_append.1 h with hi | hi
    · exact .inl ⟨arg, hsubset (List.mem_cons_self ..), hi⟩
    · obtain ⟨⟨comma, other⟩, hpair, hi⟩ := List.mem_flatMap.1 hi
      obtain ⟨hcomma, hother⟩ := List.of_mem_zip hpair
      rcases List.mem_cons.1 hi with rfl | hi
      · exact .inr (List.drop_subset n commas hcomma)
      · exact .inl ⟨other, hsubset (List.mem_cons_of_mem _ hother), hi⟩

/-- What a parameter stands for was given between the brackets of the call. -/
theorem Arguments.mem_of_mem_get {fixed : List Text} {rest : Rest} {c : Call} {a : Arguments}
    {is inner : List Item} (hread : c.IsReadFrom is inner) (h : bind fixed rest c = .ok a)
    {name : Text} {i : Item} (hi : i ∈ a.get name) : i ∈ inner := by
  have hinner {j : Item} (hj : (∃ arg ∈ counted fixed c.args, j ∈ arg) ∨ j ∈ c.commas) :
      j ∈ inner := by
    rw [← hread.interleave_eq]
    refine Call.mem_interleave hread.length_args (hj.imp_left ?_)
    rintro ⟨arg, hmem, hj⟩
    rcases counted_cases fixed c.args with hcounted | ⟨-, hcounted, -⟩
    · exact ⟨arg, hcounted ▸ hmem, hj⟩
    · rw [hcounted] at hmem
      cases hmem
  rw [bind] at h
  split at h
  · cases h
  obtain rfl := Except.ok.inj h
  let bound := fixed.zip ((counted fixed c.args).map Item.trim)
  have hfixed (hi : i ∈ (bound.reverse.lookup name).getD []) : i ∈ inner := by
    cases hlookup : bound.reverse.lookup name with
    | none =>
      rw [hlookup] at hi
      cases hi
    | some value =>
      rw [hlookup] at hi
      have hmem := List.mem_reverse.1 (mem_of_lookup hlookup)
      obtain ⟨arg, harg, rfl⟩ := List.mem_map.1 (List.of_mem_zip hmem).2
      exact hinner (.inl ⟨arg, harg, mem_of_mem_trimWhere hi⟩)
  rw [get] at hi
  split at hi
  · rename_i hrest
    split at hrest
    · split at hi
      · obtain ⟨-, rfl⟩ := Prod.mk.inj (Option.some.inj hrest)
        exact hinner (Call.mem_of_mem_restOf (mem_of_mem_trimWhere hi))
      · exact hfixed hi
    · cases hrest
  · exact hfixed hi

/-- An expander makes tidy items of tidy items. -/
def Expander.IsTidy (expand : Expander) : Prop :=
  ∀ budget counter items, (∀ i ∈ items, i.token.IsTidy) →
    ∀ i ∈ (expand budget counter items).items, i.token.IsTidy

/-- All that was filled in so far is tidy. -/
structure Filling.IsTidy (f : Filling) : Prop where
  entries : ∀ p, Entry.piece p ∈ f.entries → p.token.IsTidy
  expanded : ∀ e ∈ f.expanded, ∀ p ∈ e.2, p.token.IsTidy

variable {ctx : Context} {expand : Expander} {d : Definition} {args : Arguments}

/-- Tidy pieces keep a filling tidy. -/
theorem Filling.IsTidy.add {f : Filling} (h : f.IsTidy) {ps : List Piece}
    (hps : ∀ p ∈ ps, p.token.IsTidy) : (f.add ps).IsTidy := by
  refine ⟨fun p hp => ?_, h.expanded⟩
  rw [Filling.add, List.mem_append, List.mem_reverse, List.mem_map] at hp
  rcases hp with ⟨q, hq, hqp⟩ | hp
  · exact Entry.piece.inj hqp ▸ hps q hq
  · exact h.entries p hp

/-- **A part is filled in with what is tidy.** -/
theorem Filling.IsTidy.step {f : Filling} (h : f.IsTidy) (hexpand : Expander.IsTidy expand)
    (budget : Int) (hargs : ∀ name, ∀ i ∈ args.get name, i.token.IsTidy) {part : Part}
    (hpart : ∀ t ∈ part.tokens, t.IsTidy) : (f.step expand budget args part).IsTidy := by
  have hpieces {is : List Item} (his : ∀ i ∈ is, i.token.IsTidy) :
      ∀ p ∈ is.map Item.toPiece, p.token.IsTidy := List.forall_mem_map.2 his
  have hspace {s : Text} (hs : ∀ c ∈ s, isSpace c = true) :
      Token.IsTidy { kind := .whitespace, text := s } := Token.isTidy_of_spaces hs 0
  cases part with
  | token t => exact h.add (List.forall_mem_singleton.2 (hpart t (List.mem_singleton_self t)))
  | paste =>
    refine ⟨fun p hp => ?_, h.expanded⟩
    exact h.entries p ((List.mem_cons.1 hp).resolve_left nofun)
  | stringize name => exact h.add (List.forall_mem_singleton.2 (isTidy_quoted _ 0))
  | commaRest comma name =>
    have hget := hargs name
    rw [Filling.step]
    split
    · exact h
    · exact h.add (List.forall_mem_cons.2 ⟨hpart comma (List.mem_singleton_self comma),
        List.forall_mem_cons.2 ⟨hspace (List.forall_mem_singleton.2 rfl), hpieces hget⟩⟩)
  | operand name =>
    have hget := hargs name
    rw [Filling.step]
    split
    · exact h.add (List.forall_mem_singleton.2 (hspace (List.forall_mem_nil _)))
    · exact h.add (hpieces hget)
  | parameter name =>
    rw [Filling.step]
    split
    · rename_i pieces hlookup
      exact h.add (h.expanded _ (mem_of_lookup hlookup))
    · have hnew := hpieces (hexpand (budget - f.spent) f.counter _ (hargs name))
      exact ⟨(h.add hnew).entries, List.forall_mem_cons.2 ⟨hnew, h.expanded⟩⟩

/-- **What is pasted is tidy.** -/
theorem isTidy_of_mem_pasteAll {entries : List Entry}
    (h : ∀ p, Entry.piece p ∈ entries → p.token.IsTidy) :
    ∀ p ∈ (pasteAll entries).1, p.token.IsTidy := by
  have hpair {left right : Piece} (hleft : left.token.IsTidy) (hright : right.token.IsTidy) :
      ∀ p ∈ (pastePair left right).1, p.token.IsTidy := by
    rw [pastePair]
    split
    · exact List.forall_mem_singleton.2 hright
    · split
      · exact List.forall_mem_singleton.2 hleft
      · split
        · rename_i t ht
          exact List.forall_mem_singleton.2 (isTidy_of_lexSingle? ht)
        · exact List.forall_mem_cons.2 ⟨hleft, List.forall_mem_singleton.2 hright⟩
  have hstep {s : Pasting} (hs : ∀ p ∈ s.out, p.token.IsTidy) {e : Entry}
      (he : ∀ p, Entry.piece p = e → p.token.IsTidy) : ∀ p ∈ (s.step e).out, p.token.IsTidy := by
    cases e with
    | paste =>
      rw [Pasting.step]
      split <;> exact hs
    | piece p =>
      rw [Pasting.step]
      split
      · rename_i left out _ hout
        rw [hout] at hs
        obtain ⟨hleft, hout⟩ := List.forall_mem_cons.1 hs
        intro q hq
        rcases List.mem_append.1 hq with hq | hq
        · exact hpair hleft (he p rfl) q (List.mem_reverse.1 hq)
        · exact hout q hq
      · exact List.forall_mem_cons.2 ⟨he p rfl, hs⟩
  have hfold (es : List Entry) (hes : ∀ p, Entry.piece p ∈ es → p.token.IsTidy) (s : Pasting)
      (hs : ∀ p ∈ s.out, p.token.IsTidy) : ∀ p ∈ (es.foldl Pasting.step s).out, p.token.IsTidy := by
    induction es generalizing s with
    | nil => exact hs
    | cons e es ih =>
      exact ih (fun p hp => hes p (List.mem_cons_of_mem _ hp)) _
        (hstep hs fun p hp => hes p (hp ▸ List.mem_cons_self ..))
  intro p hp
  exact hfold entries h {} (List.forall_mem_nil _) p
    (List.mem_reverse.1 (List.mem_filter.1 hp).1)

/-- **What a definition is replaced by is tidy**, if its arguments are. -/
theorem isTidy_of_substitute (hexpand : Expander.IsTidy expand) (hbody : ∀ t ∈ d.body, t.IsTidy)
    (hargs : ∀ name, ∀ i ∈ args.get name, i.token.IsTidy) {budget : Int}
    {counter counter' size spent : Nat} {i : Item} {taken items : List Item} {hide : List Text}
    {event : Event} {reports : List Report}
    (h : substitute expand budget counter d args i taken hide =
      .replace size items event spent counter' reports) : ∀ j ∈ items, j.token.IsTidy := by
  have hfold (ps : List Part) (hps : ∀ p ∈ ps, ∀ t ∈ p.tokens, t.IsTidy) (f : Filling)
      (hf : f.IsTidy) : (ps.foldl (Filling.step expand budget args) f).IsTidy := by
    induction ps generalizing f with
    | nil => exact hf
    | cons p ps ih =>
      obtain ⟨hp, hps⟩ := List.forall_mem_cons.1 hps
      exact ih hps _ (hf.step hexpand budget hargs hp)
  have hfilled := hfold (parts d) (fun p hp t ht => hbody t (mem_body_of_mem_parts hp t ht))
    { counter } ⟨fun _ hp => absurd hp List.not_mem_nil, List.forall_mem_nil _⟩
  rw [substitute] at h
  obtain ⟨-, rfl, -⟩ := Action.replace.inj h
  refine List.forall_mem_map.2 fun p hp => ?_
  exact isTidy_of_mem_pasteAll (fun q hq => hfilled.entries q (List.mem_reverse.1 hq)) p hp

/-- A builtin stands for something tidy. -/
theorem isTidy_builtinToken {t : Token} (ht : t.IsTidy) (counter : Nat) :
    (builtinToken ctx counter t).1.IsTidy := by
  have hdigits {s : Text} (hs : ∀ c ∈ s, c.isDigit = true ∨ c = '-') :
      Token.IsTidy { t with kind := .number, text := s } := by
    refine Token.isTidy_of_solid rfl fun c hc => ?_
    rw [Bool.eq_false_iff]
    intro hspace
    have hparts := (parts_of_isSpace hspace).2.2
    rcases hs c hc with hdigit | rfl
    · rw [isDigit_of_ascii hdigit] at hparts
      cases hparts
    · exact absurd hspace (by decide)
  have hnat (n : Nat) : ∀ c ∈ (toString n).toList, c.isDigit = true := by
    intro c hc
    rw [Nat.toString_eq_repr, Nat.repr, String.toList_ofList] at hc
    exact Nat.isDigit_of_mem_toDigits (by decide) (by decide) hc
  have hint (n : Int) : ∀ c ∈ (toString n).toList, c.isDigit = true ∨ c = '-' := by
    intro c hc
    cases n with
    | ofNat m => exact .inl (hnat m c hc)
    | negSucc m =>
      have hsign : toString (Int.negSucc m) = "-" ++ toString (m + 1) := rfl
      rw [hsign, String.toList_append, List.mem_append] at hc
      exact hc.symm.imp (hnat (m + 1) c) fun hc => by simpa using hc
  rw [builtinToken]
  split
  · exact hdigits (hint ctx.line)
  · split
    · exact hdigits fun c hc => .inl (hnat counter c hc)
    · split
      · exact isTidy_quoted _ t.offset
      · exact ht

/-! Expansion. -/

/-- The items are tidy, but for one of the items in `stop`, which may come last. -/
def TidyUpTo (stop items : List Item) : Prop :=
  ∃ front last, items = front ++ last ∧ (∀ i ∈ front, i.token.IsTidy) ∧ last.length ≤ 1 ∧
    last ⊆ stop

namespace TidyUpTo

variable {stop items : List Item}

theorem of_forall (h : ∀ i ∈ items, i.token.IsTidy) : TidyUpTo stop items :=
  ⟨items, [], (List.append_nil _).symm, h, Nat.zero_le _, List.nil_subset _⟩

/-- Items that are tidy up to a stop are tidy or part of the stop. -/
theorem isTidy_or_mem (h : TidyUpTo stop items) : ∀ i ∈ items, i.token.IsTidy ∨ i ∈ stop := by
  obtain ⟨front, last, rfl, hfront, -, hlast⟩ := h
  intro i hi
  exact (List.mem_append.1 hi).imp (hfront i) fun hi => hlast hi

/-- Items stay tidy up to the stop if some are dropped. -/
theorem drop (h : TidyUpTo stop items) (n : Nat) : TidyUpTo stop (items.drop n) := by
  obtain ⟨front, last, rfl, hfront, hlength, hlast⟩ := h
  refine ⟨front.drop n, last.drop (n - front.length), List.drop_append,
    fun i hi => hfront i (List.mem_of_mem_drop hi), ?_,
    List.Subset.trans (List.drop_subset _ _) hlast⟩
  rw [List.length_drop]
  omega

/-- Tidy items may be put in front. -/
theorem append {new : List Item} (hnew : ∀ i ∈ new, i.token.IsTidy) (h : TidyUpTo stop items) :
    TidyUpTo stop (new ++ items) := by
  obtain ⟨front, last, rfl, hfront, hlength, hlast⟩ := h
  refine ⟨new ++ front, last, (List.append_assoc ..).symm, fun i hi => ?_, hlength, hlast⟩
  exact (List.mem_append.1 hi).elim (hnew i) (hfront i)

/-- What stands before an item is tidy. -/
theorem of_append_cons {before behind : List Item} {i : Item}
    (h : TidyUpTo stop (before ++ i :: behind)) : ∀ j ∈ before, j.token.IsTidy := by
  obtain ⟨front, last, heq, hfront, hlength, -⟩ := h
  have hbefore : before <+: front := by
    refine List.prefix_of_prefix_length_le (List.prefix_append before (i :: behind))
      (heq ▸ List.prefix_append front last) ?_
    have := congrArg List.length heq
    simp only [List.length_append, List.length_cons] at this
    omega
  exact fun j hj => hfront j (hbefore.subset hj)

end TidyUpTo

/-- **A definition brings in what is tidy.** -/
theorem isTidy_of_invoke (htable : ∀ d ∈ ctx.table.entries, ∀ t ∈ d.body, t.IsTidy)
    (hexpand : Expander.IsTidy expand) (hd : d ∈ ctx.table.entries) {i : Item}
    (hi : i.token.IsTidy) {stop tail : List Item} (htail : TidyUpTo stop tail) {budget : Int}
    {counter counter' size spent : Nat} {items : List Item} {event : Event} {reports : List Report}
    (h : invoke ctx expand budget counter d i tail =
      .replace size items event spent counter' reports) : ∀ j ∈ items, j.token.IsTidy := by
  rw [invoke] at h
  split at h
  · obtain ⟨-, rfl, -⟩ := Action.replace.inj h
    exact List.forall_mem_singleton.2 (isTidy_builtinToken hi counter)
  · exact isTidy_of_substitute hexpand (htable d hd)
      (fun _ j hj => absurd hj List.not_mem_nil) h
  · split at h
    · cases h
    · cases h
    · rename_i c hc
      split at h
      · cases h
      · rename_i args hargs
        obtain ⟨inner, hread⟩ := Call.isReadFrom_of_following hc
        obtain ⟨white, opening, rest, hopens, -⟩ := hread.consumed
        have hsplit : tail = (white ++ opening :: inner) ++ c.close :: rest := by
          rw [hopens.eq]
          simp
        have hinner : ∀ j ∈ inner, j.token.IsTidy := fun j hj =>
          (hsplit ▸ htail).of_append_cons j
            (List.mem_append_right _ (List.mem_cons_of_mem _ hj))
        exact isTidy_of_substitute hexpand (htable d hd)
          (fun _ j hj => hinner j (Arguments.mem_of_mem_get hread hargs hj)) h

/-- **Items that are tidy expand to items that are tidy**, up to one that may come last and
is no identifier. -/
theorem isTidy_of_expandFrom (htable : ∀ d ∈ ctx.table.entries, ∀ t ∈ d.body, t.IsTidy)
    (hexpand : Expander.IsTidy expand) {stop : List Item}
    (hstop : ∀ i ∈ stop, i.token.isIdent = false) (budget : Int) {done : Outcome}
    (hdone : ∀ i ∈ done.items, i.token.IsTidy ∨ i ∈ stop) {pending : List Item}
    (hpending : TidyUpTo stop pending) :
    ∀ i ∈ (expandFrom ctx expand budget done pending).items, i.token.IsTidy ∨ i ∈ stop := by
  fun_induction expandFrom ctx expand budget done pending with
  | case1 budget done => exact fun i hi => hdone i (List.mem_reverse.1 hi)
  | case2 budget done i tail hi ih | case6 budget done i tail d hi hb hz ih =>
    exact ih (List.forall_mem_cons.2 ⟨hpending.isTidy_or_mem i (List.mem_cons_self ..), hdone⟩)
      (hpending.drop 1)
  | case5 done i tail d hi hb ih =>
    exact ih (List.forall_mem_cons.2 ⟨hpending.isTidy_or_mem i (List.mem_cons_self ..), hdone⟩)
      (hpending.drop 1)
  | case3 budget done i tail d hi hb size reports ha ih =>
    refine ih (fun j hj => ?_) ((hpending.drop 1).drop size)
    rcases List.mem_append.1 hj with hj | hj
    · refine hpending.isTidy_or_mem j ?_
      exact (List.cons_subset_cons i (List.take_subset size tail)) (List.mem_reverse.1 hj)
    · exact hdone j hj
  | case4 budget done i tail d hi hb size items event spent counter reports ha ih =>
    have htidy : i.token.IsTidy := by
      refine (hpending.isTidy_or_mem i (List.mem_cons_self ..)).resolve_right fun hmem => ?_
      exact Bool.false_ne_true ((hstop i hmem).symm.trans (isIdent_of_candidate? hi))
    have hnew := isTidy_of_invoke htable hexpand (mem_of_candidate? hi).1 htidy (hpending.drop 1) ha
    exact ih hdone (((hpending.drop 1).drop size).append hnew)

/-- **Each level makes tidy items of tidy items**, over a table with tidy bodies. -/
theorem isTidy_expandWithin (htable : ∀ d ∈ ctx.table.entries, ∀ t ∈ d.body, t.IsTidy)
    (levels : Nat) : Expander.IsTidy (expandWithin ctx levels) := by
  induction levels with
  | zero => exact fun _ _ _ h => h
  | succ levels ih =>
    intro budget counter items h i hi
    have hstart : ∀ i ∈ Outcome.items { counter }, i.token.IsTidy ∨ i ∈ [] :=
      List.forall_mem_nil _
    have hall := isTidy_of_expandFrom htable ih (List.forall_mem_nil _) budget hstart
      (.of_forall h) i hi
    exact hall.resolve_right List.not_mem_nil

/-- **A line expands to items that are tidy**, but for a literal of the line that is never
closed. -/
theorem isTidy_of_expand (htable : ∀ d ∈ ctx.table.entries, ∀ t ∈ d.body, t.IsTidy)
    (counter : Nat) (text : Text) :
    ∀ i ∈ (Expansion.expand ctx counter (tokenize text)).items,
      i.token.IsTidy ∨ i.produced = false ∧ i.token.isLiteral = true := by
  obtain ⟨front, stop, htokens, hfront, hlength, hstop⟩ := exists_tidy_tokenizeFrom 0 text
  have hraw : (Item.ofTokens (tokenize text)).map Item.token = front ++ stop := by
    rw [Item.map_token_ofTokens, tokenize, htokens]
  obtain ⟨items, last, hsplit, hitems, hlast⟩ := List.map_eq_append_iff.1 hraw
  have hpending : TidyUpTo last (Item.ofTokens (tokenize text)) := by
    refine ⟨items, last, hsplit, fun i hi => hfront _ (hitems ▸ List.mem_map_of_mem hi), ?_,
      List.Subset.refl _⟩
    rwa [← hlast, List.length_map] at hlength
  have hliteral : ∀ i ∈ last, i.token.isLiteral = true := fun i hi =>
    (hstop i.token (hlast ▸ List.mem_map_of_mem hi)).1
  have hident : ∀ i ∈ last, i.token.isIdent = false := by
    intro i hi
    rw [Bool.eq_false_iff]
    intro hkind
    have := hliteral i hi
    rw [Token.isLiteral, of_decide_eq_true hkind] at this
    cases this
  have hstart : ∀ i ∈ Outcome.items { counter }, i.token.IsTidy ∨ i ∈ last :=
    List.forall_mem_nil _
  intro i hi
  have hall := isTidy_of_expandFrom htable (isTidy_expandWithin htable _) hident replacementLimit
    hstart hpending i hi
  refine hall.imp_right fun hmem => ⟨?_, hliteral i hmem⟩
  exact Item.produced_of_mem_ofTokens (hsplit ▸ List.mem_append_right items hmem)

end Expansion

end DevicetreePrep
