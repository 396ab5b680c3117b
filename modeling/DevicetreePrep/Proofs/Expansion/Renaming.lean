/-
# Parameters by other names

The parameters of a function may be given other names, in its head and in its replacement,
and no line expands differently (`expandTokens_renamed`).  The new names have to differ from
each other and from all identifiers of the replacement; they may well be names of other
definitions, or the name of the function itself.

Names are compared in several places: when the replacement is read, for `#`, for `##`, for
a comma that is tied to the rest and for plain parameters; when an argument is looked up; and
when it is looked up whether an argument has been expanded before.  All these names are
mentioned in the definition, and among those the renaming makes no two equal and leaves the
name of every rest as it is (`Definition.Renames`).  So the parts of the replacement are the
same under their new names (`forall₂_parts_renamed`), they are filled in in the same way
(`Filling.step_renamed`), and what comes out does not show the names.
-/

import Mathlib
import DevicetreePrep.Proofs.Definition.Dump
import DevicetreePrep.Proofs.Expansion.Events
import DevicetreePrep.Proofs.Expansion.Redefinition

namespace DevicetreePrep

/-! Names among the tokens of a text. -/

/-- No digit starts a name. -/
theorem isDigit_of_isNameStart {c : Char} (h : isNameStart c = true) : isDigit c = false := by
  have hascii : ∀ n < 128, isNameStart (Char.ofNat n) = true → isDigit (Char.ofNat n) = false := by
    decide +kernel
  have hlt : c.toNat < 128 := by
    simp only [isNameStart, Bool.or_eq_true, decide_eq_true_eq, Char.isAlpha, Char.isUpper,
      Char.isLower, Bool.and_eq_true] at h
    rcases h with rfl | ⟨-, h⟩ | ⟨-, h⟩
    · decide
    · exact Nat.lt_of_le_of_lt (UInt32.le_iff_toNat_le.1 h) (by decide)
    · exact Nat.lt_of_le_of_lt (UInt32.le_iff_toNat_le.1 h) (by decide)
  rw [← Char.ofNat_toNat c] at h ⊢
  exact hascii c.toNat hlt h

/-- **A token that spells a name is an identifier.** -/
theorem Lexeme.kind_of_isName {here : Nat} {c : Char} {cs : Text}
    (h : Text.isName (read here c cs).text = true) : (read here c cs).kind = .ident := by
  have hword := Text.isWordChar_of_mem_name h
  cases hgap : Gap.startsAt (c :: cs) with
  | true =>
    -- all characters of a gap are white space, and it has one at least
    rw [read_of_startsAt hgap] at h hword
    dsimp only at h hword
    obtain ⟨d, ds, htext, -⟩ := Text.exists_of_isName h
    have hd : d ∈ (Gap.read here (c :: cs)).text := by
      rw [htext]
      exact List.mem_cons_self ..
    have hspace := isBlank_of_isSpace (Gap.isSpace_of_mem_text here .space _ d hd)
    rw [isBlank_of_isWordChar (hword d hd)] at hspace
    cases hspace
  | false =>
    have htext : (read here c cs).text = (c :: cs).take (read here c cs).width :=
      text_of_not_startsAt hgap
    have hstart : isNameStart c = true := by
      rw [htext, take_width] at h
      exact (Bool.and_eq_true_iff.1 h).1
    have hread : read here c cs = _ := read_of_not_startsAt hgap
    cases hl : literal? here (c :: cs) with
    | some l =>
      -- the quote of a literal belongs to its spelling
      obtain ⟨letters, quote, inner, hsource, -, hquote, hwidth, -⟩ := exists_of_literal? hl
      rw [hl] at hread
      have hmem : quote ∈ (read here c cs).text := by
        rw [htext, hread, hwidth, hsource, Nat.add_assoc, List.take_length_add_append,
          Nat.add_comm, List.take_succ_cons]
        exact List.mem_append_right _ (List.mem_cons_self ..)
      rcases hquote with rfl | rfl <;> exact absurd (hword _ hmem) (by decide)
    | none =>
      rw [hl] at hread
      have hnumber : isNumberStart (c :: cs) = false := by
        have hdot : c ≠ '.' := by
          rintro rfl
          exact absurd hstart (by decide)
        rw [isNumberStart.eq_2 _ _ fun _ _ hc _ => hdot hc]
        exact isDigit_of_isNameStart hstart
      have hletter : (decide (c = '_') || isLetter c) = true := by
        simp only [isNameStart, Bool.or_eq_true, decide_eq_true_eq] at hstart ⊢
        exact hstart.imp_right isLetter_of_isAlpha
      rw [hread, hnumber, hletter]
      rfl

/-- A token of a text that is spelled as a name is an identifier. -/
theorem isIdent_of_isName {here : Nat} {text : Text} {t : Token} (h : t ∈ tokenizeFrom here text)
    (hname : Text.isName t.text = true) : t.isIdent = true := by
  obtain ⟨here, c, cs, rfl⟩ := exists_read_of_mem_tokenizeFrom h
  exact decide_eq_true (Lexeme.kind_of_isName hname)

/-! Renaming. -/

/-- The token under its new name, if it is an identifier. -/
def Token.renamed (ρ : Text → Text) (t : Token) : Token :=
  if t.isIdent then { t with text := ρ t.text } else t

/-- The rest under its new name, if it has a name of its own. -/
def Rest.renamed (ρ : Text → Text) : Rest → Rest
  | .named n => .named (ρ n)
  | rest => rest

/-- The shape with new names for the parameters. -/
def Shape.renamed (ρ : Text → Text) : Shape → Shape
  | .function fixed rest => .function (fixed.map ρ) (rest.renamed ρ)
  | shape => shape

namespace Definition

/-- The definition with new names in its head, for the parameters, and in its replacement, for
the identifiers. -/
def renamed (ρ : Text → Text) (d : Definition) : Definition :=
  { d with shape := d.shape.renamed ρ, body := d.body.map (Token.renamed ρ) }

/-- The names of the parameters, a named rest among them. -/
def parameters (d : Definition) : List Text :=
  d.parameters?.getD []

/-- The new name of each name, if the parameters are called by `σ` and nothing else is. -/
def newName (d : Definition) (σ : Text → Text) (n : Text) : Text :=
  if d.parameters.contains n then σ n else n

theorem newName_of_mem {d : Definition} {σ : Text → Text} {n : Text} (h : n ∈ d.parameters) :
    d.newName σ n = σ n :=
  if_pos (List.contains_iff_mem.2 h)

theorem newName_of_not_mem {d : Definition} {σ : Text → Text} {n : Text}
    (h : n ∉ d.parameters) : d.newName σ n = n :=
  if_neg fun hmem => h (List.contains_iff_mem.1 hmem)

/-- The parameters can be called by `σ`: by names that differ from each other and from the
identifiers of the replacement.  The name of every rest is neither an old name nor a new
one. -/
structure CanRename (d : Definition) (σ : Text → Text) : Prop where
  isName : ∀ p ∈ d.parameters, Text.isName (σ p) = true
  injective : ∀ p ∈ d.parameters, ∀ q ∈ d.parameters, σ p = σ q → p = q
  fresh : ∀ p ∈ d.parameters, ∀ t ∈ d.body, t.isIdent = true → t.text ≠ σ p
  old_ne : ∀ p ∈ d.parameters, p ≠ restName
  new_ne : ∀ p ∈ d.parameters, σ p ≠ restName

/-- The names that a definition compares others with: those of its parameters, the name of
every rest, and the spellings in its replacement. -/
def Mentions (d : Definition) (n : Text) : Prop :=
  n ∈ d.parameters ∨ n = restName ∨ ∃ t ∈ d.body, t.text = n

/-- Under `ρ`, the names that the definition mentions stay apart, and those that are no
parameters stay as they are. -/
structure Renames (ρ : Text → Text) (d : Definition) : Prop where
  injOn : Set.InjOn ρ {n | d.Mentions n}
  rest : ρ restName = restName
  body : ∀ t ∈ d.body, (t.renamed ρ).text = ρ t.text
  free : ∀ t ∈ d.body, d.takes t.text = false → ρ t.text = t.text

end Definition

section Renamed

variable {ρ : Text → Text} {t : Token}

@[simp] theorem Token.kind_renamed : (t.renamed ρ).kind = t.kind := by
  rw [renamed]
  split <;> rfl

theorem Token.renamed_of_not_isIdent (h : t.isIdent = false) : t.renamed ρ = t := by
  rw [renamed, if_neg (Bool.eq_false_iff.1 h)]

/-- Renaming does not change which punctuator a token is. -/
theorem Token.isPunct_renamed (s : Text) : (t.renamed ρ).isPunct s = t.isPunct s := by
  cases h : t.isIdent with
  | true =>
    have hkind : t.kind ≠ .punctuator := by
      rw [isIdent, decide_eq_true_eq] at h
      rw [h]
      exact TokenKind.noConfusion
    rw [isPunct, isPunct, kind_renamed, decide_eq_false hkind, Bool.false_and, Bool.false_and]
  | false => rw [renamed_of_not_isIdent h]

theorem Rest.isOpen_renamed (rest : Rest) : (rest.renamed ρ).isOpen = rest.isOpen := by
  cases rest <;> rfl

/-- The rest has the new name of its name. -/
theorem Rest.name_renamed (h : ρ restName = restName) (rest : Rest) :
    (rest.renamed ρ).name = ρ rest.name := by
  cases rest with
  | named n => rfl
  | _ => exact h.symm

end Renamed

namespace Definition

variable {ρ σ : Text → Text} {d : Definition} {n : Text}

/-- The parameters of a function are the fixed ones and the one of a named rest. -/
theorem mem_parameters {fixed : List Text} {rest : Rest} (h : d.shape = .function fixed rest) :
    n ∈ d.parameters ↔ n ∈ fixed ∨ rest = .named n := by
  rw [parameters, parameters?, h]
  cases rest with
  | named m => simp [eq_comm]
  | _ => simp

/-- A definition takes the names of its parameters. -/
theorem takes_of_mem_parameters (h : n ∈ d.parameters) : d.takes n = true := by
  cases hshape : d.shape with
  | function fixed rest =>
    rw [takes, hshape]
    rcases (mem_parameters hshape).1 h with hfixed | rfl
    · simp [hfixed]
    · simp [Rest.isOpen, Rest.name]
  | _ => simp [parameters, parameters?, hshape] at h

/-- A definition mentions the name of its rest. -/
theorem mentions_rest_name (d : Definition) : d.Mentions d.rest.name := by
  cases hshape : d.shape with
  | function fixed rest =>
    rw [Definition.rest, hshape]
    cases rest with
    | named m => exact .inl ((mem_parameters hshape).2 (.inr rfl))
    | _ => exact .inr (.inl rfl)
  | _ =>
    rw [Definition.rest, hshape]
    exact .inr (.inl rfl)

theorem rest_renamed (d : Definition) : (d.renamed ρ).rest = d.rest.renamed ρ := by
  rw [Definition.rest, Definition.rest, renamed]
  cases d.shape <;> rfl

namespace Renames

/-- Of the names that are mentioned, the same are names of the rest. -/
theorem rest_iff (h : d.Renames ρ) (hn : d.Mentions n) :
    (ρ n = restName ∨ ρ n = (d.renamed ρ).rest.name) ↔ (n = restName ∨ n = d.rest.name) := by
  have hevery : ρ n = restName ↔ n = restName := by
    have := h.injOn.eq_iff hn (.inr (.inl rfl) : d.Mentions restName)
    rwa [h.rest] at this
  rw [hevery, rest_renamed, Rest.name_renamed h.rest, h.injOn.eq_iff hn d.mentions_rest_name]

/-- Of the names that are mentioned, the same are parameters. -/
theorem takes (h : d.Renames ρ) (hn : d.Mentions n) :
    (d.renamed ρ).takes (ρ n) = d.takes n := by
  cases hshape : d.shape with
  | function fixed rest =>
    have hfixed : ρ n ∈ fixed.map ρ ↔ n ∈ fixed := by
      rw [List.mem_map]
      constructor
      · rintro ⟨m, hm, hmn⟩
        have hmentions : d.Mentions m := .inl ((mem_parameters hshape).2 (.inl hm))
        exact h.injOn hmentions hn hmn ▸ hm
      · exact fun hmem => ⟨n, hmem, rfl⟩
    have hrest := h.rest_iff hn
    have hshape' : (d.renamed ρ).shape = .function (fixed.map ρ) (rest.renamed ρ) := by
      rw [renamed, hshape]
      rfl
    rw [Definition.rest, Definition.rest, hshape, hshape'] at hrest
    rw [Definition.takes, Definition.takes, hshape, hshape', Bool.eq_iff_iff]
    simp only [Bool.or_eq_true, Bool.and_eq_true, List.contains_iff_mem, decide_eq_true_eq,
      Rest.isOpen_renamed, hfixed, hrest]
  | _ =>
    rw [Definition.takes, Definition.takes, renamed, hshape]
    rfl

/-- A comma is tied to the new name where it was tied to the name. -/
theorem tiesComma (h : d.Renames ρ) (hn : d.Mentions n) :
    (d.renamed ρ).tiesComma (ρ n) = d.tiesComma n := by
  rw [Definition.tiesComma, Definition.tiesComma, h.takes hn, Bool.eq_iff_iff]
  simp only [Bool.and_eq_true, Bool.or_eq_true, decide_eq_true_eq, h.rest_iff hn]

/-- A token that is no parameter stays as it is. -/
theorem renamed_eq (h : d.Renames ρ) {t : Token} (ht : t ∈ d.body)
    (hfree : (t.isIdent && d.takes t.text) = false) : t.renamed ρ = t := by
  cases hident : t.isIdent with
  | true =>
    rw [hident, Bool.true_and] at hfree
    rw [Token.renamed, if_pos hident, h.free t ht hfree]
  | false => exact Token.renamed_of_not_isIdent hident

end Renames

/-- The parameters of a definition that was made are names. -/
theorem IsMade.isName_of_mem_parameters (h : d.IsMade) (hn : n ∈ d.parameters) :
    Text.isName n = true := by
  rcases h with ⟨operand, file, line, hread⟩ | hbuiltin
  · rcases (isDeclared_of_read hread).1.shape with hshape | ⟨fixed, rest, hshape, hparams⟩
    · simp [parameters, parameters?, hshape] at hn
    · rcases (mem_parameters hshape).1 hn with hfixed | hrest
      · exact hparams.isName n hfixed
      · exact (hparams.rest n hrest).1
  · have hnone : ∀ d ∈ builtins, d.parameters = [] := by decide
    rw [hnone d hbuiltin] at hn
    cases hn

/-- The names in the replacement of a definition that was made are identifiers. -/
theorem IsMade.isIdent_of_isName (h : d.IsMade) {t : Token} (ht : t ∈ d.body)
    (hname : Text.isName t.text = true) : t.isIdent = true := by
  rcases h with ⟨operand, file, line, hread⟩ | hbuiltin
  · obtain ⟨-, replacement, hbody⟩ := isDeclared_of_read hread
    rw [hbody] at ht
    exact DevicetreePrep.isIdent_of_isName (mem_of_mem_trimWhite ht) hname
  · have hnone : ∀ d ∈ builtins, d.body = [] := by decide
    rw [hnone d hbuiltin] at ht
    cases ht

/-- **New names for the parameters keep all names apart.** -/
theorem CanRename.renames (hmade : d.IsMade) (h : d.CanRename σ) : d.Renames (d.newName σ) := by
  have hother {n : Text} (hn : d.Mentions n) (hmem : n ∉ d.parameters) :
      ∀ p ∈ d.parameters, n ≠ σ p := by
    intro p hp heq
    rcases hn with hn | rfl | ⟨t, ht, rfl⟩
    · exact hmem hn
    · exact h.new_ne p hp heq.symm
    · exact h.fresh p hp t ht (hmade.isIdent_of_isName ht (heq ▸ h.isName p hp)) heq
  refine ⟨?_, newName_of_not_mem fun hmem => h.old_ne _ hmem rfl, fun t ht => ?_,
    fun t ht hfree => ?_⟩
  · intro m hm n hn heq
    by_cases hmp : m ∈ d.parameters <;> by_cases hnp : n ∈ d.parameters
    · rw [newName_of_mem hmp, newName_of_mem hnp] at heq
      exact h.injective m hmp n hnp heq
    · rw [newName_of_mem hmp, newName_of_not_mem hnp] at heq
      exact absurd heq.symm (hother hn hnp m hmp)
    · rw [newName_of_not_mem hmp, newName_of_mem hnp] at heq
      exact absurd heq (hother hm hmp n hnp)
    · rwa [newName_of_not_mem hmp, newName_of_not_mem hnp] at heq
  · cases hident : t.isIdent with
    | true => rw [Token.renamed, if_pos hident]
    | false =>
      have hmem : t.text ∉ d.parameters := by
        intro hmem
        have := hmade.isIdent_of_isName ht (hmade.isName_of_mem_parameters hmem)
        exact Bool.false_ne_true (hident.symm.trans this)
      rw [Token.renamed_of_not_isIdent hident, newName_of_not_mem hmem]
  · refine newName_of_not_mem fun hmem => ?_
    rw [takes_of_mem_parameters hmem] at hfree
    cases hfree

/-- Renaming nothing changes nothing. -/
theorem renamed_id (d : Definition) : d.renamed id = d := by
  have htoken : Token.renamed id = id := by
    funext t
    rw [Token.renamed]
    split <;> rfl
  have hshape : d.shape.renamed id = d.shape := by
    cases d.shape with
    | function fixed rest => cases rest <;> simp [Shape.renamed, Rest.renamed]
    | _ => rfl
  rw [renamed, htoken, hshape, List.map_id]

/-- Renaming nothing is a renaming. -/
theorem renames_id (d : Definition) : d.Renames id := by
  refine ⟨Set.injOn_id _, rfl, fun t _ => ?_, fun _ _ _ => rfl⟩
  rw [Token.renamed]
  split <;> rfl

end Definition

namespace Expansion

variable {ρ : Text → Text} {d : Definition}

/-- A part is another one under the new name of its parameter. -/
inductive Part.Renames (ρ : Text → Text) (d : Definition) : Part → Part → Prop
  | token (t : Token) : Renames ρ d (.token t) (.token t)
  | paste : Renames ρ d .paste .paste
  | stringize {n : Text} (hn : d.Mentions n) : Renames ρ d (.stringize (ρ n)) (.stringize n)
  | commaRest (comma : Token) {n : Text} (hn : d.Mentions n) :
    Renames ρ d (.commaRest comma (ρ n)) (.commaRest comma n)
  | operand {n : Text} (hn : d.Mentions n) : Renames ρ d (.operand (ρ n)) (.operand n)
  | parameter {n : Text} (hn : d.Mentions n) : Renames ρ d (.parameter (ρ n)) (.parameter n)

/-- **The parts of a replacement are the same under their new names.** -/
theorem forall₂_parts_renamed (h : d.Renames ρ) :
    List.Forall₂ (Part.Renames ρ d) (parts (d.renamed ρ)) (parts d) := by
  have hmentions {t : Token} (ht : t ∈ d.body) : d.Mentions t.text := .inr (.inr ⟨t, ht, rfl⟩)
  have hroles :
      Corresponds (d.renamed ρ) d (Token.renamed ρ) (Part.Renames ρ d) d.body :=
    { isWhite := fun t => by rw [Token.isWhite, Token.kind_renamed, ← Token.isWhite]
      isIdent := fun t => by rw [Token.isIdent, Token.kind_renamed, ← Token.isIdent]
      isPunct := fun s _ => Token.isPunct_renamed s
      takes := fun t ht _ => by rw [h.body t ht, h.takes (hmentions ht)]
      tiesComma := fun t ht _ => by rw [h.body t ht, h.tiesComma (hmentions ht)]
      paste := .paste
      token := fun t ht hfree => by
        rw [h.renamed_eq ht hfree]
        exact .token t
      stringize := fun t ht _ => by
        rw [h.body t ht]
        exact .stringize (hmentions ht)
      commaRest := fun c hc hcomma t ht _ => by
        have hident : c.isIdent = false := by
          rw [Token.isPunct, Bool.and_eq_true, decide_eq_true_eq] at hcomma
          rw [Token.isIdent, hcomma.1]
          rfl
        rw [Token.renamed_of_not_isIdent hident, h.body t ht]
        exact .commaRest c (hmentions ht)
      operand := fun t ht _ => by
        rw [h.body t ht]
        exact .operand (hmentions ht)
      parameter := fun t ht _ => by
        rw [h.body t ht]
        exact .parameter (hmentions ht) }
  exact hroles.forall₂_partsFrom none (List.Subset.refl _)

/-- What stands under a name stands under its new name, if the names stay apart. -/
theorem lookup_renamed {β : Type} (h : d.Renames ρ) {n : Text} (hn : d.Mentions n)
    {ps : List (Text × β)} (hps : ∀ p ∈ ps, d.Mentions p.1) :
    (ps.map (Prod.map ρ id)).lookup (ρ n) = ps.lookup n := by
  induction ps with
  | nil => rfl
  | cons p ps ih =>
    obtain ⟨hp, hps⟩ := List.forall_mem_cons.1 hps
    have hbeq : (ρ n == ρ p.1) = (n == p.1) := by
      rw [Bool.eq_iff_iff, beq_iff_eq, beq_iff_eq]
      exact h.injOn.eq_iff hn hp
    rw [List.map_cons, Prod.map, List.lookup_cons, List.lookup_cons, hbeq, ih hps]
    rfl

namespace Arguments

/-- The arguments under the new names of their parameters. -/
def renamed (ρ : Text → Text) (a : Arguments) : Arguments where
  fixed := a.fixed.map (Prod.map ρ id)
  rest := a.rest.map (Prod.map ρ id)

/-- The arguments are those of parameters of the definition. -/
structure AreOf (d : Definition) (a : Arguments) : Prop where
  fixed : ∀ p ∈ a.fixed, d.Mentions p.1
  rest : ∀ p ∈ a.rest, d.Mentions p.1

/-- A parameter under its new name stands for what it stood for. -/
theorem get_renamed (h : d.Renames ρ) {a : Arguments} (ha : a.AreOf d) {n : Text}
    (hn : d.Mentions n) : (a.renamed ρ).get (ρ n) = a.get n := by
  have hlookup := lookup_renamed h hn fun p hp => ha.fixed p (List.mem_reverse.1 hp)
  rw [get, get, renamed, ← List.map_reverse]
  cases hrest : a.rest with
  | none =>
    dsimp only [Option.map_none]
    rw [hlookup]
  | some p =>
    have hname := h.injOn.eq_iff hn (ha.rest p hrest)
    have hevery := h.injOn.eq_iff hn (.inr (.inl rfl) : d.Mentions restName)
    rw [h.rest] at hevery
    dsimp only [Option.map_some, Prod.map, id]
    rw [hlookup, decide_eq_decide.2 hname, decide_eq_decide.2 hevery]

/-- **Parameters are bound in the same way under their new names.** -/
theorem bind_renamed (h : d.Renames ρ) (fixed : List Text) (rest : Rest) (c : Call) :
    bind (fixed.map ρ) (rest.renamed ρ) c = (bind fixed rest c).map (renamed ρ) := by
  have hcounted (args : List (List Item)) : counted (fixed.map ρ) args = counted fixed args := by
    cases fixed <;> rfl
  rw [bind, bind, hcounted, List.length_map, Rest.isOpen_renamed, Rest.name_renamed h.rest]
  split
  · rfl
  · rw [List.zip_map_left]
    split <;> rfl

/-- The arguments of a call are those of the parameters. -/
theorem areOf_of_bind {fixed : List Text} {rest : Rest} (hshape : d.shape = .function fixed rest)
    {c : Call} {a : Arguments} (h : bind fixed rest c = .ok a) : a.AreOf d := by
  rw [bind] at h
  split at h
  · cases h
  · obtain rfl := Except.ok.inj h
    refine ⟨fun p hp => ?_, fun p hp => ?_⟩
    · exact .inl ((Definition.mem_parameters hshape).2 (.inl (List.of_mem_zip hp).1))
    · have hname := d.mentions_rest_name
      rw [Definition.rest, hshape] at hname
      dsimp only at hp
      split at hp
      · obtain rfl := Option.some.inj hp
        exact hname
      · cases hp

end Arguments

/-- The replacement that is being filled in, under the new names of the parameters. -/
def Filling.renamed (ρ : Text → Text) (f : Filling) : Filling :=
  { f with expanded := f.expanded.map (Prod.map ρ id) }

/-- **A part is filled in in the same way under its new name.** -/
theorem Filling.step_renamed (h : d.Renames ρ) (expand : Expander) (budget : Int)
    {args : Arguments} (hargs : args.AreOf d) {f : Filling}
    (hf : ∀ p ∈ f.expanded, d.Mentions p.1) {part' part : Part} (hpart : part'.Renames ρ d part) :
    (f.renamed ρ).step expand budget (args.renamed ρ) part' =
        (f.step expand budget args part).renamed ρ ∧
      ∀ p ∈ (f.step expand budget args part).expanded, d.Mentions p.1 := by
  cases hpart with
  | token t | paste => exact ⟨rfl, hf⟩
  | stringize hn =>
    rw [step, step, Arguments.get_renamed h hargs hn]
    exact ⟨rfl, hf⟩
  | commaRest comma hn | operand hn =>
    rw [step, step, Arguments.get_renamed h hargs hn]
    split <;> exact ⟨rfl, hf⟩
  | @parameter n hn =>
    have hlookup : (f.renamed ρ).expanded.lookup (ρ n) = f.expanded.lookup n :=
      lookup_renamed h hn hf
    rw [step, step, hlookup, Arguments.get_renamed h hargs hn]
    split
    · exact ⟨rfl, hf⟩
    · exact ⟨rfl, List.forall_mem_cons.2 ⟨hn, hf⟩⟩

/-- The parts of a renamed definition are filled in in the same way. -/
theorem Filling.foldl_step_renamed (h : d.Renames ρ) (expand : Expander) (budget : Int)
    {args : Arguments} (hargs : args.AreOf d) {parts' parts : List Part}
    (hparts : List.Forall₂ (Part.Renames ρ d) parts' parts) {f : Filling}
    (hf : ∀ p ∈ f.expanded, d.Mentions p.1) :
    parts'.foldl (Filling.step expand budget (args.renamed ρ)) (f.renamed ρ) =
      (parts.foldl (Filling.step expand budget args) f).renamed ρ := by
  induction hparts generalizing f with
  | nil => rfl
  | cons hpart _ ih =>
    obtain ⟨hstep, hnext⟩ := Filling.step_renamed h expand budget hargs hf hpart
    rw [List.foldl_cons, List.foldl_cons, hstep, ih hnext]

variable {f : Definition → Definition} {expand expand' : Expander} {ctx ctx' : Context}

/-- **A replacement is made in the same way under new names.** -/
theorem substitute_renamed (hexpand : Expander.Maps f expand' expand) (h : d.Renames ρ)
    (hd : f d = d.renamed ρ) {args : Arguments} (hargs : args.AreOf d) (budget : Int)
    (counter : Nat) (i : Item) (taken : List Item) (hide : List Text) :
    substitute expand' budget counter (f d) (args.renamed ρ) i taken hide =
      (substitute expand budget counter d args i taken hide).map f := by
  have hfill := Filling.foldl_step_renamed h expand budget hargs (forall₂_parts_renamed h)
    (f := { counter }) (List.forall_mem_nil _)
  have hstart : Filling.renamed ρ { counter } = { counter } := rfl
  rw [hstart] at hfill
  rw [substitute, substitute, Filling.step_of_maps hexpand, hd, hfill]
  dsimp only [Action.map, Event.map]
  rw [hd]
  rfl

/-- **A definition is carried out in the same way under new names.** -/
theorem invoke_renamed (hfile : ctx'.file = ctx.file) (hline : ctx'.line = ctx.line)
    (hexpand : Expander.Maps f expand' expand) (h : d.Renames ρ) (hd : f d = d.renamed ρ)
    (budget : Int) (counter : Nat) (i : Item) (tail : List Item) :
    invoke ctx' expand' budget counter (f d) i tail =
      (invoke ctx expand budget counter d i tail).map f := by
  have hname : (f d).name = d.name := by
    rw [hd]
    rfl
  have hshape : (f d).shape = d.shape.renamed ρ := by
    rw [hd]
    rfl
  rw [invoke, invoke, hshape]
  cases hs : d.shape with
  | builtin =>
    dsimp only [Shape.renamed]
    rw [builtinToken, builtinToken, hfile, hline, hname]
    rfl
  | object =>
    have hargs : Arguments.AreOf d {} :=
      ⟨List.forall_mem_nil _, fun p hp => absurd hp (Option.not_mem_none p)⟩
    exact substitute_renamed hexpand h hd hargs budget counter i [] i.hidden
  | function fixed rest =>
    dsimp only [Shape.renamed]
    cases Call.following tail with
    | absent => rfl
    | unclosed =>
      dsimp only
      rw [hname]
      rfl
    | call c =>
      dsimp only
      rw [Arguments.bind_renamed h]
      cases hbind : Arguments.bind fixed rest c with
      | error given =>
        dsimp only [Except.map]
        rw [hname, List.length_map]
        rfl
      | ok args =>
        exact substitute_renamed hexpand h hd (Arguments.areOf_of_bind hs hbind) budget counter i
          _ _

end Expansion

/-- What a table finds under a name after a definition was put in. -/
theorem Table.find?_insert (t : Table) (d : Definition) (name : Text) :
    (t.insert d).find? name = if d.name = name then some d else t.find? name := by
  have hplace (es : List Definition) : (place d es).find? (·.name = name) =
      if d.name = name then some d else es.find? (·.name = name) := by
    induction es with
    | nil => by_cases hd : d.name = name <;> simp [place, hd]
    | cons e es ih =>
      rw [place]
      split
      · rename_i he
        by_cases hd : d.name = name <;> simp [he, hd]
      · rename_i he
        by_cases hen : e.name = name
        · have hd : d.name ≠ name := fun hd => he (hen.trans hd.symm)
          simp [hen, hd]
        · simp [hen, ih]
  exact hplace t.entries

open Expansion

/-- **Parameter names do not matter.**  The parameters of a definition of the table may be
called by other names, in its head and in its replacement: all tokens expand to the same
tokens, with the same errors and the same counter. -/
theorem expandTokens_renamed {t : Table} {d : Definition} (hd : d ∈ t.entries) (hmade : d.IsMade)
    {σ : Text → Text} (hσ : d.CanRename σ) (file : String) (line : Int) (counter : Nat)
    (tokens : List Token) :
    expandTokens ⟨t.insert (d.renamed (d.newName σ)), file, line⟩ counter tokens =
      expandTokens ⟨t, file, line⟩ counter tokens := by
  -- every definition is renamed, all but the one by the names that it has
  let ρ (e : Definition) : Text → Text := if e = d then d.newName σ else id
  have hρ (e : Definition) : e.Renames (ρ e) := by
    by_cases he : e = d
    · subst he
      simpa [ρ] using hσ.renames hmade
    · simpa [ρ, he] using e.renames_id
  refine expandTokens_map (f := fun e => e.renamed (ρ e)) ⟨fun i => ?_, ?_⟩ counter tokens
  · have hfind (name : Text) : (t.insert (d.renamed (d.newName σ))).find? name =
        (t.find? name).map fun e => e.renamed (ρ e) := by
      have hname : (d.renamed (d.newName σ)).name = d.name := rfl
      rw [Table.find?_insert, hname]
      split
      · rename_i heq
        rw [← heq, Table.find?_of_mem hd, Option.map_some]
        simp [ρ]
      · rename_i hne
        cases he : t.find? name with
        | none => rfl
        | some e =>
          have hed : e ≠ d := by
            rintro rfl
            exact hne (Table.find?_eq_some he).2
          simp [ρ, hed, Definition.renamed_id]
    rw [candidate?, candidate?]
    split
    · exact hfind i.token.text
    · rfl
  · intro expand' expand hexpand i e _ budget counter tail
    exact invoke_renamed rfl rfl hexpand (hρ e) rfl budget counter i tail

/-- A function with `#`, `##` and a comma that is tied to its rest.  One parameter gets the
name of the function itself, another one the name of an object of the table. -/
theorem expandTokens_renamed_own_name :
    ∃ (t : Table) (d : Definition) (σ : Text → Text), d ∈ t.entries ∧ d.IsMade ∧ d.CanRename σ ∧
      d.parameters = ["x", "y", "rest"].map String.toList ∧
      (d.renamed (d.newName σ)).parameters = ["F", "G", "z"].map String.toList ∧
      t.names = ["F", "G"].map String.toList ∧
      ∀ tokens, expandTokens ⟨t.insert (d.renamed (d.newName σ)), "m", 1⟩ 0 tokens =
        expandTokens ⟨t, "m", 1⟩ 0 tokens := by
  let d : Definition :=
    { name := "F".toList, shape := .function ["x".toList, "y".toList] (.named "rest".toList)
      body := [⟨.punctuator, "#".toList, 0⟩, ⟨.ident, "x".toList, 1⟩, ⟨.whitespace, " ".toList, 2⟩,
        ⟨.ident, "y".toList, 3⟩, ⟨.punctuator, "##".toList, 4⟩, ⟨.number, "1".toList, 6⟩,
        ⟨.punctuator, ",".toList, 7⟩, ⟨.punctuator, "##".toList, 8⟩,
        ⟨.ident, "rest".toList, 10⟩, ⟨.whitespace, " ".toList, 14⟩, ⟨.ident, "x".toList, 15⟩] }
  let object : Definition := { name := "G".toList, body := [⟨.number, "2".toList, 0⟩] }
  let t : Table := { entries := [d, object], distinct := by decide }
  let σ (p : Text) : Text :=
    if p = "x".toList then "F".toList else if p = "y".toList then "G".toList else "z".toList
  have hmade : d.IsMade := .inl ⟨"F(x,y,rest...) #x y##1,##rest x".toList, none, none,
    by decide +kernel⟩
  have hσ : d.CanRename σ :=
    ⟨by decide +kernel, by decide +kernel, by decide +kernel, by decide +kernel,
      by decide +kernel⟩
  have hd : d ∈ t.entries := List.mem_cons_self ..
  exact ⟨t, d, σ, hd, hmade, hσ, by decide, by decide, by decide,
    expandTokens_renamed hd hmade hσ "m" 1 0⟩

end DevicetreePrep
