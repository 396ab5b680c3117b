/-
# Redefinitions that may stand for each other

Two definitions of a name may stand for each other if they differ in nothing but how wide
their white space is (`Definition.sameAs`).  Respaced, they are equal
(`Definition.respaced_eq_of_sameAs`).  Expansion over respaced definitions does with
respaced items what expansion over the definitions does with the items
(`expandFrom_respaced`), level by level and replacement by replacement: its budget, its
counter and the sites of its reports are the same.  So two tables whose definitions may
stand for each other, name by name, are both respaced to one, and expand all tokens alike
(`expandTokens_sameAs`).
-/

import DevicetreePrep.Proofs.Definition.Declaration
import DevicetreePrep.Proofs.Expansion.Respacing
import DevicetreePrep.Proofs.Expansion.Unfolding

namespace DevicetreePrep

namespace Expansion

/-- An outcome is another one, respaced.  The spellings that reports quote may differ. -/
structure Outcome.Respaces (r' r : Outcome) : Prop where
  items : r'.items = respacedItems r.items
  spent : r'.spent = r.spent
  counter : r'.counter = r.counter
  reports : r'.reports.map Report.unspelled = r.reports.map Report.unspelled

/-- An expander does with respaced items what another one does with the items. -/
def Expander.Respaces (expand' expand : Expander) : Prop :=
  ∀ budget counter items,
    (expand' budget counter (respacedItems items)).Respaces (expand budget counter items)

/-- A replacement that is being filled in is another one, respaced. -/
structure Filling.Respaces (f' f : Filling) : Prop where
  entries : f'.entries = f.entries.map Entry.respaced
  expanded : f'.expanded = f.expanded.map (Prod.map id (List.map Piece.respaced))
  spent : f'.spent = f.spent
  counter : f'.counter = f.counter
  reports : f'.reports.map Report.unspelled = f.reports.map Report.unspelled

namespace Filling.Respaces

variable {expand expand' : Expander} {f f' : Filling}

/-- Respaced pieces are added to a respaced filling. -/
theorem add (h : f'.Respaces f) (ps : List Piece) :
    (f'.add (ps.map Piece.respaced)).Respaces (f.add ps) := by
  refine ⟨?_, h.expanded, h.spent, h.counter, h.reports⟩
  rw [Filling.add, Filling.add, h.entries]
  simp only [List.map_append, List.map_reverse, List.map_map]
  rfl

/-- **Parts are filled in in the same way when they are respaced.** -/
theorem step (h : f'.Respaces f) (hexpand : Expander.Respaces expand' expand) (budget : Int)
    (args : Arguments) (part : Part) :
    (f'.step expand' budget args.respaced part.respaced).Respaces
      (f.step expand budget args part) := by
  have hpieces (is : List Item) :
      (respacedItems is).map Item.toPiece = (is.map Item.toPiece).map Piece.respaced := by
    rw [respacedItems, List.map_map, List.map_map]
    rfl
  cases part with
  | token t => exact h.add [⟨t, []⟩]
  | paste =>
    exact ⟨congrArg (Entry.paste :: ·) h.entries, h.expanded, h.spent, h.counter, h.reports⟩
  | stringize name =>
    have hstring : stringize (args.respaced.get name) = stringize (args.get name) := by
      rw [stringize, stringize, Arguments.get_respaced, stringizeFrom_respaced]
    dsimp only [Part.respaced, Filling.step]
    rw [hstring]
    exact h.add [⟨{ kind := .stringLiteral, text := stringize (args.get name) }, []⟩]
  | commaRest comma name =>
    dsimp only [Part.respaced, Filling.step]
    rw [Arguments.get_respaced]
    cases args.get name with
    | nil => exact h
    | cons i is =>
      rw [respacedItems_cons]
      dsimp only
      rw [← respacedItems_cons, hpieces]
      exact h.add (⟨comma, []⟩ :: ⟨{ kind := .whitespace, text := [' '] }, []⟩ ::
        (i :: is).map Item.toPiece)
  | operand name =>
    dsimp only [Part.respaced, Filling.step]
    rw [Arguments.get_respaced]
    cases args.get name with
    | nil => exact h.add [placeholder]
    | cons i is =>
      rw [respacedItems_cons]
      dsimp only
      rw [← respacedItems_cons, hpieces]
      exact h.add ((i :: is).map Item.toPiece)
  | parameter name =>
    dsimp only [Part.respaced, Filling.step]
    rw [h.expanded, lookup_map]
    cases f.expanded.lookup name with
    | some pieces => exact h.add pieces
    | none =>
      obtain ⟨hitems, hspent, hcounter, hreports⟩ :=
        hexpand (budget - f.spent) f.counter (args.get name)
      rw [← Arguments.get_respaced] at hitems hspent hcounter hreports
      dsimp only [Option.map_none]
      rw [h.spent, h.counter, hitems, hpieces, hspent, hcounter]
      refine ⟨(h.add _).entries, ?_, rfl, rfl, ?_⟩
      · rfl
      · rw [List.map_append, List.map_append, h.reports, hreports]

end Filling.Respaces

/-- An action is another one, respaced. -/
inductive Action.Respaces : Action → Action → Prop
  | pass {size : Nat} {reports' reports : List Report}
      (h : reports'.map Report.unspelled = reports.map Report.unspelled) :
      Respaces (.pass size reports') (.pass size reports)
  | replace {size spent counter : Nat} {items' items : List Item} {event' event : Event}
      {reports' reports : List Report} (hitems : items' = respacedItems items)
      (h : reports'.map Report.unspelled = reports.map Report.unspelled) :
      Respaces (.replace size items' event' spent counter reports')
        (.replace size items event spent counter reports)

variable {ctx ctx' : Context} {expand expand' : Expander}

/-- **A replacement is made in the same way when all is respaced.** -/
theorem substitute_respaced (hexpand : Expander.Respaces expand' expand) (budget : Int)
    (counter : Nat) (d : Definition) (args : Arguments) (i : Item) (taken : List Item)
    (hide : List Text) :
    Action.Respaces
      (substitute expand' budget counter d.respaced args.respaced i.respaced
        (respacedItems taken) hide)
      (substitute expand budget counter d args i taken hide) := by
  have hfold (parts : List Part) {f' f : Filling} (h : f'.Respaces f) :
      ((parts.map Part.respaced).foldl (Filling.step expand' budget args.respaced) f').Respaces
        (parts.foldl (Filling.step expand budget args) f) := by
    induction parts generalizing f' f with
    | nil => exact h
    | cons part parts ih => exact ih (h.step hexpand budget args part)
  have hstart : Filling.Respaces { counter } { counter } := ⟨rfl, rfl, rfl, rfl, rfl⟩
  obtain ⟨hentries, -, hspent, hcounter, hreports⟩ := hfold (parts d) hstart
  obtain ⟨hpieces, hcauses⟩ := pasteAll_respaced
    ((parts d).foldl (Filling.step expand budget args) { counter }).entries.reverse
  rw [substitute, substitute, parts_respaced, Item.spanOf_respaced]
  dsimp only
  rw [hentries, ← List.map_reverse, hpieces, hspent, hcounter, length_respacedItems]
  refine .replace ?_ ?_
  · rw [respacedItems, List.map_map, List.map_map]
    rfl
  · have hsites (causes : List Cause) (site : Option Nat) :
        (causes.map (Report.mk · site)).map Report.unspelled =
          (causes.map Cause.unspelled).map (Report.mk · site) := by
      rw [List.map_map, List.map_map]
      rfl
    rw [List.map_append, List.map_append, hreports, hsites, hsites, hcauses]

/-- The context `ctx'` has the definitions of `ctx`, respaced, and is in the same place. -/
structure Context.Respaces (ctx' ctx : Context) : Prop where
  find? : ∀ name, ctx'.table.find? name = (ctx.table.find? name).map Definition.respaced
  file : ctx'.file = ctx.file
  line : ctx'.line = ctx.line

/-- A builtin stands for the same in the respaced context, spacing apart. -/
theorem builtinToken_respaced (hctx : ctx'.Respaces ctx) {t : Token} (ht : t.isWhite = false)
    (counter : Nat) :
    builtinToken ctx' counter t.respaced =
      ((builtinToken ctx counter t).1.respaced, (builtinToken ctx counter t).2) := by
  have hnumber (s : Text) :
      Token.respaced { t with kind := .number, text := s } = ⟨.number, s, 0⟩ :=
    Token.respaced_of_not_isWhite rfl
  have hstring (s : Text) : Token.respaced { t with kind := .stringLiteral, text := s } =
      ⟨.stringLiteral, s, 0⟩ :=
    Token.respaced_of_not_isWhite rfl
  rw [builtinToken, builtinToken, Token.text_respaced ht, hctx.file, hctx.line]
  split
  · rw [hnumber]
    rfl
  · split
    · rw [hnumber]
      rfl
    · split
      · rw [hstring]
        rfl
      · rfl

/-- **A definition is carried out in the same way when all is respaced.** -/
theorem invoke_respaced (hctx : ctx'.Respaces ctx) (hexpand : Expander.Respaces expand' expand)
    (budget : Int) (counter : Nat) (d : Definition) {i : Item} (hi : i.isWhite = false)
    (tail : List Item) :
    Action.Respaces
      (invoke ctx' expand' budget counter d.respaced i.respaced (respacedItems tail))
      (invoke ctx expand budget counter d i tail) := by
  have hshape : d.respaced.shape = d.shape := rfl
  rw [invoke, invoke, hshape]
  cases d.shape with
  | builtin =>
    have htoken : builtinToken ctx' counter i.respaced.token = _ :=
      builtinToken_respaced hctx hi counter
    dsimp only
    rw [htoken]
    exact .replace rfl rfl
  | object => exact substitute_respaced hexpand budget counter d {} i [] i.hidden
  | function fixed rest =>
    dsimp only
    rw [Call.following_respaced]
    cases Call.following tail with
    | absent => exact .pass rfl
    | unclosed => exact .pass rfl
    | call c =>
      dsimp only [Following.respaced]
      rw [Arguments.bind_respaced]
      cases Arguments.bind fixed rest c with
      | error given => exact .pass rfl
      | ok args =>
        dsimp only [Except.map]
        have hsize : c.respaced.size = c.size := rfl
        rw [hsize, ← respacedItems_take]
        exact substitute_respaced hexpand budget counter d args i _ _

/-- A name is no white space. -/
theorem isWhite_of_isIdent {t : Token} (h : t.isIdent = true) : t.isWhite = false := by
  rw [Token.isIdent, decide_eq_true_eq] at h
  rw [Token.isWhite, h]
  rfl

/-- White space is no candidate. -/
theorem isWhite_of_candidate? {table : Table} {i : Item} {d : Definition}
    (h : candidate? table i = some d) : i.isWhite = false := by
  rw [candidate?] at h
  split at h
  · rename_i hi
    exact isWhite_of_isIdent (Bool.and_eq_true_iff.1 hi).1
  · cases h

/-- The candidates of the respaced context are the respaced candidates. -/
theorem candidate?_respaced (hctx : ctx'.Respaces ctx) (i : Item) :
    candidate? ctx'.table i.respaced = (candidate? ctx.table i).map Definition.respaced := by
  have hident : i.respaced.token.isIdent = i.token.isIdent := rfl
  have hhidden : i.respaced.hidden = i.hidden := rfl
  rw [candidate?, candidate?, hident, hhidden]
  cases h : i.token.isIdent with
  | false => rfl
  | true =>
    have htext : i.respaced.token.text = i.token.text := Token.text_respaced (isWhite_of_isIdent h)
    rw [htext, hctx.find?]
    split <;> rfl

/-- **Items are expanded in the same way when all is respaced.** -/
theorem expandFrom_respaced (hctx : ctx'.Respaces ctx) (hexpand : Expander.Respaces expand' expand)
    (budget : Int) {done' done : Outcome} (hdone : done'.Respaces done) (pending : List Item) :
    (expandFrom ctx' expand' budget done' (respacedItems pending)).Respaces
      (expandFrom ctx expand budget done pending) := by
  have hreports {rs' rs qs' qs : List Report}
      (hrs : rs'.map Report.unspelled = rs.map Report.unspelled)
      (hqs : qs'.map Report.unspelled = qs.map Report.unspelled) :
      (rs' ++ qs').map Report.unspelled = (rs ++ qs).map Report.unspelled := by
    rw [List.map_append, List.map_append, hrs, hqs]
  -- the induction follows the expansion of the items as they are; `done'` is any outcome
  -- that is respaced so far, so that the two expansions go on side by side
  fun_induction expandFrom ctx expand budget done pending generalizing done' with
  | case1 budget done =>
    rw [respacedItems, List.map_nil, expandFrom]
    refine ⟨?_, hdone.spent, hdone.counter, hdone.reports⟩
    rw [hdone.items, respacedItems_reverse]
  | case2 budget done i tail hi ih =>
    rw [respacedItems_cons, expandFrom, candidate?_respaced hctx, hi]
    exact ih ⟨congrArg (i.respaced :: ·) hdone.items, hdone.spent, hdone.counter, hdone.reports⟩
  | case3 budget done i tail d hi hb size reports ha ih =>
    have hinvoke :=
      invoke_respaced hctx hexpand budget done.counter d (isWhite_of_candidate? hi) tail
    rw [ha] at hinvoke
    rw [respacedItems_cons, expandFrom, candidate?_respaced hctx, hi, Option.map_some]
    dsimp only
    rw [dif_pos hb, hdone.counter]
    generalize invoke ctx' expand' budget done.counter d.respaced i.respaced (respacedItems tail) =
      action at hinvoke
    -- with what is done known for the one side, only the same kind of action is left for
    -- the other one
    cases hinvoke with
    | pass hsame =>
      dsimp only
      rw [← respacedItems_drop]
      refine ih ⟨?_, hdone.spent, rfl, hreports hdone.reports hsame⟩
      dsimp only
      rw [hdone.items, ← respacedItems_take, ← respacedItems_cons, respacedItems_append,
        respacedItems_reverse]
  | case4 budget done i tail d hi hb size items event spent counter reports ha ih =>
    have hinvoke :=
      invoke_respaced hctx hexpand budget done.counter d (isWhite_of_candidate? hi) tail
    rw [ha] at hinvoke
    rw [respacedItems_cons, expandFrom, candidate?_respaced hctx, hi, Option.map_some]
    dsimp only
    rw [dif_pos hb, hdone.counter]
    generalize invoke ctx' expand' budget done.counter d.respaced i.respaced (respacedItems tail) =
      action at hinvoke
    cases hinvoke with
    | replace hitems hsame =>
      dsimp only
      rw [hitems, ← respacedItems_drop, ← respacedItems_append]
      exact ih ⟨hdone.items, congrArg (· + (spent + 1)) hdone.spent, rfl,
        hreports hdone.reports hsame⟩
  | case5 done i tail d hi hb ih =>
    rw [respacedItems_cons, expandFrom, candidate?_respaced hctx, hi, Option.map_some]
    dsimp only
    rw [dif_neg hb, dif_pos rfl]
    exact ih ⟨congrArg (i.respaced :: ·) hdone.items, congrArg (· + 1) hdone.spent, hdone.counter,
      hreports hdone.reports rfl⟩
  | case6 budget done i tail d hi hb hz ih =>
    rw [respacedItems_cons, expandFrom, candidate?_respaced hctx, hi, Option.map_some]
    dsimp only
    rw [dif_neg hb, dif_neg hz]
    exact ih ⟨congrArg (i.respaced :: ·) hdone.items, hdone.spent, hdone.counter, hdone.reports⟩

/-- **Each level expands respaced items in the same way**, spacing apart. -/
theorem expandWithin_respaced (hctx : ctx'.Respaces ctx) (levels : Nat) :
    Expander.Respaces (expandWithin ctx' levels) (expandWithin ctx levels) := by
  induction levels with
  | zero =>
    intro budget counter items
    refine ⟨rfl, rfl, rfl, ?_⟩
    cases items <;> rfl
  | succ levels ih =>
    exact fun budget counter items =>
      expandFrom_respaced hctx ih budget ⟨rfl, rfl, rfl, rfl⟩ items

/-- **The tokens of a line are expanded in the same way when all is respaced.** -/
theorem expand_respaced (hctx : ctx'.Respaces ctx) (counter : Nat) (tokens : List Token) :
    (Expansion.expand ctx' counter (tokens.map Token.respaced)).Respaces
      (Expansion.expand ctx counter tokens) := by
  have hitems :
      Item.ofTokens (tokens.map Token.respaced) = respacedItems (Item.ofTokens tokens) := by
    refine List.ext_getElem? fun n => ?_
    rw [Item.ofTokens, Item.ofTokens, respacedItems, List.getElem?_mapIdx, List.getElem?_map,
      List.getElem?_map, List.getElem?_mapIdx]
    cases tokens[n]? <;> rfl
  rw [Expansion.expand, Expansion.expand, hitems]
  exact expandWithin_respaced hctx levelLimit _ _ _

end Expansion

namespace Definition

variable {d e : Definition}

/-- The definition was read, or it is one of the builtins. -/
def IsMade (d : Definition) : Prop :=
  (∃ operand file line, read operand file line = .ok d) ∨ d ∈ builtins

/-- In the body of a made definition white space is a stretch of blanks. -/
theorem IsMade.isStretch (h : d.IsMade) : ∀ t ∈ d.body, t.isWhite = true → t.IsStretch := by
  rcases h with ⟨operand, file, line, hread⟩ | hbuiltin
  · obtain ⟨-, replacement, hbody⟩ := isDeclared_of_read hread
    intro t ht
    rw [hbody] at ht
    exact isStretch_of_mem_tokenizeFrom (mem_of_mem_trimWhite ht)
  · have hbodies : ∀ d ∈ builtins, d.body = [] := by decide
    intro t ht
    rw [hbodies d hbuiltin] at ht
    cases ht

/-- What stretches of white space are respaced to is seen from the outline. -/
theorem map_respaced_eq {body : List Token} (h : ∀ t ∈ body, t.isWhite = true → t.IsStretch) :
    body.map Token.respaced = (outline body).map fun (kind, text) => ⟨kind, text, 0⟩ := by
  rw [outline, List.map_map]
  refine List.map_congr_left fun t ht => ?_
  rw [Token.respaced, Function.comp_apply]
  cases hwhite : t.isWhite with
  | true => rw [if_pos (h t ht hwhite), if_pos rfl]
  | false =>
    rw [if_neg fun hstretch => Bool.false_ne_true (hwhite.symm.trans hstretch.1),
      if_neg Bool.false_ne_true]

/-- **Definitions of a name that may stand for each other are respaced to one.** -/
theorem respaced_eq_of_sameAs (hd : d.IsMade) (he : e.IsMade) (hname : d.name = e.name)
    (h : d.sameAs e = true) : d.respaced = e.respaced := by
  rw [sameAs, Bool.and_eq_true, decide_eq_true_eq, decide_eq_true_eq] at h
  rw [respaced, respaced, hname, h.1, map_respaced_eq hd.isStretch, map_respaced_eq he.isStretch,
    h.2]

end Definition

/-- The table with all its definitions respaced. -/
def Table.respaced (t : Table) : Table where
  entries := t.entries.map Definition.respaced
  distinct := by
    rw [List.map_map]
    exact t.distinct

/-- A name is found in the respaced table where it is found in the table. -/
theorem Table.find?_respaced (t : Table) (name : Text) :
    t.respaced.find? name = (t.find? name).map Definition.respaced := by
  rw [find?, respaced, List.find?_map]
  rfl

/-- Tables with the same names are respaced alike, if the definitions of each name may stand
for each other. -/
theorem Table.map_respaced_find? {t u : Table} (ht : ∀ d ∈ t.entries, d.IsMade)
    (hu : ∀ d ∈ u.entries, d.IsMade) (hnames : ∀ name, name ∈ t.names ↔ name ∈ u.names)
    (hsame : ∀ d ∈ t.entries, ∀ e ∈ u.entries, d.name = e.name → d.sameAs e = true) (name : Text) :
    (t.find? name).map Definition.respaced = (u.find? name).map Definition.respaced := by
  have hnone {t : Table} : t.find? name = none ↔ name ∉ t.names := by
    rw [find?, List.find?_eq_none, names, List.mem_map]
    simp
  cases hd : t.find? name with
  | none =>
    rw [hnone, hnames, ← hnone] at hd
    rw [hd]
  | some d =>
    cases he : u.find? name with
    | none =>
      rw [hnone, ← hnames, ← hnone, hd] at he
      cases he
    | some e =>
      obtain ⟨hdmem, hdname⟩ := find?_eq_some hd
      obtain ⟨hemem, hename⟩ := find?_eq_some he
      have hname : d.name = e.name := hdname.trans hename.symm
      exact congrArg some (Definition.respaced_eq_of_sameAs (ht d hdmem) (hu e hemem) hname
        (hsame d hdmem e hemem hname))

open Expansion

/-- Outcomes that are respaced to one agree in the kinds of their tokens, in all spellings
but those of white space, in their counters, and in the codes and sites of their reports. -/
theorem Expansion.Outcome.Respaces.agree {o r s : Outcome} (hr : o.Respaces r)
    (hs : o.Respaces s) :
    List.Forall₂ (fun a b => a.kind = b.kind ∧ (a.kind ≠ .whitespace → a.text = b.text))
        (r.items.map Item.token) (s.items.map Item.token) ∧
      r.counter = s.counter ∧
      r.reports.map (fun q => (q.cause.code, q.site)) =
        s.reports.map (fun q => (q.cause.code, q.site)) := by
  refine ⟨?_, hr.counter.symm.trans hs.counter, ?_⟩
  · have hitems : List.Forall₂ Eq (respacedItems r.items) (respacedItems s.items) := by
      rw [List.forall₂_eq_eq_eq]
      exact hr.items.symm.trans hs.items
    rw [respacedItems, respacedItems, List.forall₂_map_left_iff, List.forall₂_map_right_iff]
      at hitems
    rw [List.forall₂_map_left_iff, List.forall₂_map_right_iff]
    refine hitems.imp fun i j hij => ?_
    have htoken : i.token.respaced = j.token.respaced := congrArg Item.token hij
    have hkind : i.token.kind = j.token.kind := by
      rw [← i.token.kind_respaced, htoken, j.token.kind_respaced]
    refine ⟨hkind, fun hwhite => ?_⟩
    have hi : i.token.isWhite = false := by simpa [Token.isWhite] using hwhite
    have hj : j.token.isWhite = false := by simpa [Token.isWhite, ← hkind] using hwhite
    rw [← Token.text_respaced hi, ← Token.text_respaced hj, htoken]
  · have hcode (rs : List Report) : rs.map (fun q => (q.cause.code, q.site)) =
        (rs.map Report.unspelled).map fun q => (q.cause.code, q.site) := by
      rw [List.map_map]
      refine List.map_congr_left fun q _ => ?_
      exact congrArg (·, q.site) q.cause.code_unspelled.symm
    rw [hcode r.reports, hcode s.reports, ← hr.reports, ← hs.reports]

/-- **Definitions that may stand for each other expand alike.**  Two tables have the same
names, and the two definitions of each name may stand for each other.  Then all tokens
expand to tokens of the same kinds and, white space apart, of the same spellings; the
counter ends with the same number, and errors have the same codes and offsets. -/
theorem expandTokens_sameAs {t u : Table} (ht : ∀ d ∈ t.entries, d.IsMade)
    (hu : ∀ d ∈ u.entries, d.IsMade) (hnames : ∀ name, name ∈ t.names ↔ name ∈ u.names)
    (hsame : ∀ d ∈ t.entries, ∀ e ∈ u.entries, d.name = e.name → d.sameAs e = true)
    (file : String) (line : Int) (counter : Nat) (tokens : List Token) :
    List.Forall₂ (fun a b => a.kind = b.kind ∧ (a.kind ≠ .whitespace → a.text = b.text))
        (expandTokens ⟨t, file, line⟩ counter tokens).tokens
        (expandTokens ⟨u, file, line⟩ counter tokens).tokens ∧
      (expandTokens ⟨t, file, line⟩ counter tokens).counter =
        (expandTokens ⟨u, file, line⟩ counter tokens).counter ∧
      (expandTokens ⟨t, file, line⟩ counter tokens).errors.map (fun e => (e.cause.code, e.offset)) =
        (expandTokens ⟨u, file, line⟩ counter tokens).errors.map
          (fun e => (e.cause.code, e.offset)) := by
  have hfirst : Context.Respaces ⟨t.respaced, file, line⟩ ⟨t, file, line⟩ :=
    ⟨t.find?_respaced, rfl, rfl⟩
  have hsecond : Context.Respaces ⟨t.respaced, file, line⟩ ⟨u, file, line⟩ := by
    refine ⟨fun name => ?_, rfl, rfl⟩
    exact (t.find?_respaced name).trans (Table.map_respaced_find? ht hu hnames hsame name)
  obtain ⟨htokens, hcounter, hreports⟩ :=
    (expand_respaced hfirst counter tokens).agree (expand_respaced hsecond counter tokens)
  refine ⟨htokens, hcounter, ?_⟩
  have herrors (rs : List Report) :
      (rs.map (Report.locate tokens)).map (fun e => (e.cause.code, e.offset)) =
        (rs.map fun q => (q.cause.code, q.site)).map fun (code, site) =>
          (code, site.bind fun n => tokens[n]?.map Token.offset) := by
    rw [List.map_map, List.map_map]
    rfl
  rw [expandTokens, expandTokens]
  dsimp only
  rw [herrors, herrors, hreports]

/-- A function whose replacement has one space in one table, and a tab and a comment at other
offsets in the other one, beside a builtin. -/
theorem expandTokens_sameAs_comment :
    ∃ t u : Table, t ≠ u ∧ (∀ d ∈ t.entries, d.IsMade) ∧ (∀ d ∈ u.entries, d.IsMade) ∧
      (∀ name, name ∈ t.names ↔ name ∈ u.names) ∧
      (∀ d ∈ t.entries, ∀ e ∈ u.entries, d.name = e.name → d.sameAs e = true) ∧
      ∀ tokens, (expandTokens ⟨t, "m", 1⟩ 0 tokens).tokens.length =
          (expandTokens ⟨u, "m", 1⟩ 0 tokens).tokens.length ∧
        (expandTokens ⟨t, "m", 1⟩ 0 tokens).counter =
          (expandTokens ⟨u, "m", 1⟩ 0 tokens).counter := by
  let function (space : Text) (offset : Nat) : Definition :=
    { name := "F".toList, shape := .function ["x".toList] .none
      body := [⟨.ident, "x".toList, 0⟩, ⟨.whitespace, space, 1⟩,
        ⟨.ident, "__COUNTER__".toList, offset⟩] }
  let counter : Definition := { name := "__COUNTER__".toList, shape := .builtin }
  let t : Table := { entries := [function [' '] 2, counter], distinct := by decide }
  let u : Table := { entries := [counter, function ['\t', ' '] 6], distinct := by decide }
  have ht : ∀ d ∈ t.entries, d.IsMade := by
    simp only [t, List.forall_mem_cons, List.not_mem_nil, false_imp_iff, implies_true, and_true]
    exact ⟨.inl ⟨"F(x) x __COUNTER__".toList, none, none, by decide +kernel⟩, .inr (by decide)⟩
  have hu : ∀ d ∈ u.entries, d.IsMade := by
    simp only [u, List.forall_mem_cons, List.not_mem_nil, false_imp_iff, implies_true, and_true]
    exact ⟨.inr (by decide),
      .inl ⟨"F( x )x\t/**/__COUNTER__".toList, none, none, by decide +kernel⟩⟩
  have hnames : ∀ name, name ∈ t.names ↔ name ∈ u.names := by
    intro name
    simp only [t, u, Table.names, List.map_cons, List.map_nil, List.mem_cons, List.not_mem_nil,
      or_false]
    exact or_comm
  have hsame : ∀ d ∈ t.entries, ∀ e ∈ u.entries, d.name = e.name → d.sameAs e = true := by decide
  refine ⟨t, u, by decide, ht, hu, hnames, hsame, fun tokens => ?_⟩
  obtain ⟨htokens, hcounter, -⟩ := expandTokens_sameAs ht hu hnames hsame "m" 1 0 tokens
  exact ⟨htokens.length_eq, hcounter⟩

end DevicetreePrep
