/-
# What expansion is made of, respaced

Expansion asks white space for two things only: whether it is white space, and whether it
is empty.  So if all white space is respaced (`Token.respaced`), the same is found at each
step: a replacement has the same parts (`partsFrom_respaced`), the same argument lists
follow a name (`Call.following_respaced`) and bind the same parameters
(`Arguments.bind_respaced`), an argument makes the same string (`stringizeFrom_respaced`)
and two pieces are pasted to the same token or to none (`pasteAll_respaced`).  What these
functions return is respaced in turn, with one exception: where a paste fails, the report
quotes the spellings, so the two reports may differ in them (`Cause.unspelled`).
-/

import DevicetreePrep.Expansion
import DevicetreePrep.Proofs.Expansion.Templates
import DevicetreePrep.Proofs.Token.Respacing

namespace DevicetreePrep

/-- The definition with its replacement respaced, without the place where it was read. -/
def Definition.respaced (d : Definition) : Definition :=
  { name := d.name, shape := d.shape, body := d.body.map Token.respaced }

namespace Expansion

/-! Templates. -/

/-- The part with its tokens respaced. -/
def Part.respaced : Part → Part
  | .token t => .token t.respaced
  | .commaRest comma name => .commaRest comma.respaced name
  | p => p

/-- **The parts of a replacement are respaced with it.** -/
theorem partsFrom_respaced (d : Definition) (before : Option Token) (body : List Token) :
    partsFrom d.respaced (before.map Token.respaced) (body.map Token.respaced) =
      (partsFrom d before body).map Part.respaced := by
  have hroles : Corresponds d.respaced d Token.respaced (fun p' p => p' = p.respaced) body :=
    { isWhite := fun t => t.isWhite_respaced
      isIdent := fun t => t.isIdent_respaced
      isPunct := fun s t => t.isPunct_respaced s
      takes := fun _ _ ht => congrArg d.takes (Token.text_respaced ht)
      tiesComma := fun _ _ ht => congrArg d.tiesComma (Token.text_respaced ht)
      paste := rfl
      token := fun _ _ _ => rfl
      stringize := fun _ _ ht => congrArg Part.stringize (Token.text_respaced ht)
      commaRest := fun c _ _ _ _ ht =>
        congrArg (Part.commaRest c.respaced) (Token.text_respaced ht)
      operand := fun _ _ ht => congrArg Part.operand (Token.text_respaced ht)
      parameter := fun _ _ ht => congrArg Part.parameter (Token.text_respaced ht) }
  have hparts := hroles.forall₂_partsFrom before (List.Subset.refl body)
  rwa [← List.forall₂_map_right_iff, List.forall₂_eq_eq_eq] at hparts

theorem parts_respaced (d : Definition) : parts d.respaced = (parts d).map Part.respaced :=
  partsFrom_respaced d none d.body

/-! Items and argument lists. -/

/-- The item with its token respaced. -/
def Item.respaced (i : Item) : Item :=
  { i with token := i.token.respaced }

/-- The piece with its token respaced. -/
def Piece.respaced (p : Piece) : Piece :=
  { p with token := p.token.respaced }

/-- The items, respaced. -/
def respacedItems (is : List Item) : List Item :=
  is.map Item.respaced

theorem respacedItems_cons (i : Item) (is : List Item) :
    respacedItems (i :: is) = i.respaced :: respacedItems is :=
  rfl

theorem respacedItems_append (is js : List Item) :
    respacedItems (is ++ js) = respacedItems is ++ respacedItems js :=
  List.map_append

theorem respacedItems_reverse (is : List Item) :
    respacedItems is.reverse = (respacedItems is).reverse :=
  List.map_reverse

theorem length_respacedItems (is : List Item) : (respacedItems is).length = is.length :=
  List.length_map ..

theorem respacedItems_take (n : Nat) (is : List Item) :
    respacedItems (is.take n) = (respacedItems is).take n :=
  List.map_take

theorem respacedItems_drop (n : Nat) (is : List Item) :
    respacedItems (is.drop n) = (respacedItems is).drop n :=
  List.map_drop

theorem Item.isPunct_respaced (s : Text) (i : Item) : i.respaced.isPunct s = i.isPunct s :=
  i.token.isPunct_respaced s

/-- Items may be trimmed before or after they are respaced. -/
theorem Item.trim_respaced (is : List Item) :
    Item.trim (respacedItems is) = respacedItems (Item.trim is) := by
  rw [Item.trim, respacedItems, trimWhere, List.dropWhile_map, ← List.map_reverse,
    List.dropWhile_map, ← List.map_reverse]
  rfl

theorem Item.spanOf_respaced (i : Item) (is : List Item) :
    i.respaced.spanOf (respacedItems is) = i.spanOf is :=
  List.foldl_map

/-- **A string is made of the items in the same way when they are respaced.** -/
theorem stringizeFrom_respaced (spaced first : Bool) (is : List Item) :
    stringizeFrom spaced first (respacedItems is) = stringizeFrom spaced first is := by
  induction is generalizing spaced first with
  | nil => rfl
  | cons i is ih =>
    have hempty : i.respaced.token.text.isEmpty = i.token.text.isEmpty :=
      i.token.isEmpty_text_respaced
    have hwhite : i.respaced.isWhite = i.isWhite := rfl
    have hkind : i.respaced.token.kind = i.token.kind := rfl
    rw [respacedItems_cons, stringizeFrom, stringizeFrom, hempty, hwhite, hkind]
    split
    · exact ih _ _
    · rename_i hi
      have htext : i.respaced.token.text = i.token.text :=
        Token.text_respaced (Bool.eq_false_iff.2 hi)
      rw [htext, ih]

namespace Call

/-- The closing bracket is the same among respaced items. -/
theorem untilClose_respaced (depth : Nat) (seen is : List Item) :
    untilClose depth (respacedItems seen) (respacedItems is) =
      (untilClose depth seen is).map fun (inner, close) =>
        (respacedItems inner, close.respaced) := by
  induction is generalizing depth seen with
  | nil => rfl
  | cons i is ih =>
    rw [respacedItems_cons]
    unfold untilClose
    rw [Item.isPunct_respaced, Item.isPunct_respaced]
    split
    · exact ih (depth + 1) (i :: seen)
    · split
      · cases depth with
        | zero => exact congrArg (fun inner => some (inner, i.respaced)) List.map_reverse.symm
        | succ depth => exact ih depth (i :: seen)
      · exact ih depth (i :: seen)

/-- Respaced items are divided at the same commas. -/
theorem divide_respaced (depth : Nat) (is : List Item) :
    divide depth (respacedItems is) =
      ((divide depth is).1.map respacedItems, respacedItems (divide depth is).2) := by
  induction is generalizing depth with
  | nil => rfl
  | cons i is ih =>
    rw [respacedItems_cons, divide, divide]
    simp only [Item.isPunct_respaced, ih]
    split
    · rfl
    · split
      · rename_i hnil
        rw [List.map_eq_nil_iff] at hnil
        rw [hnil]
        rfl
      · rename_i a as hcons
        obtain ⟨b, bs, hargs, rfl, rfl⟩ := List.map_eq_cons_iff.1 hcons
        rw [hargs]
        rfl

/-- The list with its items respaced. -/
def respaced (c : Call) : Call :=
  { c with
    args := c.args.map respacedItems
    commas := respacedItems c.commas
    close := c.close.respaced }

/-- The rest behind some arguments is the same among respaced items. -/
theorem restOf_respaced (n : Nat) (args : List (List Item)) (commas : List Item) :
    restOf n (args.map respacedItems) (respacedItems commas) =
      respacedItems (restOf n args commas) := by
  rw [restOf, restOf, ← List.map_drop, ← respacedItems_drop]
  cases args.drop n with
  | nil => rfl
  | cons a as =>
    simp only [List.map_cons, respacedItems_append]
    simp only [respacedItems, List.zip_map, List.map_flatMap, List.flatMap_map]
    rfl

end Call

/-- What follows a name, respaced. -/
def Following.respaced : Following → Following
  | .call c => .call c.respaced
  | f => f

/-- **Argument lists are found in the same way when the items are respaced.** -/
theorem Call.following_respaced (is : List Item) :
    following (respacedItems is) = (following is).respaced := by
  have hwhite : (respacedItems is).takeWhile Item.isWhite =
      respacedItems (is.takeWhile Item.isWhite) := by
    rw [respacedItems, List.takeWhile_map]
    rfl
  rw [following, following, hwhite, length_respacedItems, ← respacedItems_drop]
  cases is.drop (is.takeWhile Item.isWhite).length with
  | nil => rfl
  | cons i rest =>
    have huntil : untilClose 0 [] (respacedItems rest) = _ := untilClose_respaced 0 [] rest
    rw [respacedItems_cons]
    dsimp only
    rw [Item.isPunct_respaced, huntil]
    split
    · cases untilClose 0 [] rest with
      | none => rfl
      | some p =>
        obtain ⟨inner, close⟩ := p
        simp only [Option.map_some, divide_respaced, Following.respaced, Call.respaced,
          length_respacedItems]
    · rfl

/-- What stands under a name, after a map on all that stands under names. -/
theorem lookup_map {β γ : Type} (f : β → γ) (name : Text) (ps : List (Text × β)) :
    (ps.map (Prod.map id f)).lookup name = (ps.lookup name).map f := by
  induction ps with
  | nil => rfl
  | cons p ps ih =>
    rw [List.map_cons, Prod.map, List.lookup_cons, List.lookup_cons]
    dsimp only [id]
    cases name == p.1 with
    | true => rfl
    | false => exact ih

namespace Arguments

/-- The arguments with their items respaced. -/
def respaced (a : Arguments) : Arguments where
  fixed := a.fixed.map (Prod.map id respacedItems)
  rest := a.rest.map (Prod.map id respacedItems)

/-- A parameter of the respaced arguments stands for respaced items. -/
theorem get_respaced (a : Arguments) (name : Text) :
    a.respaced.get name = respacedItems (a.get name) := by
  have hlookup (ps : List (Text × List Item)) :
      ((ps.map (Prod.map id respacedItems)).lookup name).getD [] =
        respacedItems ((ps.lookup name).getD []) := by
    rw [lookup_map]
    cases ps.lookup name <;> rfl
  rw [get, get, respaced, ← List.map_reverse]
  cases a.rest with
  | none => exact hlookup a.fixed.reverse
  | some p =>
    dsimp only [Option.map_some, Prod.map, id]
    split
    · rfl
    · exact hlookup a.fixed.reverse

/-- The same arguments count when they are respaced. -/
theorem counted_respaced (fixed : List Text) (args : List (List Item)) :
    counted fixed (args.map respacedItems) = (counted fixed args).map respacedItems := by
  match fixed, args with
  | [], [a] =>
    have hempty : (Item.trim (respacedItems a)).isEmpty = (Item.trim a).isEmpty := by
      rw [Item.trim_respaced, respacedItems, List.isEmpty_map]
    rw [List.map_singleton, counted, counted, hempty]
    split <;> rfl
  | _ :: _, args => rfl
  | [], [] => rfl
  | [], _ :: _ :: _ => rfl

/-- **Parameters are bound in the same way when the arguments are respaced.** -/
theorem bind_respaced (fixed : List Text) (rest : Rest) (c : Call) :
    bind fixed rest c.respaced = (bind fixed rest c).map respaced := by
  rw [bind, bind]
  simp only [Call.respaced, counted_respaced, List.length_map, Call.restOf_respaced,
    Item.trim_respaced]
  split
  · rfl
  · have hfixed (args : List (List Item)) :
        (args.map respacedItems).map Item.trim = (args.map Item.trim).map respacedItems := by
      rw [List.map_map, List.map_map]
      exact List.map_congr_left fun a _ => Item.trim_respaced a
    rw [hfixed, List.zip_map_right]
    split <;> rfl

end Arguments

/-! Pasting. -/

/-- The cause without the spellings that it quotes. -/
def Cause.unspelled : Cause → Cause
  | .badPaste _ _ => .badPaste [] []
  | c => c

theorem Cause.code_unspelled (c : Cause) : c.unspelled.code = c.code := by
  cases c <;> rfl

/-- The report without the spellings that it quotes. -/
def Report.unspelled (r : Report) : Report :=
  { r with cause := r.cause.unspelled }

/-- The entry with its token respaced. -/
def Entry.respaced : Entry → Entry
  | .paste => .paste
  | .piece p => .piece p.respaced

/-- **Two pieces are pasted in the same way when they are respaced.** -/
theorem pastePair_respaced (left right : Piece) :
    (pastePair left.respaced right.respaced).1 = (pastePair left right).1.map Piece.respaced ∧
      (pastePair left.respaced right.respaced).2.map Cause.unspelled =
        (pastePair left right).2.map Cause.unspelled := by
  have hleft : left.respaced.token.text.isEmpty = left.token.text.isEmpty :=
    left.token.isEmpty_text_respaced
  have hright : right.respaced.token.text.isEmpty = right.token.text.isEmpty :=
    right.token.isEmpty_text_respaced
  rw [pastePair, pastePair, hleft, hright]
  split
  · exact ⟨rfl, rfl⟩
  · split
    · exact ⟨rfl, rfl⟩
    · rename_i hne _
      have hlex : lexSingle? (left.respaced.token.text ++ right.respaced.token.text) =
          lexSingle? (left.token.text ++ right.token.text) :=
        lexSingle?_respaced (by simpa using hne) right.token
      rw [hlex]
      cases h : lexSingle? (left.token.text ++ right.token.text) with
      | none => exact ⟨rfl, rfl⟩
      | some t =>
        have ht := respaced_of_lexSingle? h
        exact ⟨by simp [Piece.respaced, ht], rfl⟩

/-- A paste in progress is another one, respaced. -/
structure Pasting.Respaces (s' s : Pasting) : Prop where
  out : s'.out = s.out.map Piece.respaced
  pending : s'.pending = s.pending
  causes : s'.causes.map Cause.unspelled = s.causes.map Cause.unspelled

/-- A step of pasting keeps what is pasted the same, spacing apart. -/
theorem Pasting.Respaces.step {s' s : Pasting} (h : s'.Respaces s) (e : Entry) :
    (s'.step e.respaced).Respaces (s.step e) := by
  have happend {cs cs' ds ds' : List Cause}
      (hcs : cs'.map Cause.unspelled = cs.map Cause.unspelled)
      (hds : ds'.map Cause.unspelled = ds.map Cause.unspelled) :
      (cs' ++ ds').map Cause.unspelled = (cs ++ ds).map Cause.unspelled := by
    rw [List.map_append, List.map_append, hcs, hds]
  cases e with
  | paste =>
    have hempty : s'.out.isEmpty = s.out.isEmpty := by rw [h.out, List.isEmpty_map]
    rw [Entry.respaced, Pasting.step, Pasting.step, hempty, h.pending]
    split
    · exact ⟨h.out, rfl, happend h.causes rfl⟩
    · exact ⟨h.out, rfl, h.causes⟩
  | piece p =>
    rw [Entry.respaced, Pasting.step, Pasting.step, h.pending, h.out]
    cases s.pending with
    | false => exact ⟨rfl, rfl, h.causes⟩
    | true =>
      cases s.out with
      | nil => exact ⟨rfl, rfl, h.causes⟩
      | cons left out =>
        obtain ⟨hpieces, hcause⟩ := pastePair_respaced left p
        rw [List.map_cons]
        dsimp only
        refine ⟨?_, rfl, happend h.causes ?_⟩
        · rw [hpieces, List.map_append, List.map_reverse]
        · rw [← Option.toList_map, ← Option.toList_map, hcause]

/-- **Pastes are carried out in the same way when the entries are respaced.** -/
theorem pasteAll_respaced (entries : List Entry) :
    (pasteAll (entries.map Entry.respaced)).1 = (pasteAll entries).1.map Piece.respaced ∧
      (pasteAll (entries.map Entry.respaced)).2.map Cause.unspelled =
        (pasteAll entries).2.map Cause.unspelled := by
  have hfold (es : List Entry) {s' s : Pasting} (h : s'.Respaces s) :
      ((es.map Entry.respaced).foldl Pasting.step s').Respaces (es.foldl Pasting.step s) := by
    induction es generalizing s' s with
    | nil => exact h
    | cons e es ih => exact ih (h.step e)
  have hstart : Pasting.Respaces {} {} := ⟨rfl, rfl, rfl⟩
  obtain ⟨hout, hpending, hcauses⟩ := hfold entries hstart
  have hempty : (fun p : Piece => !p.token.text.isEmpty) ∘ Piece.respaced =
      fun p => !p.token.text.isEmpty := by
    funext p
    exact congrArg (!·) p.token.isEmpty_text_respaced
  rw [pasteAll, pasteAll]
  dsimp only
  rw [hout, hpending, ← List.map_reverse, List.filter_map, hempty]
  refine ⟨rfl, ?_⟩
  split
  · rw [List.map_append, List.map_append, hcauses]
  · exact hcauses

end Expansion

end DevicetreePrep
