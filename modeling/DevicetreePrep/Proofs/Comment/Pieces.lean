/-
# The pieces of a line

A line consists of plain characters, literals and comments, one after the other
(`Comment.Consists`).  A literal goes up to its closing quote, which no backslash hides; a
comment goes up to the first closing mark behind its opening; and both go up to the end if they
are not closed.  Nothing is said here about how a line is read: every line has such pieces
(`Comment.exists_consists`), and to blank out its comments is to write a space over each character
of those pieces that are comments (`Comment.mask_of_consistsFrom`).

A line without its comments is then read in step with the line itself, as code wherever that is
inside of a comment (`Comment.maskIn_resumed`).  A space is no quote, no backslash and no half of
a mark, so no comment is found, and the second time nothing changes.
-/

import DevicetreePrep.Proofs.Comment.Splicing
import DevicetreePrep.Proofs.PhysicalLine.Masking
import DevicetreePrep.Proofs.Token.Spelling
import Mathlib.Data.List.Infix

namespace DevicetreePrep
namespace Comment

/-- A piece of a text. -/
inductive Piece
  /-- A character outside of literals and comments. -/
  | plain (c : Char)
  /-- A literal with its quotes. -/
  | literal (t : Text)
  /-- A comment with its marks, or what stands of it in the text. -/
  | comment (t : Text)
  deriving DecidableEq, Repr

namespace Piece

/-- The characters of a piece. -/
def text : Piece → Text
  | plain c => [c]
  | literal t | comment t => t

/-- What is left of a piece where comments are blanked out. -/
def masked : Piece → Text
  | plain c => [c]
  | literal t => t
  | comment t => List.replicate t.length ' '

/-- A piece keeps its length. -/
theorem length_masked (p : Piece) : p.masked.length = p.text.length := by
  cases p with
  | plain c => rfl
  | literal t => rfl
  | comment t => exact List.length_replicate

end Piece

/-- Behind an opening quote, a literal goes on with `inner`, and `rest` follows it.  The literal
is closed by the first quote of its kind that no backslash hides, or it goes up to the end of the
text. -/
inductive IsQuoted (quote : Char) : (inner rest : Text) → Prop
  | close {rest : Text} : IsQuoted quote [quote] rest
  | unclosed : IsQuoted quote [] []
  /-- A backslash at the end of the text hides nothing. -/
  | backslash : IsQuoted quote ['\\'] []
  | escape {c : Char} {inner rest : Text} (h : IsQuoted quote inner rest) :
      IsQuoted quote ('\\' :: c :: inner) rest
  | char {c : Char} {inner rest : Text} (hquote : c ≠ quote) (hescape : c ≠ '\\')
      (h : IsQuoted quote inner rest) : IsQuoted quote (c :: inner) rest

/-- The mark that closes a comment. -/
def closingMark : Text := ['*', '/']

/-- Inside of a comment, the comment goes on with `inner`, and `rest` follows it.  It ends with
its first closing mark, or it goes up to the end of the text. -/
def IsInside (inner rest : Text) : Prop :=
  (∃ t, inner = t ++ closingMark ∧ ¬closingMark <:+: t ++ ['*']) ∨
    (rest = [] ∧ ¬closingMark <:+: inner)

/-- The text consists of these pieces, if it does not start inside of a comment. -/
inductive Consists : Text → List Piece → Prop
  | nil : Consists [] []
  | plain {c : Char} {t : Text} {ps : List Piece} (hquote : c ≠ '"' ∧ c ≠ '\'')
      (hmark : c = '/' → t.head? ≠ some '/' ∧ t.head? ≠ some '*') (h : Consists t ps) :
      Consists (c :: t) (.plain c :: ps)
  | literal {quote : Char} {inner t : Text} {ps : List Piece} (hquote : quote = '"' ∨ quote = '\'')
      (hinner : IsQuoted quote inner t) (h : Consists t ps) :
      Consists (quote :: (inner ++ t)) (.literal (quote :: inner) :: ps)
  | line {t : Text} : Consists ('/' :: '/' :: t) [.comment ('/' :: '/' :: t)]
  | block {inner t : Text} {ps : List Piece} (hinner : IsInside inner t) (h : Consists t ps) :
      Consists ('/' :: '*' :: (inner ++ t)) (.comment ('/' :: '*' :: inner) :: ps)

/-- The text consists of these pieces; `isOpen` says whether it starts inside of a comment. -/
def ConsistsFrom (isOpen : Bool) (t : Text) (ps : List Piece) : Prop :=
  if isOpen then
    ∃ inner rest qs, t = inner ++ rest ∧ IsInside inner rest ∧ Consists rest qs ∧
      ps = .comment inner :: qs
  else Consists t ps

/-- The character number `i` of the text, counted from zero, belongs to the piece `p`. -/
def Belongs (isOpen : Bool) (t : Text) (i : Nat) (p : Piece) : Prop :=
  ∃ before behind, ConsistsFrom isOpen t (before ++ p :: behind) ∧
    (before.flatMap Piece.text).length ≤ i ∧
      i < (before.flatMap Piece.text).length + p.text.length

section Existence

/-- Behind an opening quote a literal goes on somehow. -/
theorem exists_isQuoted (quote : Char) (t : Text) :
    ∃ inner rest, t = inner ++ rest ∧ IsQuoted quote inner rest := by
  fun_induction Lexeme.quotedWidth quote t with
  | case1 => exact ⟨[], [], rfl, .unclosed⟩
  | case2 c cs _ _ _ ih =>
    obtain ⟨inner, rest, rfl, h⟩ := ih
    exact ⟨_, rest, rfl, .escape h⟩
  | case3 cs _ => exact ⟨_, cs, rfl, .close⟩
  | case4 c cs hescape hc _ _ _ ih =>
    by_cases hback : c = '\\'
    · subst hback
      cases cs with
      | nil => exact ⟨_, [], rfl, .backslash⟩
      | cons d ds => exact (hescape d ds rfl rfl).elim
    · obtain ⟨inner, rest, rfl, h⟩ := ih
      exact ⟨_, rest, rfl, .char hc hback h⟩

/-- A closing mark stands at the front of a text or behind its first character. -/
theorem closingMark_infix_cons {c : Char} {t : Text} :
    closingMark <:+: c :: t ↔ (c = '*' ∧ t.head? = some '/') ∨ closingMark <:+: t := by
  rw [List.infix_cons_iff, closingMark, List.cons_prefix_cons]
  refine or_congr_left (and_congr eq_comm ?_)
  cases t with
  | nil => simp
  | cons d t => simp [eq_comm]

/-- Inside of a comment, the comment goes on somehow. -/
theorem exists_isInside (t : Text) : ∃ inner rest, t = inner ++ rest ∧ IsInside inner rest := by
  induction t with
  | nil => exact ⟨[], [], rfl, .inr ⟨rfl, by decide⟩⟩
  | cons c t ih =>
    by_cases hclose : c = '*' ∧ t.head? = some '/'
    · obtain ⟨rfl, hhead⟩ := hclose
      obtain ⟨rest, rfl⟩ := List.head?_eq_some_iff.1 hhead
      exact ⟨closingMark, rest, rfl, .inl ⟨[], rfl, by decide⟩⟩
    · obtain ⟨inner, rest, rfl, ⟨front, rfl, hfront⟩ | ⟨rfl, hinner⟩⟩ := ih
      · refine ⟨_, rest, (List.cons_append ..).symm, .inl ⟨c :: front, rfl, ?_⟩⟩
        rw [List.cons_append, closingMark_infix_cons, not_or]
        refine ⟨fun h => hclose ⟨h.1, ?_⟩, hfront⟩
        cases front with
        | nil => exact absurd h.2 (by decide)
        | cons d front => exact h.2
      · refine ⟨_, [], (List.cons_append ..).symm, .inr ⟨rfl, ?_⟩⟩
        rw [closingMark_infix_cons, not_or]
        rw [List.append_nil] at hclose
        exact ⟨hclose, hinner⟩

/-- **Every text consists of pieces.** -/
theorem exists_consists (t : Text) : ∃ ps, Consists t ps := by
  induction hn : t.length using Nat.strong_induction_on generalizing t with
  | _ n ih =>
    have behind (c : Char) (front rest : Text) (ht : t = c :: (front ++ rest)) :
        ∃ ps, Consists rest ps := by
      refine ih rest.length ?_ rest rfl
      rw [← hn, ht, List.length_cons, List.length_append]
      omega
    cases t with
    | nil => exact ⟨[], .nil⟩
    | cons c t =>
      by_cases hquote : c = '"' ∨ c = '\''
      · obtain ⟨inner, rest, rfl, hinner⟩ := exists_isQuoted c t
        obtain ⟨ps, hps⟩ := behind c inner rest rfl
        exact ⟨_, .literal hquote hinner hps⟩
      · by_cases hline : c = '/' ∧ t.head? = some '/'
        · obtain ⟨rfl, hhead⟩ := hline
          obtain ⟨rest, rfl⟩ := List.head?_eq_some_iff.1 hhead
          exact ⟨_, .line⟩
        · by_cases hblock : c = '/' ∧ t.head? = some '*'
          · obtain ⟨rfl, hhead⟩ := hblock
            obtain ⟨t, rfl⟩ := List.head?_eq_some_iff.1 hhead
            obtain ⟨inner, rest, rfl, hinner⟩ := exists_isInside t
            obtain ⟨ps, hps⟩ := behind '/' ('*' :: inner) rest rfl
            exact ⟨_, .block hinner hps⟩
          · obtain ⟨ps, hps⟩ := behind c [] t rfl
            exact ⟨_, .plain (not_or.1 hquote)
              (fun hc => ⟨fun h => hline ⟨hc, h⟩, fun h => hblock ⟨hc, h⟩⟩) hps⟩

/-- Every text consists of pieces, from either start. -/
theorem exists_consistsFrom (isOpen : Bool) (t : Text) : ∃ ps, ConsistsFrom isOpen t ps := by
  cases isOpen with
  | false => exact exists_consists t
  | true =>
    obtain ⟨inner, rest, rfl, hinner⟩ := exists_isInside t
    obtain ⟨qs, hqs⟩ := exists_consists rest
    exact ⟨_, inner, rest, qs, rfl, hinner, hqs, rfl⟩

end Existence

section Masking

variable {t inner rest : Text} {ps : List Piece}

/-- A literal is kept, and what follows it is read as code. -/
theorem IsQuoted.maskIn_append {quote : Char} (hquote : quote ≠ '\\')
    (h : IsQuoted quote inner rest) :
    maskIn (.quoted quote) (inner ++ rest) = inner ++ maskIn .code rest := by
  induction h with
  | close =>
    rw [List.singleton_append, maskIn.eq_5 _ _ _ fun _ _ hq => absurd hq hquote, if_pos rfl]
    rfl
  | unclosed => rfl
  | backslash => rw [List.append_nil, maskIn.eq_5 _ _ _ (by simp), maskIn_nil, maskIn_nil]; rfl
  | escape h ih =>
    rw [List.cons_append, List.cons_append, maskIn, ih]
    rfl
  | char hc hescape h ih =>
    rw [List.cons_append, maskIn.eq_5 _ _ _ fun _ _ hq => absurd hq hescape, if_neg hc, ih]
    rfl

/-- A line comment is blanked to its end. -/
theorem maskIn_line (t : Text) : maskIn .line t = List.replicate t.length ' ' := by
  induction t with
  | nil => rfl
  | cons c t ih => rw [maskIn, ih, List.length_cons, List.replicate_succ]

theorem maskIn_block_cons {c : Char} (h : ¬(c = '*' ∧ t.head? = some '/')) :
    maskIn .block (c :: t) = ' ' :: maskIn .block t :=
  maskIn.eq_8 c t fun cs hc ht => h ⟨hc, by rw [ht]; rfl⟩

/-- A comment is blanked out as far as it goes on, and what follows it is read as code. -/
theorem IsInside.maskIn_append (h : IsInside inner rest) :
    maskIn .block (inner ++ rest) = List.replicate inner.length ' ' ++ maskIn .code rest := by
  rcases h with ⟨front, rfl, hfront⟩ | ⟨rfl, hinner⟩
  · induction front with
    | nil => rfl
    | cons c front ih =>
      rw [List.cons_append, closingMark_infix_cons, not_or] at hfront
      have hclose : ¬(c = '*' ∧ (front ++ closingMark ++ rest).head? = some '/') := by
        cases front with
        | nil => exact fun h => absurd (Option.some.inj h.2) (by decide)
        | cons d front => exact hfront.1
      rw [List.cons_append, List.cons_append, maskIn_block_cons hclose, ih hfront.2,
        List.length_cons, List.replicate_succ, List.cons_append]
  · rw [maskIn_nil, List.append_nil, List.append_nil]
    induction inner with
    | nil => rfl
    | cons c inner ih =>
      rw [closingMark_infix_cons, not_or] at hinner
      rw [maskIn_block_cons hinner.1, ih hinner.2, List.length_cons, List.replicate_succ]

/-- **To blank out comments is to write spaces over those pieces that are comments.** -/
theorem Consists.maskIn_eq (h : Consists t ps) : maskIn .code t = ps.flatMap Piece.masked := by
  induction h with
  | nil => rfl
  | @plain c t ps hquote hmark h ih =>
    have hline (cs : Text) (hc : c = '/') (ht : t = '/' :: cs) : False :=
      (hmark hc).1 (by rw [ht]; rfl)
    have hblock (cs : Text) (hc : c = '/') (ht : t = '*' :: cs) : False :=
      (hmark hc).2 (by rw [ht]; rfl)
    rw [maskIn.eq_3 _ _ hline hblock, if_neg (by simpa using hquote), ih]
    rfl
  | @literal quote inner t ps hquote hinner h ih =>
    have hslash : quote ≠ '/' := by rcases hquote with rfl | rfl <;> decide
    have hback : quote ≠ '\\' := by rcases hquote with rfl | rfl <;> decide
    rw [maskIn.eq_3 _ _ (fun _ hc => absurd hc hslash) fun _ hc => absurd hc hslash,
      if_pos (by simpa using hquote), hinner.maskIn_append hback, ih]
    rfl
  | @line t =>
    rw [maskIn, maskIn_line, List.flatMap_singleton]
    rfl
  | block hinner h ih =>
    rw [maskIn, hinner.maskIn_append, ih]
    rfl

/-- The pieces of a text spell it. -/
theorem Consists.text_eq (h : Consists t ps) : ps.flatMap Piece.text = t := by
  induction h with
  | nil => rfl
  | plain hquote hmark h ih => rw [List.flatMap_cons, ih]; rfl
  | literal hquote hinner h ih => rw [List.flatMap_cons, ih]; rfl
  | line => exact List.flatMap_singleton ..
  | block hinner h ih => rw [List.flatMap_cons, ih]; rfl

variable {isOpen : Bool}

/-- The pieces of a text make it up. -/
theorem ConsistsFrom.text_eq (h : ConsistsFrom isOpen t ps) : ps.flatMap Piece.text = t := by
  cases isOpen with
  | false => exact Consists.text_eq h
  | true =>
    obtain ⟨inner, rest, qs, rfl, -, hqs, rfl⟩ := h
    rw [List.flatMap_cons, hqs.text_eq]
    rfl

/-- Masking a text masks its pieces. -/
theorem mask_of_consistsFrom (h : ConsistsFrom isOpen t ps) :
    mask isOpen t = ps.flatMap Piece.masked := by
  cases isOpen with
  | false => exact Consists.maskIn_eq h
  | true =>
    obtain ⟨inner, rest, qs, rfl, hinner, hqs, rfl⟩ := h
    exact hinner.maskIn_append.trans (congrArg (_ ++ ·) hqs.maskIn_eq)

end Masking

section Places

variable {isOpen : Bool} {t : Text} {i : Nat} {p : Piece}

theorem length_flatMap_masked (ps : List Piece) :
    (ps.flatMap Piece.masked).length = (ps.flatMap Piece.text).length := by
  simp only [List.length_flatMap, Piece.length_masked]

/-- **A character of a piece is found again where the piece is masked.** -/
theorem Belongs.getElem?_eq (h : Belongs isOpen t i p) :
    ∃ k < p.text.length, t[i]? = p.text[k]? ∧ (mask isOpen t)[i]? = p.masked[k]? := by
  obtain ⟨before, behind, hpieces, hle, hlt⟩ := h
  refine ⟨i - (before.flatMap Piece.text).length, by omega, ?_, ?_⟩
  · rw [← hpieces.text_eq, List.flatMap_append, List.flatMap_cons,
      List.getElem?_append_right hle, List.getElem?_append_left (by omega)]
  · rw [mask_of_consistsFrom hpieces, List.flatMap_append, List.flatMap_cons,
      List.getElem?_append_right (by rwa [length_flatMap_masked]), length_flatMap_masked,
      List.getElem?_append_left (by rw [Piece.length_masked]; omega)]

/-- A position in the characters of some pieces lies in one of them. -/
theorem exists_piece_of_lt {ps : List Piece} {i : Nat} (hi : i < (ps.flatMap Piece.text).length) :
    ∃ before p behind, ps = before ++ p :: behind ∧ (before.flatMap Piece.text).length ≤ i ∧
      i < (before.flatMap Piece.text).length + p.text.length := by
  induction ps generalizing i with
  | nil => cases hi
  | cons p ps ih =>
    by_cases hp : i < p.text.length
    · exact ⟨[], p, ps, rfl, Nat.zero_le i, by simpa using hp⟩
    · rw [List.flatMap_cons, List.length_append] at hi
      have hrest : i - p.text.length < (ps.flatMap Piece.text).length := by omega
      obtain ⟨before, q, behind, rfl, hle, hlt⟩ := ih hrest
      refine ⟨p :: before, q, behind, rfl, ?_, ?_⟩ <;>
        rw [List.flatMap_cons, List.length_append] <;> omega

/-- Every character of a text belongs to a piece. -/
theorem exists_belongs (isOpen : Bool) (hi : i < t.length) : ∃ p, Belongs isOpen t i p := by
  obtain ⟨ps, hps⟩ := exists_consistsFrom isOpen t
  obtain ⟨before, p, behind, rfl, hle, hlt⟩ := exists_piece_of_lt (by rwa [hps.text_eq])
  exact ⟨p, before, behind, hps, hle, hlt⟩

/-- At a place of a piece that is kept, the text is kept. -/
theorem Belongs.kept (h : Belongs isOpen t i p) (hp : p.masked = p.text) :
    (mask isOpen t)[i]? = t[i]? := by
  obtain ⟨k, -, htext, hmasked⟩ := h.getElem?_eq
  rw [htext, hmasked, hp]

/-- At a place of a comment there is a blank. -/
theorem Belongs.blank {c : Text} (h : Belongs isOpen t i (.comment c)) :
    (mask isOpen t)[i]? = some ' ' := by
  obtain ⟨k, hk, -, hmasked⟩ := h.getElem?_eq
  rw [hmasked]
  exact List.getElem?_replicate_of_lt hk

end Places

/-- The mode in which a text without its comments is read where the text itself is read in the
mode `m`. -/
def Mode.resumed : Mode → Mode
  | .quoted quote => .quoted quote
  | .code | .line | .block => .code

/-- A mode that shows its characters is resumed as it is. -/
theorem Mode.resumed_of_shows {m : Mode} (h : m.shows = true) : m.resumed = m := by
  cases m with
  | code | quoted quote => rfl
  | line | block => cases h

theorem Mode.resumed_ne_block (m : Mode) : m.resumed ≠ .block := by
  cases m <;> exact Mode.noConfusion

/-- The first character that is shown, if it is no space, is the first one of the text. -/
theorem exists_of_maskIn_eq_cons {m : Mode} {t rest : Text} {c : Char}
    (h : maskIn m t = c :: rest) (hc : c ≠ ' ') : ∃ cs, t = c :: cs := by
  have hblanked := blanked_maskIn m t
  rw [h] at hblanked
  cases hblanked with
  | cons hchar _ => exact ⟨_, by rw [hchar.resolve_right hc]⟩

/-- **A text without its comments is read in step with the text.**  Nothing in it changes, and it
ends in the same literal or as code. -/
theorem maskIn_resumed (m : Mode) (t : Text) :
    maskIn m.resumed (maskIn m t) = maskIn m t ∧
      modeAfter m.resumed (maskIn m t) = (modeAfter m t).resumed := by
  fun_induction maskIn m t with
  | case1 cs ih | case2 cs ih | case7 cs ih => exact ⟨congrArg (' ' :: ' ' :: ·) ih.1, ih.2⟩
  | case3 c cs hline hblock ih =>
    rw [Mode.resumed_of_shows (by split <;> rfl)] at ih
    -- a slash is followed by what followed it, or by a space
    have hnext {m : Mode} {d : Char} {rest : Text} (hd : d ≠ ' ')
        (h : ∀ cs', c = '/' → cs = d :: cs' → False) (hc : c = '/')
        (hmask : maskIn m cs = d :: rest) : False := by
      obtain ⟨cs', hcs⟩ := exists_of_maskIn_eq_cons hmask hd
      exact h cs' hc hcs
    rw [Mode.resumed, maskIn.eq_3 _ _ (fun _ => hnext (by decide) hline) fun _ =>
        hnext (by decide) hblock,
      modeAfter.eq_3 _ _ (fun _ => hnext (by decide) hline) fun _ => hnext (by decide) hblock,
      modeAfter.eq_3 _ _ hline hblock, ih.1]
    exact ⟨rfl, ih.2⟩
  | case4 q c cs ih => exact ⟨congrArg ('\\' :: c :: ·) ih.1, ih.2⟩
  | case5 q c cs hescape ih =>
    rw [Mode.resumed_of_shows (by split <;> rfl)] at ih
    -- a backslash that hides nothing stands at the end, which stays the end
    have hescape' (d : Char) (rest : Text) (hc : c = '\\')
        (h : maskIn (if c = q then .code else .quoted q) cs = d :: rest) : False := by
      cases cs with
      | nil => rw [maskIn_nil] at h; cases h
      | cons e es => exact hescape e es hc rfl
    rw [Mode.resumed, maskIn.eq_5 _ _ _ hescape', modeAfter.eq_5 _ _ _ hescape',
      modeAfter.eq_5 _ _ _ hescape, ih.1]
    exact ⟨rfl, ih.2⟩
  | case6 c cs ih => exact ⟨congrArg (' ' :: ·) ih.1, ih.2⟩
  | case8 c cs hclose ih =>
    rw [modeAfter.eq_8 _ _ hclose]
    exact ⟨congrArg (' ' :: ·) ih.1, ih.2⟩
  | case9 m =>
    rw [modeAfter_nil, modeAfter_nil, maskIn_nil]
    exact ⟨rfl, rfl⟩

theorem resumed_startMode (isOpen : Bool) : (startMode isOpen).resumed = startMode false := by
  cases isOpen <;> rfl

/-- **Comments are blanked out in place and once for all.**  A line keeps its width, and each of
its characters is kept or becomes a space: those of literals and plain characters are kept, and
those of comments become spaces.  A line without its comments has no comment and leaves none
open. -/
theorem mask_idempotent (isOpen : Bool) (t : Text) :
    let m := mask isOpen t
    m.length = t.length ∧
      (∀ i < t.length, m[i]? = t[i]? ∨ m[i]? = some ' ') ∧
      (∀ i < t.length, ∃ p, Belongs isOpen t i p) ∧
      (∀ i l, Belongs isOpen t i (.literal l) → m[i]? = t[i]?) ∧
      (∀ i c, Belongs isOpen t i (.plain c) → m[i]? = t[i]?) ∧
      (∀ i c, Belongs isOpen t i (.comment c) → m[i]? = some ' ') ∧
      mask false m = m ∧ leavesOpen false m = false := by
  obtain ⟨hmask, hmode⟩ := maskIn_resumed (startMode isOpen) t
  rw [resumed_startMode] at hmask hmode
  refine ⟨length_maskIn _ _, fun i hi => ?_, fun i => exists_belongs isOpen,
    fun i l h => h.kept rfl, fun i c h => h.kept rfl, fun i c h => h.blank, hmask, ?_⟩
  · obtain ⟨p, hp⟩ := exists_belongs isOpen hi
    cases p with
    | plain c => exact .inl (hp.kept rfl)
    | literal l => exact .inl (hp.kept rfl)
    | comment c => exact .inr hp.blank
  · rw [leavesOpen, decide_eq_false_iff_not]
    show modeAfter (startMode false) (maskIn (startMode isOpen) t) ≠ .block
    rw [hmode]
    exact Mode.resumed_ne_block _

/-- The end of a comment, a literal with a quote that is hidden and with marks in it, a comment
with a slash behind its opening mark and with a quote in it, and a literal that is not closed. -/
theorem mask_idempotent_literals_and_comments :
    let line : Text := "*/'\\'//'/*/\"*/\"//".toList
    Belongs true line 4 (.literal "'\\'//'".toList) ∧ (mask true line)[4]? = some '\'' ∧
      Belongs true line 11 (.comment "/*/\"*/".toList) ∧ (mask true line)[11]? = some ' ' ∧
      Belongs true line 15 (.literal "\"//".toList) ∧ (mask true line)[15]? = some '/' ∧
      mask false (mask true line) = mask true line := by
  intro line
  obtain ⟨-, -, -, hliteral, -, hcomment, hmask, -⟩ := mask_idempotent true line
  have hquoted : IsQuoted '\'' "\\'//'".toList "/*/\"*/\"//".toList :=
    .escape (.char (by decide) (by decide) (.char (by decide) (by decide) .close))
  have hinside : IsInside "/\"*/".toList "\"//".toList := .inl ⟨['/', '"'], rfl, by decide⟩
  have hunclosed : IsQuoted '"' ['/', '/'] [] :=
    .char (by decide) (by decide) (.char (by decide) (by decide) .unclosed)
  have hpieces : ConsistsFrom true line
      [.comment closingMark, .literal "'\\'//'".toList, .comment "/*/\"*/".toList,
        .literal "\"//".toList] :=
    ⟨closingMark, _, _, rfl, .inl ⟨[], rfl, by decide⟩,
      .literal (.inr rfl) hquoted (.block hinside (.literal (.inl rfl) hunclosed .nil)), rfl⟩
  have hfirst : Belongs true line 4 (.literal "'\\'//'".toList) :=
    ⟨[.comment closingMark], _, hpieces, by decide, by decide⟩
  have hblock : Belongs true line 11 (.comment "/*/\"*/".toList) :=
    ⟨[.comment closingMark, .literal "'\\'//'".toList], _, hpieces, by decide, by decide⟩
  have hlast : Belongs true line 15 (.literal "\"//".toList) :=
    ⟨[.comment closingMark, .literal "'\\'//'".toList, .comment "/*/\"*/".toList], _, hpieces,
      by decide, by decide⟩
  exact ⟨hfirst, hliteral 4 _ hfirst, hblock, hcomment 11 _ hblock, hlast, hliteral 15 _ hlast,
    hmask⟩

end Comment
end DevicetreePrep
