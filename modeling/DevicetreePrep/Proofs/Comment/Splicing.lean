/-
# Comments in continued lines

Comments are blanked out line by line, before continued lines are made one.  So a line
is read from its start as code, or inside of a comment that is still open, whatever the
line before it ended with.  `LogicalLine.mask_raw` says when this makes no difference:
the logical line without its comments is the raw logical line, blanked out as a whole,
if every cut is clean (`Comment.IsCleanCut`).  A cut is not clean if a comment that
starts behind the backslash goes on in the next line, if it divides a mark of a comment,
or if it stands in a literal and the next line has a mark; in each of these cases the
two may differ (`LogicalLine.mask_raw_ne`).

What a text does where it is cut is said once (`Comment.goesOn_append`).  The lines are
then taken one by one: those before a cut read as one, and the next line goes on with
them (`Comment.ReadsAsOne.snoc`).
-/

import DevicetreePrep.Proofs.PhysicalLine.Continuation
import DevicetreePrep.Proofs.Run.LogicalLine
import Mathlib.Data.List.Induction

namespace DevicetreePrep

namespace Comment

/-- Whether two characters that start a comment stand somewhere in a text. -/
def hasMark : Text → Bool
  | '/' :: '/' :: _ => true
  | '/' :: '*' :: _ => true
  | _ :: cs => hasMark cs
  | [] => false

/-- A text without a mark of a comment has none behind its first character. -/
theorem hasMark_of_cons {c : Char} {t : Text} (h : hasMark (c :: t) = false) :
    hasMark t = false := by
  unfold hasMark at h
  split at h <;> simp_all

/-- A text without a mark of a comment has none in its front. -/
theorem hasMark_of_append {a b : Text} (h : hasMark (a ++ b) = false) : hasMark a = false := by
  induction a with
  | nil => rfl
  | cons c a ih =>
    have htail := ih (hasMark_of_cons h)
    unfold hasMark
    split
    · rename_i heq
      rw [heq] at h
      cases h
    · rename_i heq
      rw [heq] at h
      cases h
    · rename_i heq
      rw [← (List.cons.inj heq).2]
      exact htail
    · rfl

/-- Whether characters are kept in a mode: in code and in literals. -/
def Mode.shows : Mode → Bool
  | .code | .quoted _ => true
  | .line | .block => false

theorem maskIn_nil (m : Mode) : maskIn m [] = [] := by
  cases m <;> rfl

theorem modeAfter_nil (m : Mode) : modeAfter m [] = m := by
  cases m <;> rfl

/-- A text without marks has no comments, whether it starts in a literal or not. -/
theorem maskIn_of_not_hasMark {m : Mode} (hm : m.shows = true) {t : Text}
    (h : hasMark t = false) : maskIn m t = t ∧ (modeAfter m t).shows = true := by
  fun_induction maskIn m t with
  | case1 cs ih => cases h
  | case2 cs ih => cases h
  | case3 c cs hline hblock ih =>
    obtain ⟨hmask, hmode⟩ := ih (by split <;> rfl) (hasMark_of_cons h)
    rw [modeAfter.eq_3 _ _ hline hblock]
    exact ⟨by rw [hmask], hmode⟩
  | case4 q c cs ih =>
    obtain ⟨hmask, hmode⟩ := ih rfl (hasMark_of_cons (hasMark_of_cons h))
    exact ⟨by rw [hmask], hmode⟩
  | case5 q c cs hescape ih =>
    obtain ⟨hmask, hmode⟩ := ih (by split <;> rfl) (hasMark_of_cons h)
    rw [modeAfter.eq_5 _ _ _ hescape]
    exact ⟨by rw [hmask], hmode⟩
  | case6 => cases hm
  | case7 => cases hm
  | case8 => cases hm
  | case9 m => exact ⟨rfl, by rw [modeAfter_nil]; exact hm⟩

/-- A mark is divided: what is shown ends with a slash, and what follows makes it a
mark. -/
def SplitsMark (shown next : Text) : Prop :=
  shown.getLast? = some '/' ∧ (next.head? = some '/' ∨ next.head? = some '*')

/-- How a text goes on with `next`.  The text so far reads as the first text, up to the
first mode; the whole reads as the second text, up to the second mode. -/
inductive GoesOn (next : Text) : Text → Mode → Text → Mode → Prop
  /-- What follows is read in the mode that the text so far ends in. -/
  | resumed {shown : Text} {m : Mode} :
      GoesOn next shown m (shown ++ maskIn m next) (modeAfter m next)
  /-- The text so far ends with a backslash in a literal: the next character is
  escaped. -/
  | escaped {shown : Text} {quote c : Char} {cs : Text} (h : next = c :: cs) :
      GoesOn next shown (.quoted quote) (shown ++ c :: maskIn (.quoted quote) cs)
        (modeAfter (.quoted quote) cs)
  /-- A mark that starts a comment is divided. -/
  | mark {shown whole : Text} {m : Mode} (h : SplitsMark shown next) :
      GoesOn next shown .code whole m
  /-- The mark that ends a comment is divided. -/
  | close {shown whole : Text} {m : Mode} (h : next.head? = some '/') :
      GoesOn next shown .block whole m

/-- How a text goes on does not depend on a character in front that is shown. -/
theorem GoesOn.cons {next shown whole : Text} {m m' : Mode} (c : Char)
    (h : GoesOn next shown m whole m') : GoesOn next (c :: shown) m (c :: whole) m' := by
  cases h with
  | resumed => exact .resumed
  | escaped h => exact .escaped h
  | mark h =>
    refine .mark ⟨?_, h.2⟩
    rw [List.getLast?_cons, h.1]
    rfl
  | close h => exact .close h

/-- **What happens where a text is cut.**  No literal is closed by a backslash, which is
all that is asked of the mode. -/
theorem goesOn_append {m : Mode} (hm : m ≠ .quoted '\\') (front next : Text) :
    GoesOn next (maskIn m front) (modeAfter m front) (maskIn m (front ++ next))
      (modeAfter m (front ++ next)) := by
  fun_induction maskIn m front with
  | case1 cs ih =>
    rw [List.cons_append, List.cons_append, maskIn, modeAfter, modeAfter]
    exact ((ih Mode.noConfusion).cons ' ').cons ' '
  | case2 cs ih =>
    rw [List.cons_append, List.cons_append, maskIn, modeAfter, modeAfter]
    exact ((ih Mode.noConfusion).cons ' ').cons ' '
  | case3 c cs hline hblock ih =>
    have hquoted : (if c = '"' || c = '\'' then Mode.quoted c else .code) ≠ .quoted '\\' := by
      split
      · rename_i hc
        intro h
        rw [Mode.quoted.inj h] at hc
        exact absurd hc (by decide)
      · exact Mode.noConfusion
    by_cases hmark : SplitsMark [c] (cs ++ next)
    · -- the character is the first half of a mark, so nothing stands behind it in `front`
      obtain ⟨hc, hhead⟩ := hmark
      obtain rfl : c = '/' := Option.some.inj hc
      cases cs with
      | nil => exact .mark ⟨rfl, hhead⟩
      | cons d ds =>
        rcases hhead with hd | hd <;> obtain rfl := Option.some.inj hd
        · exact absurd rfl (hline ds rfl)
        · exact absurd rfl (hblock ds rfl)
    · have hline' (rest : Text) : c = '/' → cs ++ next = '/' :: rest → False := by
        rintro rfl hrest
        exact hmark ⟨rfl, .inl (by rw [hrest]; rfl)⟩
      have hblock' (rest : Text) : c = '/' → cs ++ next = '*' :: rest → False := by
        rintro rfl hrest
        exact hmark ⟨rfl, .inr (by rw [hrest]; rfl)⟩
      rw [List.cons_append, maskIn.eq_3 _ _ hline' hblock', modeAfter.eq_3 _ _ hline hblock,
        modeAfter.eq_3 _ _ hline' hblock']
      exact (ih hquoted).cons c
  | case4 q c cs ih =>
    rw [List.cons_append, List.cons_append, maskIn, modeAfter, modeAfter]
    exact ((ih hm).cons c).cons '\\'
  | case5 q c cs hescape ih =>
    have hquoted : (if c = q then Mode.code else .quoted q) ≠ .quoted '\\' := by
      split
      · exact Mode.noConfusion
      · exact hm
    by_cases hc : c = '\\' ∧ cs ++ next ≠ []
    · obtain ⟨rfl, hrest⟩ := hc
      obtain ⟨d, ds, hd⟩ := List.exists_cons_of_ne_nil hrest
      obtain rfl : cs = [] := by
        cases cs with
        | nil => rfl
        | cons e es => exact (hescape e es rfl rfl).elim
      obtain rfl : next = d :: ds := hd
      have hq : '\\' ≠ q := by
        rintro rfl
        exact hm rfl
      rw [modeAfter.eq_5 _ _ _ hescape, if_neg hq, maskIn_nil, modeAfter_nil]
      exact .escaped rfl
    · have hescape' (d : Char) (rest : Text) : c = '\\' → cs ++ next = d :: rest → False := by
        rintro rfl hrest
        exact hc ⟨rfl, by rw [hrest]; exact List.cons_ne_nil _ _⟩
      rw [List.cons_append, maskIn.eq_5 _ _ _ hescape', modeAfter.eq_5 _ _ _ hescape,
        modeAfter.eq_5 _ _ _ hescape']
      exact (ih hquoted).cons c
  | case6 c cs ih =>
    rw [List.cons_append, maskIn, modeAfter, modeAfter]
    exact (ih Mode.noConfusion).cons ' '
  | case7 cs ih =>
    rw [List.cons_append, List.cons_append, maskIn, modeAfter, modeAfter]
    exact ((ih Mode.noConfusion).cons ' ').cons ' '
  | case8 c cs hclose ih =>
    by_cases hc : c = '*' ∧ (cs ++ next).head? = some '/'
    · obtain ⟨rfl, hhead⟩ := hc
      cases cs with
      | nil => exact .close hhead
      | cons d ds =>
        obtain rfl := Option.some.inj hhead
        exact (hclose ds rfl rfl).elim
    · have hclose' (rest : Text) : c = '*' → cs ++ next = '/' :: rest → False := by
        rintro rfl hrest
        exact hc ⟨rfl, by rw [hrest]; rfl⟩
      rw [List.cons_append, maskIn.eq_8 _ _ hclose', modeAfter.eq_8 _ _ hclose,
        modeAfter.eq_8 _ _ hclose']
      exact (ih Mode.noConfusion).cons ' '
  | case9 m =>
    rw [modeAfter_nil]
    exact .resumed

/-- A text that is read up to `front` may go on with a new line: no mark is divided, and
inside of a literal the line has no mark. -/
structure Resumes (m : Mode) (front next : Text) : Prop where
  undivided : modeAfter m front = .code → ¬SplitsMark (maskIn m front) next
  unmarked : ∀ quote, modeAfter m front = .quoted quote → hasMark next = false

/-- Where a text may go on with a line it may go on with the front of that line. -/
theorem Resumes.of_append {m : Mode} {front a b : Text} (h : Resumes m front (a ++ b)) :
    Resumes m front a := by
  refine ⟨fun hmode => ?_, fun quote hmode => hasMark_of_append (h.unmarked quote hmode)⟩
  rintro ⟨hlast, hhead⟩
  refine h.undivided hmode ⟨hlast, ?_⟩
  cases a with
  | nil => rcases hhead with hhead | hhead <;> cases hhead
  | cons c a => exact hhead

/-- **A text that may go on with a line reads on as the line does by itself.** -/
theorem Resumes.maskIn_append {m : Mode} (hm : m ≠ .quoted '\\') {front next : Text}
    (hshows : (modeAfter m front).shows = true) (h : Resumes m front next) :
    maskIn m (front ++ next) = maskIn m front ++ maskIn .code next ∧
      (modeAfter m (front ++ next) = modeAfter .code next ∨
        (modeAfter m (front ++ next)).shows = true ∧ (modeAfter .code next).shows = true) := by
  have hgoes := goesOn_append hm front next
  cases hmode : modeAfter m front with
  | line => rw [hmode] at hshows; cases hshows
  | block => rw [hmode] at hshows; cases hshows
  | code =>
    rw [hmode] at hgoes
    generalize maskIn m (front ++ next) = whole at hgoes ⊢
    generalize modeAfter m (front ++ next) = m' at hgoes ⊢
    cases hgoes with
    | resumed => exact ⟨rfl, .inl rfl⟩
    | mark hmark => exact absurd hmark (h.undivided hmode)
  | quoted quote =>
    -- in a literal or not, a line without marks is kept as it is
    have hnext := h.unmarked quote hmode
    obtain ⟨hcode, hcodeMode⟩ := maskIn_of_not_hasMark (m := .code) rfl hnext
    rw [hmode] at hgoes
    rw [hcode]
    generalize maskIn m (front ++ next) = whole at hgoes ⊢
    generalize modeAfter m (front ++ next) = m' at hgoes ⊢
    cases hgoes with
    | resumed =>
      obtain ⟨hquoted, hquotedMode⟩ := maskIn_of_not_hasMark (m := .quoted quote) rfl hnext
      rw [hquoted]
      exact ⟨rfl, .inr ⟨hquotedMode, hcodeMode⟩⟩
    | @escaped _ c cs hcons =>
      obtain ⟨hquoted, hquotedMode⟩ :=
        maskIn_of_not_hasMark (m := .quoted quote) rfl (hasMark_of_cons (hcons ▸ hnext))
      rw [hquoted, ← hcons]
      exact ⟨rfl, .inr ⟨hquotedMode, hcodeMode⟩⟩

/-- **A continued line is cut outside of comments**, and what is left of it reads as it
did before. -/
theorem exists_of_isContinued_maskIn {m : Mode} (hm : m ≠ .quoted '\\') {t : Text}
    (h : PhysicalLine.isContinued (maskIn m t) = true) :
    ∃ front rest, t = front ++ rest ∧ PhysicalLine.cutContinued (maskIn m t) t = front ∧
      PhysicalLine.cutContinued (maskIn m t) (maskIn m t) = maskIn m front ∧
      (modeAfter m front).shows = true := by
  obtain ⟨shown, blanks, hmasked, hblanks⟩ := PhysicalLine.exists_of_isContinued h
  have hcut (line : Text) :
      PhysicalLine.cutContinued (maskIn m t) line = line.take shown.length := by
    rw [hmasked, PhysicalLine.cutContinued_of_blanks hblanks]
  -- the backslash is shown, so it stands in the line itself
  obtain ⟨rest, hrest⟩ : ∃ rest, t.drop shown.length = '\\' :: rest := by
    have hdrop := List.forall₂_drop shown.length (blanked_maskIn m t)
    rw [hmasked, List.drop_left' rfl] at hdrop
    generalize t.drop shown.length = tail at hdrop
    cases hdrop with
    | cons hchar _ => exact ⟨_, by rw [← hchar.resolve_right (by decide)]⟩
  have ht : t.take shown.length ++ '\\' :: rest = t := by
    rw [← hrest, List.take_append_drop]
  have hlength : (maskIn m (t.take shown.length)).length = shown.length := by
    have := congrArg List.length hmasked
    rw [length_maskIn, List.length_append] at this
    rw [length_maskIn, List.length_take]
    omega
  -- so what is shown before it is what the front of the line reads as
  have hfront {tail : Text} (h : maskIn m t = maskIn m (t.take shown.length) ++ tail) :
      (maskIn m t).take shown.length = maskIn m (t.take shown.length) ∧
        tail = '\\' :: blanks := by
    rw [hmasked] at h
    obtain ⟨hshown, htail⟩ := List.append_inj h hlength.symm
    rw [hmasked, List.take_left' rfl]
    exact ⟨hshown, htail.symm⟩
  have hgoes := goesOn_append hm (t.take shown.length) ('\\' :: rest)
  rw [ht] at hgoes
  refine ⟨t.take shown.length, '\\' :: rest, ht.symm, hcut t, ?_⟩
  rw [hcut]
  generalize modeAfter m (t.take shown.length) = m' at hgoes ⊢
  generalize maskIn m t = whole at hgoes hfront ⊢
  generalize maskIn m (t.take shown.length) = front at hgoes hfront ⊢
  generalize modeAfter m t = last at hgoes
  cases hgoes with
  | resumed =>
    obtain ⟨htake, htail⟩ := hfront rfl
    refine ⟨htake, ?_⟩
    cases m' with
    | code => rfl
    | quoted quote => rfl
    | line => exact absurd (List.cons.inj htail).1 (by decide)
    | block => exact absurd (List.cons.inj htail).1 (by decide)
  | escaped hcons => exact ⟨(hfront rfl).1, rfl⟩
  | mark hmark =>
    rcases hmark.2 with hhead | hhead <;> exact absurd (Option.some.inj hhead) (by decide)
  | close hhead => exact absurd (Option.some.inj hhead) (by decide)

end Comment

namespace MaskedLine

/-- What is left of raw lines if all of them are continued. -/
def cutRaw (ps : List MaskedLine) : Text :=
  ps.flatMap fun p => PhysicalLine.cutContinued p.masked p.raw

/-- What is left of lines without their comments if all of them are continued. -/
def cutMasked (ps : List MaskedLine) : Text :=
  ps.flatMap fun p => PhysicalLine.cutContinued p.masked p.masked

/-- Lines are masked one behind the other, each from the state that the ones before it leave. -/
theorem ofLines_append (isOpen : Bool) (ts ts' : List Text) :
    ofLines isOpen (ts ++ ts') =
      ofLines isOpen ts ++ ofLines (ts.foldl Comment.leavesOpen isOpen) ts' := by
  induction ts generalizing isOpen with
  | nil => rfl
  | cons t ts ih => rw [List.cons_append, ofLines, ih, ofLines, List.cons_append, List.foldl_cons]

end MaskedLine

namespace LogicalLine

variable {l : LogicalLine} {ps : List MaskedLine} {p : MaskedLine}

/-- The raw text of a logical line: its parts up to their backslashes, and the last one. -/
theorem raw_of_parts (h : l.parts = ps ++ [p]) : l.raw = MaskedLine.cutRaw ps ++ p.raw := by
  rw [raw, h, List.map_append, List.map_singleton, PhysicalLine.splice_append_singleton,
    List.flatMap_map]
  rfl

/-- The masked text of a logical line: its parts up to their backslashes, and the last one. -/
theorem masked_of_parts (h : l.parts = ps ++ [p]) :
    l.masked = MaskedLine.cutMasked ps ++ p.masked := by
  rw [masked, PhysicalLine.join, h, List.map_append, List.map_append, List.map_singleton,
    List.map_singleton, PhysicalLine.splice_append_singleton, List.flatMap_map, List.flatMap_map]
  rfl

end LogicalLine

namespace Comment

variable {isOpen : Bool} {before : List Text} {next : Text}

theorem startMode_ne_quoted (isOpen : Bool) (quote : Char) : startMode isOpen ≠ .quoted quote := by
  cases isOpen <;> exact Mode.noConfusion

/-- The cut between the lines `before` and the line `next` that continues them is clean:
no comment that starts behind the backslash goes on in the next line, no mark is
divided, and inside of a literal the next line has no mark. -/
structure IsCleanCut (isOpen : Bool) (before : List Text) (next : Text) : Prop where
  closed : before.foldl leavesOpen isOpen = false
  resumes : Resumes (startMode isOpen) (MaskedLine.cutRaw (MaskedLine.ofLines isOpen before)) next

/-- Lines that are continued read as one, and end outside of comments. -/
structure ReadsAsOne (isOpen : Bool) (before : List Text) : Prop where
  mask_eq : mask isOpen (MaskedLine.cutRaw (MaskedLine.ofLines isOpen before)) =
    MaskedLine.cutMasked (MaskedLine.ofLines isOpen before)
  shows : (modeAfter (startMode isOpen)
    (MaskedLine.cutRaw (MaskedLine.ofLines isOpen before))).shows = true

/-- A line that is continued reads as one by itself. -/
theorem readsAsOne_singleton {t : Text} (h : PhysicalLine.isContinued (mask isOpen t) = true) :
    ReadsAsOne isOpen [t] := by
  obtain ⟨front, rest, -, hraw, hmasked, hshows⟩ :=
    exists_of_isContinued_maskIn (startMode_ne_quoted isOpen _) h
  have hcutRaw : MaskedLine.cutRaw (MaskedLine.ofLines isOpen [t]) = front :=
    (List.flatMap_singleton ..).trans hraw
  have hcutMasked : MaskedLine.cutMasked (MaskedLine.ofLines isOpen [t]) =
      maskIn (startMode isOpen) front :=
    (List.flatMap_singleton ..).trans hmasked
  constructor
  · rw [hcutRaw, hcutMasked]
    rfl
  · rw [hcutRaw]
    exact hshows

/-- **Behind a clean cut one more line reads as one with those before.** -/
theorem ReadsAsOne.snoc (h : ReadsAsOne isOpen before) (hclean : IsCleanCut isOpen before next)
    (hnext : PhysicalLine.isContinued (mask false next) = true) :
    ReadsAsOne isOpen (before ++ [next]) := by
  obtain ⟨front, rest, rfl, hraw, hmasked, hshows⟩ :=
    exists_of_isContinued_maskIn (m := .code) Mode.noConfusion hnext
  obtain ⟨hmask, hmode⟩ :=
    hclean.resumes.of_append.maskIn_append (startMode_ne_quoted isOpen _) h.shows
  have hlines : MaskedLine.ofLines isOpen (before ++ [front ++ rest]) =
      MaskedLine.ofLines isOpen before ++ [⟨maskIn .code (front ++ rest), front ++ rest⟩] := by
    rw [MaskedLine.ofLines_append, hclean.closed]
    rfl
  have hcutRaw : MaskedLine.cutRaw (MaskedLine.ofLines isOpen (before ++ [front ++ rest])) =
      MaskedLine.cutRaw (MaskedLine.ofLines isOpen before) ++ front := by
    rw [hlines, MaskedLine.cutRaw, List.flatMap_append, List.flatMap_singleton, hraw]
    rfl
  have hcutMasked : MaskedLine.cutMasked (MaskedLine.ofLines isOpen (before ++ [front ++ rest])) =
      MaskedLine.cutMasked (MaskedLine.ofLines isOpen before) ++ maskIn .code front := by
    rw [hlines, MaskedLine.cutMasked, List.flatMap_append, List.flatMap_singleton, hmasked]
    rfl
  constructor
  · rw [hcutRaw, hcutMasked, mask, hmask, ← h.mask_eq]
    rfl
  · rw [hcutRaw]
    rcases hmode with heq | ⟨hwhole, -⟩
    · rw [heq]
      exact hshows
    · exact hwhole

/-- The last line, which is not cut, goes on with the lines before it. -/
theorem ReadsAsOne.last (h : ReadsAsOne isOpen before) (hclean : IsCleanCut isOpen before next) :
    mask isOpen (MaskedLine.cutRaw (MaskedLine.ofLines isOpen before) ++ next) =
        MaskedLine.cutMasked (MaskedLine.ofLines isOpen before) ++ mask false next ∧
      leavesOpen isOpen (MaskedLine.cutRaw (MaskedLine.ofLines isOpen before) ++ next) =
        leavesOpen false next := by
  obtain ⟨hmask, hmode⟩ := hclean.resumes.maskIn_append (startMode_ne_quoted isOpen _) h.shows
  have hopen {m : Mode} (hm : m.shows = true) : m ≠ .block := by
    rintro rfl
    cases hm
  constructor
  · rw [mask, hmask, ← h.mask_eq]
    rfl
  · rw [leavesOpen, leavesOpen, decide_eq_decide]
    rcases hmode with heq | ⟨hwhole, hnext⟩
    · rw [heq]
      rfl
    · exact iff_of_false (hopen hwhole) (hopen hnext)

/-- **Continued lines with clean cuts between them read as one.** -/
theorem readsAsOne_of_isCleanCut (hne : before ≠ [])
    (hcontinued : ∀ p ∈ MaskedLine.ofLines isOpen before, PhysicalLine.isContinued p.masked = true)
    (hclean : ∀ front next behind, front ≠ [] → before = front ++ next :: behind →
      IsCleanCut isOpen front next) : ReadsAsOne isOpen before := by
  induction before using List.reverseRecOn with
  | nil => exact absurd rfl hne
  | append_singleton before next ih =>
    rw [MaskedLine.ofLines_append] at hcontinued
    have hnext : PhysicalLine.isContinued (mask (before.foldl leavesOpen isOpen) next) = true :=
      hcontinued ⟨_, next⟩ (List.mem_append_right _ (List.mem_singleton.2 rfl))
    cases before with
    | nil => exact readsAsOne_singleton hnext
    | cons t ts =>
      have hcut := hclean (t :: ts) next [] (List.cons_ne_nil _ _) rfl
      have hfront : ReadsAsOne isOpen (t :: ts) := by
        refine ih (List.cons_ne_nil _ _)
          (fun p hp => hcontinued p (List.mem_append_left _ hp)) ?_
        intro front next' behind hne hsplit
        exact hclean front next' (behind ++ [next]) hne
          (by rw [hsplit, List.append_assoc, List.cons_append])
      rw [hcut.closed] at hnext
      exact hfront.snoc hcut hnext

end Comment

/-- **The logical line without its comments is the raw logical line, blanked out as a
whole**, if every cut of it is clean; and a comment is open behind it as it would be
behind the whole.  The logical line is made of the lines `ts`, the first of which starts
inside of a comment if `isOpen` says so. -/
theorem LogicalLine.mask_raw {l : LogicalLine} {isOpen : Bool} {ts : List Text}
    (hparts : l.parts = MaskedLine.ofLines isOpen ts) (hchained : l.IsChained)
    (hclean : ∀ before next behind, before ≠ [] → ts = before ++ next :: behind →
      Comment.IsCleanCut isOpen before next) :
    Comment.mask isOpen l.raw = l.masked ∧
      Comment.leavesOpen isOpen l.raw = ts.foldl Comment.leavesOpen isOpen := by
  have hne : ts ≠ [] := by
    rintro rfl
    cases hparts
  obtain ⟨before, last, rfl⟩ := (List.eq_nil_or_concat' ts).resolve_left hne
  have hlast : l.parts = MaskedLine.ofLines isOpen before ++
      [⟨Comment.mask (before.foldl Comment.leavesOpen isOpen) last, last⟩] := by
    rw [hparts, MaskedLine.ofLines_append]
    rfl
  rw [LogicalLine.raw_of_parts hlast, LogicalLine.masked_of_parts hlast, List.foldl_append]
  cases before with
  | nil => exact ⟨rfl, rfl⟩
  | cons t ts =>
    have hcut := hclean (t :: ts) last [] (List.cons_ne_nil _ _) rfl
    have hcontinued : ∀ p ∈ MaskedLine.ofLines isOpen (t :: ts),
        PhysicalLine.isContinued p.masked = true := by
      rw [LogicalLine.IsChained, hlast, List.dropLast_concat] at hchained
      exact hchained
    have hone : Comment.ReadsAsOne isOpen (t :: ts) := by
      refine Comment.readsAsOne_of_isCleanCut (List.cons_ne_nil _ _) hcontinued ?_
      intro front next behind hfront hsplit
      exact hclean front next (behind ++ [last]) hfront
        (by rw [hsplit, List.append_assoc, List.cons_append])
    rw [hcut.closed]
    exact hone.last hcut

/-- The first line ends a comment and starts a literal, which the second line ends, and
the third line has a comment: both cuts are clean. -/
theorem LogicalLine.mask_raw_two_cuts :
    ∃ l : LogicalLine,
      l.parts = MaskedLine.ofLines true
        ["x */ \"a \\".toList, "b\" \\".toList, "c // d".toList] ∧
      l.IsChained ∧ l.masked = "     \"a b\" c     ".toList ∧
      Comment.mask true l.raw = l.masked ∧ Comment.leavesOpen true l.raw = false := by
  let first : Text := "x */ \"a \\".toList
  let second : Text := "b\" \\".toList
  let third : Text := "c // d".toList
  let l : LogicalLine :=
    ⟨"m", 1, ⟨Comment.mask true first, first⟩, MaskedLine.ofLines false [second, third]⟩
  have hchained : l.IsChained := by
    unfold LogicalLine.IsChained
    decide
  have hfirst : Comment.IsCleanCut true [first] second := by
    refine ⟨rfl, fun hcode => ?_, fun _ _ => rfl⟩
    exact absurd hcode (by decide)
  have hsecond : Comment.IsCleanCut true [first, second] third := by
    refine ⟨rfl, ?_, fun quote hquoted => ?_⟩
    · rintro - ⟨hlast, -⟩
      exact absurd hlast (by decide)
    · have hcode : Comment.modeAfter (Comment.startMode true)
          (MaskedLine.cutRaw (MaskedLine.ofLines true [first, second])) = .code := by decide
      cases hcode.symm.trans hquoted
  have hclean : ∀ before next behind, before ≠ [] →
      [first, second, third] = before ++ next :: behind → Comment.IsCleanCut true before next := by
    rintro (_ | ⟨a, _ | ⟨b, _ | ⟨c, before⟩⟩⟩) next behind hne hts
    · exact absurd rfl hne
    · cases hts
      exact hfirst
    · cases hts
      exact hsecond
    · cases before <;> cases hts
  obtain ⟨hmask, hopen⟩ := LogicalLine.mask_raw (l := l) rfl hchained hclean
  exact ⟨l, rfl, hchained, by decide, hmask, hopen⟩

/-- **Without clean cuts the two may differ**: where a literal is cut and the next line
has a mark, where a mark is divided, and where a comment starts behind the backslash. -/
theorem LogicalLine.mask_raw_ne :
    (∃ l : LogicalLine,
        l.parts = MaskedLine.ofLines false ["\"a \\".toList, "// b\"".toList] ∧ l.IsChained ∧
        Comment.mask false l.raw = "\"a // b\"".toList ∧ l.masked = "\"a      ".toList) ∧
      (∃ l : LogicalLine,
        l.parts = MaskedLine.ofLines false ["a /\\".toList, "/ b".toList] ∧ l.IsChained ∧
        Comment.mask false l.raw = "a     ".toList ∧ l.masked = "a // b".toList) ∧
      ∃ l : LogicalLine,
        l.parts = MaskedLine.ofLines false ["a \\ /* b".toList, "c */ d".toList] ∧ l.IsChained ∧
        Comment.mask false l.raw = "a c */ d".toList ∧ l.masked = "a      d".toList := by
  let line (first second : Text) : LogicalLine :=
    ⟨"m", 1, ⟨Comment.mask false first, first⟩,
      MaskedLine.ofLines (Comment.leavesOpen false first) [second]⟩
  have hchained {first second : Text}
      (h : PhysicalLine.isContinued (Comment.mask false first) = true) :
      (line first second).IsChained := by
    intro p hp
    rw [List.mem_singleton.1 hp]
    exact h
  exact ⟨⟨line _ _, rfl, hchained (by decide), by decide, by decide⟩,
    ⟨line _ _, rfl, hchained (by decide), by decide, by decide⟩,
    ⟨line _ _, rfl, hchained (by decide), by decide, by decide⟩⟩

end DevicetreePrep
