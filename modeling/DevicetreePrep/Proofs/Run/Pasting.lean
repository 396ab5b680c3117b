/-
# Reading the same lines in another place

To read a file is to carry out its first logical line, to follow the request that it
may make, and to read on (`Work.readLines_cons`).  So if two runs are alike and their next
logical lines read the same, they stay alike (`Work.readLines_cons_alike`); and if they go
on with the same lines, whatever the numbers of these are, they end alike
(`Work.readLines_alike`).

The lines of a closed file may even stand in the file around it: to read them there
is as good as to read them in their own file and to go on behind it
(`Work.readLines_paste`).  In their own file they start without conditionals, in the
file around them on top of its conditionals; what they open they close.
-/

import DevicetreePrep.Proofs.Run.Closed

namespace DevicetreePrep

/-- The line without its number. -/
def SourceLine.unnumbered (l : SourceLine) : SourceLine :=
  { l with number := 0 }

/-- Lines without their numbers have their texts. -/
theorem SourceLine.map_text_unnumbered (ls : List SourceLine) :
    (ls.map unnumbered).map text = ls.map text := by
  rw [List.map_map]
  rfl

/-- Lines of one file are given by their texts, numbers apart. -/
theorem SourceLine.map_unnumbered {file : String} {ls : List SourceLine} (h : ∀ l ∈ ls, l.file = file) :
    ls.map SourceLine.unnumbered = (ls.map SourceLine.text).map fun t => ⟨t, file, 0⟩ := by
  rw [List.map_map]
  refine List.map_congr_left fun l hl => ?_
  rw [Function.comp_apply, SourceLine.unnumbered, h l hl]

namespace OpenFile

/-- **The same texts fall into the same logical lines**, whatever their places are. -/
theorem logicalLineOf_alike {f f' : OpenFile} (hcomment : f.inComment = f'.inComment)
    {l l' : SourceLine} {ls ls' : List SourceLine}
    (htexts : (l :: ls).map SourceLine.text = (l' :: ls').map SourceLine.text) :
    (f.logicalLineOf l ls).1.parts = (f'.logicalLineOf l' ls').1.parts ∧
      (f.logicalLineOf l ls).2.1.inComment = (f'.logicalLineOf l' ls').2.1.inComment := by
  have hafter {g g' : OpenFile} (hg : g.inComment = g'.inComment) {m m' : SourceLine}
      (hm : m.text = m'.text) :
      g.mask m = g'.mask m' ∧ (g.after m).inComment = (g'.after m').inComment := by
    rw [mask, mask, after, after, hg, hm]
    exact ⟨rfl, rfl⟩
  have key (g g' : OpenFile) (last : MaskedLine) (ls ls' : List SourceLine)
      (hg : g.inComment = g'.inComment) (hls : ls.map SourceLine.text = ls'.map SourceLine.text) :
      (g.continuationOf last ls).1 = (g'.continuationOf last ls').1 ∧
        (g.continuationOf last ls).2.1.inComment = (g'.continuationOf last ls').2.1.inComment := by
    fun_induction OpenFile.continuationOf g last ls generalizing g' ls' with
    | case1 g last =>
      obtain rfl := List.map_eq_nil_iff.1 hls.symm
      exact ⟨rfl, hg⟩
    | case2 g last m ls hc more g₁ rest hr ih =>
      obtain ⟨m', ls', rfl, hm, hls⟩ := List.map_eq_cons_iff.1 hls.symm
      obtain ⟨hmask, hopen⟩ := hafter hg hm.symm
      have hrest := ih (g'.after m') ls' hopen hls.symm
      rw [hr] at hrest
      rw [OpenFile.continuationOf, if_pos hc, ← hmask]
      exact ⟨congrArg (g.mask m :: ·) hrest.1, hrest.2⟩
    | case3 g last m ls hc =>
      obtain ⟨m', ls', rfl, -, -⟩ := List.map_eq_cons_iff.1 hls.symm
      rw [OpenFile.continuationOf, if_neg hc]
      exact ⟨rfl, hg⟩
  obtain ⟨hl, hls⟩ := List.cons.inj htexts
  obtain ⟨hmask, hopen⟩ := hafter hcomment hl
  have hrest := key (f.after l) (f'.after l') (f.mask l) ls ls' hopen hls
  rw [logicalLineOf, logicalLineOf, ← hmask]
  exact ⟨congrArg (f.mask l :: ·) hrest.1, hrest.2⟩

/-- Behind the same logical lines, lists that agree line by line go on with what
agrees line by line. -/
theorem map_rest_logicalLineOf {α : Type} {f f' : OpenFile} {l l' : SourceLine}
    {ls ls' : List SourceLine} {v : SourceLine → α}
    (hparts : (f.logicalLineOf l ls).1.parts = (f'.logicalLineOf l' ls').1.parts)
    (hlines : (l :: ls).map v = (l' :: ls').map v) :
    (f.logicalLineOf l ls).2.2.map v = (f'.logicalLineOf l' ls').2.2.map v := by
  have hmore : (f.logicalLineOf l ls).1.more.length = (f'.logicalLineOf l' ls').1.more.length :=
    congrArg List.length (List.cons.inj hparts).2
  rw [f.rest_logicalLineOf, f'.rest_logicalLineOf, List.map_drop, List.map_drop, hlines, hmore]

end OpenFile

namespace Work

variable {resolve : Resolver}

/-- What becomes of a request, if there is one: the file that it brings in is read. -/
def follow (resolve : Resolver) (opened : List String) (w : Work) (request : Option Request) :
    Except Stopped Work :=
  match request with
  | none => .ok w
  | some r =>
    (w.accept opened r (resolve r.inclusion)).bind fun a =>
      match a.2 with
      | none => .ok a.1
      | some g =>
        a.1.readLines resolve opened { file := g.file } (SourceLine.ofFile g.file g.text)

/-- **To read a file is to carry out its first logical line, to follow its request
and to read on.** -/
theorem readLines_cons (outer : List String) (f : OpenFile) (w : Work) (l : SourceLine)
    (ls : List SourceLine) :
    w.readLines resolve outer f (l :: ls) =
      (w.process f.branches (f.logicalLineOf l ls).1).bind fun p =>
        (p.1.follow resolve (f.file :: outer) p.2.2).bind fun v =>
          v.readLines resolve outer { (f.logicalLineOf l ls).2.1 with branches := p.2.1 }
            (f.logicalLineOf l ls).2.2 := by
  rw [readLines, f.branches_logicalLineOf]
  dsimp only
  cases w.process f.branches (f.logicalLineOf l ls).1 with
  | error e => rfl
  | ok p =>
    obtain ⟨w', bs, r | r⟩ := p
    · rfl
    · dsimp only [Except.bind, follow]
      split
      · rename_i ha
        rw [ha]
      · rename_i ha
        rw [ha]
      · rename_i ha
        rw [ha]
        dsimp only
        split <;> rename_i hread <;> rw [hread]

/-- The same request is followed alike, if the file that it may bring in is. -/
theorem follow_alike {δ : Difference} {opened : List String} {w w' : Work}
    {r r' : Option Request} (h : w.AlikeUpTo δ w')
    (hr : r.map Request.inclusion = r'.map Request.inclusion)
    (hread : ∀ (g : IncludedFile) {v v' : Work}, opened.length < openLimit → v.AlikeUpTo δ v' →
      EndsAlike (AlikeUpTo δ)
        (v.readLines resolve opened { file := g.file } (SourceLine.ofFile g.file g.text))
        (v'.readLines resolve opened { file := g.file } (SourceLine.ofFile g.file g.text))) :
    EndsAlike (AlikeUpTo δ) (w.follow resolve opened r) (w'.follow resolve opened r') := by
  cases r with
  | none =>
    obtain rfl := Option.map_eq_none_iff.1 hr.symm
    exact .ok h
  | some r =>
    obtain ⟨r', rfl, hinclusion⟩ := Option.map_eq_some_iff.1 hr.symm
    rw [follow, follow, hinclusion]
    refine (accept_alike h opened r r' _).bind fun a a' ha _ halike => ?_
    obtain ⟨v, g⟩ := a
    obtain ⟨v', g'⟩ := a'
    obtain ⟨hv, rfl⟩ := halike
    cases g with
    | none => exact .ok hv
    | some g => exact hread g (length_lt_of_accept ha) hv

/-- **Runs that are alike end alike if their next logical lines read the same** and they
end alike from there on. -/
theorem readLines_cons_alike {δ : Difference} (outer : List String) {f f' : OpenFile}
    {w w' : Work} {l l' : SourceLine} {ls ls' : List SourceLine} (h : w.AlikeUpTo δ w')
    (hfile : f.file = f'.file) (hbs : Branches.OnTop [] f.branches f'.branches)
    (hline : (f.logicalLineOf l ls).1.ReadsAs δ (f'.logicalLineOf l' ls').1)
    (hplace : l.file = l'.file)
    (hread : ∀ (g : IncludedFile) {v v' : Work}, (f.file :: outer).length < openLimit →
      v.AlikeUpTo δ v' → EndsAlike (AlikeUpTo δ)
        (v.readLines resolve (f.file :: outer) { file := g.file } (SourceLine.ofFile g.file g.text))
        (v'.readLines resolve (f.file :: outer) { file := g.file }
          (SourceLine.ofFile g.file g.text)))
    (hrest : ∀ {v v' : Work} {bs bs' : Branches}, v.AlikeUpTo δ v' → Branches.OnTop [] bs bs' →
      EndsAlike (AlikeUpTo δ)
        (v.readLines resolve outer { (f.logicalLineOf l ls).2.1 with branches := bs }
          (f.logicalLineOf l ls).2.2)
        (v'.readLines resolve outer { (f'.logicalLineOf l' ls').2.1 with branches := bs' }
          (f'.logicalLineOf l' ls').2.2)) :
    EndsAlike (AlikeUpTo δ) (w.readLines resolve outer f (l :: ls))
      (w'.readLines resolve outer f' (l' :: ls')) := by
  rw [readLines_cons, readLines_cons, ← hfile]
  refine (process_alike h hbs rfl hline (fun _ _ _ => hplace) (fun _ _ _ => .inr rfl)).bind
    fun p p' _ _ hp => ?_
  exact (follow_alike hp.work hp.request hread).bind fun v v' _ _ hv => hrest hv hp.branches

/-- **Runs that are alike end alike if they read the same lines**, whatever the
numbers of these are. -/
theorem readLines_alike {δ : Difference} (outer : List String) {f f' : OpenFile} {w w' : Work}
    {ls ls' : List SourceLine} (h : w.AlikeUpTo δ w') (hfile : f.file = f'.file)
    (hcomment : f.inComment = f'.inComment) (hbs : Branches.OnTop [] f.branches f'.branches)
    (hls : ls.map SourceLine.unnumbered = ls'.map SourceLine.unnumbered) :
    EndsAlike (AlikeUpTo δ) (w.readLines resolve outer f ls)
      (w'.readLines resolve outer f' ls') := by
  match ls, ls', hls with
  | [], [], _ =>
    have hlength : f.branches.length = f'.branches.length := by
      have := congrArg List.length hbs
      rw [List.length_map, List.length_map, List.append_nil] at this
      exact this.symm
    rw [readLines, readLines]
    exact .ok (h.reportEnd _ _ hlength hcomment)
  | l :: ls, l' :: ls', hls =>
    have htexts := congrArg (List.map SourceLine.text) hls
    rw [SourceLine.map_text_unnumbered, SourceLine.map_text_unnumbered] at htexts
    have hline : l.unnumbered = l'.unnumbered := (List.cons.inj hls).1
    have hlfile : l.unnumbered.file = l'.unnumbered.file := by rw [hline]
    obtain ⟨hparts, hopen⟩ := OpenFile.logicalLineOf_alike hcomment htexts
    have hrest := OpenFile.map_rest_logicalLineOf hparts hls
    have hname : (f.logicalLineOf l ls).2.1.file = (f'.logicalLineOf l' ls').2.1.file := by
      rw [f.file_logicalLineOf, f'.file_logicalLineOf, hfile]
    refine readLines_cons_alike outer h hfile hbs
      (LogicalLine.readsAs_of_parts hparts fun _ => hlfile) hlfile (fun g v v' hlimit hv => ?_)
      fun hv hbs => ?_
    · exact readLines_alike (f.file :: outer) hv rfl rfl (.refl []) rfl
    · exact readLines_alike outer hv hname hopen hbs hrest
termination_by (openLimit - outer.length, ls.length)
decreasing_by
  · rw [List.length_cons] at hlimit ⊢
    exact Prod.Lex.left _ _ (by omega)
  · exact Prod.Lex.right _ (Nat.lt_succ_of_le (OpenFile.length_continuationOf_le ..))

/-- **The lines of a closed file may stand in the file around it.**  To read them in
their own file and then to go on with `ls` is as good as to read them before `ls'`,
the same lines, where `bs` is open and active. -/
theorem readLines_paste {opened outer : List String} {bs : Branches} {f fx fm : OpenFile}
    {w w' : Work} {ls ls' xs xs' : List SourceLine} (hbs : Branches.active bs = true)
    (hfile : f.file = fm.file) (hcomment : f.inComment = false) (hbranches : f.branches = bs)
    (hls : ls.map SourceLine.unnumbered = ls'.map SourceLine.unnumbered)
    (hclosed : LinesClosed fx.branches.length fx.inComment (xs.map SourceLine.text))
    (h : w.Alike w') (hopen : fx.inComment = fm.inComment)
    (htop : Branches.OnTop bs fx.branches fm.branches)
    (hxs : xs.map SourceLine.text = xs'.map SourceLine.text) :
    EndsAlike Alike
      ((w.readLines resolve opened fx xs).bind fun v => v.readLines resolve outer f ls)
      (w'.readLines resolve outer fm (xs' ++ ls')) := by
  match xs, xs', hxs with
  | [], [], _ =>
    have hnone : fx.branches = [] :=
      List.length_eq_zero_iff.1 (of_decide_eq_true hclosed.balanced)
    have hout : fx.inComment = false := hclosed.uncommented
    have hend : w.readLines resolve opened fx [] = .ok w := by
      rw [readLines, reportEnd, hnone, hout]
      rfl
    rw [hend]
    refine readLines_alike outer h hfile (by rw [hcomment, ← hopen, hout]) ?_ hls
    rw [hnone] at htop
    rw [Branches.OnTop, hbranches, List.append_nil]
    exact htop
  | x :: xs, x' :: xs', hxs =>
    obtain ⟨hdirective, hrest⟩ := hclosed.next
    obtain ⟨hparts, hafter⟩ := OpenFile.logicalLineOf_alike hopen hxs
    have hended : ∀ p ∈ (fm.masks (x' :: xs')).getLast?,
        PhysicalLine.isContinued p.masked = false := by
      rw [OpenFile.masks, ← hopen, ← hxs]
      exact hclosed.ended
    have hname : (fm.logicalLineOf x' xs').2.1.file = fm.file := fm.file_logicalLineOf x' xs'
    rw [List.cons_append, readLines_cons, readLines_cons, OpenFile.logicalLineOf_append hended]
    have hreads := LogicalLine.readsAs_of_parts (δ := .places) hparts Difference.noConfusion
    refine .of_bind_bind ((process_alike h htop hbs hreads ?_ ?_).bind fun p p' hw _ hp => ?_)
    · intro d hd hnames
      rw [(hdirective d hd).1] at hnames
      cases hnames
    · intro d hd hgoes
      exact .inl (List.ne_nil_of_length_pos ((hdirective d hd).2 hgoes))
    · obtain ⟨v, cs, r⟩ := p
      obtain ⟨v', cs', r'⟩ := p'
      obtain ⟨hlength, hrequest⟩ := length_of_process hw
      obtain rfl : r = none := hrequest fun d hd => (hdirective d hd).1
      obtain rfl : r' = none := Option.map_eq_none_iff.1 hp.request.symm
      rw [← hlength] at hrest
      exact readLines_paste hbs (hfile.trans hname.symm) hcomment hbranches hls hrest hp.work
        hafter hp.branches (OpenFile.map_rest_logicalLineOf hparts hxs)
termination_by xs.length
decreasing_by exact Nat.lt_succ_of_le (OpenFile.length_continuationOf_le ..)

end Work
end DevicetreePrep
