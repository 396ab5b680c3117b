/-
# Tokens cut up their text

Every character of a text belongs to one token.  The first token starts with the text, each one
goes up to the start of the next one, and the last one up to the end of the text
(`covers_tokenizeFrom`).  A token that is no white space spells the stretch that it covers.
White space spells its stretch with a single space in place of every comment
(`Comment.collapse`), and as a gap is as long as it can be, no two tokens in a row are white
space (`isChain_tokenizeFrom`).

A comment has two characters at least and is spelled with one, so it cannot be made up for:
the tokens spell the text exactly if no comment stands in it (`render_tokenizeFrom_eq_iff`).
-/

import DevicetreePrep.Proofs.Comment.Lexing
import DevicetreePrep.Proofs.Token.Offset
import DevicetreePrep.Proofs.Token.Respacing
import Mathlib.Data.List.Chain

namespace DevicetreePrep

namespace Comment

/-- What follows the first closing mark of a comment; nothing, if there is none. -/
def behindClose : Text → Text
  | '*' :: '/' :: cs => cs
  | _ :: cs => behindClose cs
  | [] => []

theorem length_behindClose_le (t : Text) : (behindClose t).length ≤ t.length := by
  fun_induction behindClose t <;> simp only [List.length_cons, List.length_nil] <;> omega

/-- White space and comments with a single space in place of every comment.  One that starts
with two slashes ends before the end of its line. -/
def collapse : Text → Text
  | '/' :: '/' :: cs => ' ' :: collapse (cs.dropWhile (· ≠ '\n'))
  | '/' :: '*' :: cs => ' ' :: collapse (behindClose cs)
  | c :: cs => c :: collapse cs
  | [] => []
termination_by t => t.length
decreasing_by
  · have := (List.dropWhile_suffix (· ≠ '\n') (l := cs)).length_le
    simp only [List.length_cons]
    omega
  · have := length_behindClose_le cs
    simp only [List.length_cons]
    omega
  · simp

theorem collapse_cons {c : Char} (hc : c ≠ '/') (cs : Text) :
    collapse (c :: cs) = c :: collapse cs :=
  collapse.eq_3 c cs (fun _ h => absurd h hc) fun _ h => absurd h hc

end Comment

namespace Gap

open Comment (behindClose collapse)

/-- What is left of a text behind the comment that is being read. -/
def Mode.behind : Mode → Text → Text
  | .space, t => t
  | .line, t => t.dropWhile (· ≠ '\n')
  | .block _, t => behindClose t

/-- A comment that runs on runs on also if the text is cut behind it. -/
theorem behindClose_cons_take {c : Char} {cs : Text} (h : ∀ rest, c = '*' → cs = '/' :: rest → False)
    (n : Nat) : behindClose (c :: cs.take n) = behindClose (cs.take n) := by
  refine Comment.behindClose.eq_2 c (cs.take n) fun rest hc hcut => ?_
  match cs, n with
  | [], n => rw [List.take_nil] at hcut; cases hcut
  | _ :: _, 0 => cases hcut
  | d :: ds, n + 1 =>
    obtain ⟨rfl, -⟩ := List.cons.inj hcut
    exact h ds hc rfl

/-- **A gap spells what it covers with a single space for every comment.** -/
theorem text_readIn_eq (here : Nat) (m : Mode) (t : Text) :
    (readIn here m t).text = collapse (m.behind (t.take (readIn here m t).width)) := by
  fun_induction readIn here m t with
  | case1 here cs ih | case2 here cs ih =>
    rw [width_behind, List.take_succ_cons, List.take_succ_cons, Mode.behind, collapse]
    exact congrArg (' ' :: ·) ih
  | case3 here c cs hline hblock hspace ih =>
    have hslash : c ≠ '/' := by
      rintro rfl
      exact absurd hspace (by decide)
    rw [width_behind, List.take_succ_cons, Mode.behind, Comment.collapse_cons hslash]
    exact congrArg (c :: ·) ih
  | case5 here cs ih =>
    rw [width_behind, List.take_succ_cons, Mode.behind,
      List.dropWhile_cons_of_neg (by simp), Comment.collapse_cons (by decide)]
    exact congrArg ('\n' :: ·) ih
  | case6 here c cs hc ih =>
    rw [width_behind, List.take_succ_cons, Mode.behind,
      List.dropWhile_cons_of_pos (by simpa using hc)]
    exact ih
  | case7 here opened cs ih =>
    rw [width_behind, List.take_succ_cons, List.take_succ_cons, Mode.behind, behindClose]
    exact ih
  | case8 here opened c cs hclose ih =>
    rw [width_behind, List.take_succ_cons, Mode.behind, behindClose_cons_take hclose]
    exact ih
  | case4 | case9 =>
    rw [List.take_zero, Mode.behind]
    simp [collapse, behindClose]
  | case10 here m hm =>
    rw [List.take_nil]
    cases m <;> simp [Mode.behind, collapse, behindClose]

/-- A gap that spells all its characters has no comment in it. -/
theorem keeps_of_length_eq {here : Nat} {t : Text}
    (h : (read here t).text.length = (read here t).width) :
    Comment.Keeps t (read here t).width := by
  -- of two characters at least one is lost, and nothing is won behind them
  have hlost (here : Nat) (m : Mode) (cs : Text) :
      (behind 2 [' '] (readIn here m cs)).text.length <
        (behind 2 [' '] (readIn here m cs)).width := by
    have := (bounds_readIn here m cs).1
    simp only [behind, List.length_append, List.length_singleton]
    omega
  rw [read] at h ⊢
  generalize hm : Mode.space = m at h ⊢
  fun_induction readIn here m t with
  | case1 | case2 => exact absurd h (Nat.ne_of_lt (hlost ..))
  | case3 here c cs hline hblock hspace ih =>
    have hchar : c ≠ '/' ∧ c ≠ '"' ∧ c ≠ '\'' := by
      refine ⟨?_, ?_, ?_⟩ <;> rintro rfl <;> exact absurd hspace (by decide)
    rw [width_behind] at h ⊢
    refine (ih rfl ?_).cons (fun hc => absurd hc hchar.1) hchar.2
    simp only [behind, List.length_append, List.length_singleton] at h
    omega
  | case4 | case10 => exact Comment.keeps_zero _
  | _ => cases hm

end Gap

/-- The token spells the stretch of the text that goes from its offset up to `stop`, white
space with its comments collapsed. -/
structure Token.Covers (source : Text) (t : Token) (stop : Nat) : Prop where
  spelled : t.text ≠ []
  solid : t.isWhite = false → t.text = source.extract t.offset stop
  white : t.isWhite = true → t.text = Comment.collapse (source.extract t.offset stop)

/-- A token covers the stretch that is as wide as it is. -/
theorem covers_read {source : Text} {here : Nat} {c : Char} {cs : Text}
    (h : source.drop here = c :: cs) :
    Token.Covers source ⟨(Lexeme.read here c cs).kind, (Lexeme.read here c cs).text, here⟩
      (here + (Lexeme.read here c cs).width) := by
  have hstretch : source.extract here (here + (Lexeme.read here c cs).width) =
      (c :: cs).take (Lexeme.read here c cs).width := by
    rw [List.extract_eq_take_drop, h, Nat.add_sub_cancel_left]
  refine ⟨Lexeme.text_ne_nil here c cs, fun hwhite => ?_, fun hwhite => ?_⟩
  · have hgap : Gap.startsAt (c :: cs) = false := by
      refine Bool.eq_false_iff.2 fun hgap => ?_
      rw [Lexeme.read_of_startsAt hgap] at hwhite
      cases hwhite
    dsimp only
    rw [hstretch, Lexeme.text_of_not_startsAt hgap]
  · have hgap : Gap.startsAt (c :: cs) = true := by
      refine Bool.not_eq_false _ ▸ fun hgap => ?_
      exact Lexeme.kind_of_not_startsAt hgap (of_decide_eq_true hwhite)
    dsimp only
    rw [hstretch, Lexeme.read_of_startsAt hgap]
    exact Gap.text_readIn_eq here .space (c :: cs)

/-- **Each token covers the text up to the next one**, and the last one up to its end. -/
theorem covers_tokenizeFrom {source text : Text} {here : Nat} (h : source.drop here = text)
    (hhere : here ≤ source.length) :
    ∃ stops, (tokenizeFrom here text).map Token.offset ++ [source.length] = here :: stops ∧
      (here :: stops).IsChain (· < ·) ∧
      List.Forall₂ (Token.Covers source) (tokenizeFrom here text) stops := by
  fun_induction tokenizeFrom here text with
  | case1 here =>
    have hend : source.length ≤ here := List.drop_eq_nil_iff.1 h
    obtain rfl := Nat.le_antisymm hhere hend
    exact ⟨[], rfl, .singleton _, .nil⟩
  | case2 here c cs l ih =>
    have hpos : 0 < l.width := Lexeme.width_pos here c cs
    have hwidth : l.width ≤ (c :: cs).length := (Lexeme.bounds_read here c cs).2
    rw [← h, List.length_drop] at hwidth
    obtain ⟨stops, hstops, hchain, hcovers⟩ := ih (by rw [← h, List.drop_drop]) (by omega)
    refine ⟨(here + l.width) :: stops, ?_, ?_, .cons (covers_read h) hcovers⟩
    · rw [List.map_cons, List.cons_append, hstops]
    · exact .cons_cons (Nat.lt_add_of_pos_right hpos) hchain

/-- Where no gap stands, the first token is not white space. -/
theorem isWhite_of_head?_tokenizeFrom {text : Text} (h : Gap.startsAt text = false) {here : Nat}
    {t : Token} (ht : t ∈ (tokenizeFrom here text).head?) : t.isWhite = false := by
  match text with
  | [] =>
    rw [tokenizeFrom] at ht
    cases ht
  | c :: cs =>
    rw [tokenizeFrom, List.head?_cons, Option.mem_some_iff] at ht
    rw [← ht]
    exact decide_eq_false (Lexeme.kind_of_not_startsAt h)

/-- **No two tokens in a row are white space.** -/
theorem isChain_tokenizeFrom (here : Nat) (text : Text) :
    (tokenizeFrom here text).IsChain fun t u => t.isWhite = true → u.isWhite = false := by
  fun_induction tokenizeFrom here text with
  | case1 => exact .nil
  | case2 here c cs l ih =>
    refine List.isChain_cons.2 ⟨fun u hu hwhite => ?_, ih⟩
    cases hgap : Gap.startsAt (c :: cs) with
    | true => exact isWhite_of_head?_tokenizeFrom (Lexeme.startsAt_drop_width hgap) hu
    | false => exact absurd (of_decide_eq_true hwhite) (Lexeme.kind_of_not_startsAt hgap)

/-- Tokens spell no more than their text has. -/
theorem length_render_tokenizeFrom_le (here : Nat) (text : Text) :
    (render (tokenizeFrom here text)).length ≤ text.length := by
  fun_induction tokenizeFrom here text with
  | case1 => exact Nat.le_refl _
  | case2 here c cs l ih =>
    have hl : l.text.length ≤ l.width ∧ l.width ≤ (c :: cs).length := Lexeme.bounds_read here c cs
    rw [render_cons, List.length_append]
    rw [List.length_drop] at ih
    dsimp only
    omega

/-- **Tokens spell their text exactly if no comment stands in it.** -/
theorem render_tokenizeFrom_eq_iff (here : Nat) (text : Text) :
    render (tokenizeFrom here text) = text ↔ Comment.IsFree text := by
  refine ⟨fun h => ?_, fun h => (render_tokenizeFrom h here).1⟩
  fun_induction tokenizeFrom here text with
  | case1 => exact Comment.isFree_nil
  | case2 here c cs l ih =>
    -- the first token and what follows it have their full lengths, as neither can have more
    have hl : l.text.length ≤ l.width ∧ l.width ≤ (c :: cs).length := Lexeme.bounds_read here c cs
    have hrest := length_render_tokenizeFrom_le (here + l.width) ((c :: cs).drop l.width)
    rw [render_cons] at h
    have hlength := congrArg List.length h
    rw [List.length_append] at hlength
    rw [List.length_drop] at hrest
    dsimp only at h hlength
    have hfull : l.text.length = l.width := by omega
    have hsplit : l.text ++ render (tokenizeFrom (here + l.width) ((c :: cs).drop l.width)) =
        (c :: cs).take l.width ++ (c :: cs).drop l.width := by
      rw [h, List.take_append_drop]
    have hspelled := (List.append_inj hsplit (by rw [hfull, List.length_take_of_le hl.2])).2
    have hkeeps : Comment.Keeps (c :: cs) l.width := by
      cases hgap : Gap.startsAt (c :: cs) with
      | false => exact Lexeme.keeps_read hgap here
      | true =>
        have hread : l.text = (Gap.read here (c :: cs)).text ∧
            l.width = (Gap.read here (c :: cs)).width := by
          rw [show l = Lexeme.read here c cs from rfl, Lexeme.read_of_startsAt hgap]
          exact ⟨rfl, rfl⟩
        rw [hread.1, hread.2] at hfull
        rw [hread.2]
        exact Gap.keeps_of_length_eq hfull
    rw [Comment.IsFree, hkeeps.mask, ih hspelled, List.take_append_drop]

/-- **The tokens of a text are a partition of it.**  They start at its front and strictly
increase; each one spells the stretch up to the next one, or up to the end of the text, white
space with a single space in place of every comment, and none spells nothing.  No two tokens in
a row are white space.  They spell the text itself exactly if no comment stands in it. -/
theorem tokenize_partitions (source : Text) :
    let stops := (tokenize source).map Token.offset ++ [source.length]
    stops.head? = some 0 ∧ stops.Pairwise (· < ·) ∧
      List.Forall₂ (Token.Covers source) (tokenize source) stops.tail ∧
      ((tokenize source).IsChain fun t u => t.isWhite = true → u.isWhite = false) ∧
      (render (tokenize source) = source ↔ Comment.IsFree source) := by
  intro stops
  have hdrop : source.drop 0 = source := List.drop_zero
  obtain ⟨tail, hstops, hchain, hcovers⟩ := covers_tokenizeFrom hdrop (Nat.zero_le _)
  have hstops : stops = 0 :: tail := hstops
  rw [hstops]
  exact ⟨rfl, List.isChain_iff_pairwise.1 hchain, hcovers, isChain_tokenizeFrom 0 source,
    render_tokenizeFrom_eq_iff 0 source⟩

/-- The comments collapse, the one that is never closed too, and marks in a literal are none. -/
example : tokenize "a // b\n/*/c*/\"//\" /* d".toList =
    [⟨.ident, "a".toList, 0⟩, ⟨.whitespace, "  \n ".toList, 1⟩, ⟨.stringLiteral, "\"//\"".toList, 13⟩,
      ⟨.whitespace, "  ".toList, 17⟩] := by
  decide +kernel

end DevicetreePrep
