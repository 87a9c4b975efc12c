/-
# Looking ahead leaves no trace

A scanner that has looked ahead is back at its token, but keeps the comments and the errors that it
came across. It has lost nothing by that and found nothing twice: what it keeps is what scanning
alone finds up to the farthest token it has been at, and scanning on to the end comes to the very
same state.

Key definitions: `Move`, `Scanner.moveAll`, `Scanner.backAt`.
Key theorems: `Scanner.backAt_scan`, `Scanner.moveAll_backAt`, `lookahead_invisible`.
-/
import Countersign.Proofs.Script.Tiling

namespace Countersign
namespace Script

/-- A move of a scanner: on to the next token, or any moves ahead, after which it is back at the
token where it was. -/
inductive Move where
  | scan
  | ahead (moves : List Move)

/-- How many tokens the moves lead on. -/
def passes : List Move → Nat
  | [] => 0
  | .scan :: ms => passes ms + 1
  | .ahead _ :: ms => passes ms

namespace Scanner

mutual

/-- The scanner after a move. -/
def move : Move → Scanner → Scanner
  | .scan, s => s.scan
  | .ahead ms, s => { moveAll ms s with token := s.token }
termination_by structural m => m

/-- The scanner after moves, one after the other. -/
def moveAll : List Move → Scanner → Scanner
  | [], s => s
  | m :: ms, s => moveAll ms (move m s)
termination_by structural ms => ms

end

end Scanner

/-! ### Comments take characters -/

/-- A comment that is open was opened before the offset. -/
def Trivia.OpenBefore (pos : Nat) : Trivia → Prop
  | .block opened _ => opened < pos
  | _ => True

theorem skipTrivia_comment_lt (t : Trivia) (pos : Nat) (text : List Char) : t.OpenBefore pos →
    ∀ c ∈ (skipTrivia t pos text).comments, c.span.pos < c.span.stop := by
  fun_induction skipTrivia t pos text with
  | case1 opened reversed pos =>
    intro hopen c hc
    rw [List.mem_singleton.mp hc]
    exact hopen
  | case2 t pos _ => exact fun _ _ hc => absurd hc List.not_mem_nil
  | case3 pos rest ih => exact fun _ => ih trivial
  | case4 pos rest ih => exact fun _ => ih (Nat.lt_add_of_pos_right Nat.two_pos)
  | case5 pos c rest _ _ _ ih => exact fun _ => ih trivial
  | case6 pos c rest _ _ _ => exact fun _ _ hc => absurd hc List.not_mem_nil
  | case7 pos c rest ih =>
    refine fun _ => ih ?_
    split <;> trivial
  | case8 opened reversed pos rest ih =>
    intro hopen c hc
    rcases List.mem_cons.mp hc with rfl | hc
    · exact Nat.lt_add_right 2 hopen
    · exact ih trivial c hc
  | case9 opened reversed pos c rest _ ih => exact fun hopen => ih (Nat.lt_add_right 1 hopen)

theorem scanAt_comment_lt (text : List Char) (pos : Nat) :
    ∀ c ∈ (scanAt text pos).comments, c.span.pos < c.span.stop :=
  skipTrivia_comment_lt .blank pos _ trivial

/-! ### What was noted is not noted again -/

namespace Scanner

variable {s : Scanner} {cs : List Comment} {es : List SyntaxError}

/-- The comment starts before the end of those recorded. -/
def HasComment (s : Scanner) (c : Comment) : Prop := c.span.pos < s.commentsEnd

/-- There is an error at the place of this one. -/
def HasError (s : Scanner) (e : SyntaxError) : Prop := s.errors.any (·.pos == e.pos) = true

theorem addComment_of_has {c : Comment} (h : s.HasComment c) : s.addComment c = s :=
  if_neg (Nat.not_le_of_lt h)

theorem addError_of_has {e : SyntaxError} (h : s.HasError e) : s.addError e = s := if_pos h

theorem foldl_addComment_of_has (h : ∀ c ∈ cs, s.HasComment c) : cs.foldl addComment s = s := by
  induction cs with
  | nil => rfl
  | cons c cs ih =>
    rw [List.foldl_cons, addComment_of_has (h c List.mem_cons_self)]
    exact ih fun d hd => h d (List.mem_cons_of_mem _ hd)

theorem foldl_addError_of_has (h : ∀ e ∈ es, s.HasError e) : es.foldl addError s = s := by
  induction es with
  | nil => rfl
  | cons e es ih =>
    rw [List.foldl_cons, addError_of_has (h e List.mem_cons_self)]
    exact ih fun f hf => h f (List.mem_cons_of_mem _ hf)

/-- A comment that takes characters is there once it has been added, and those before it stay. -/
theorem addComment_commentsEnd {c : Comment} (hc : c.span.pos < c.span.stop) :
    s.commentsEnd ≤ (s.addComment c).commentsEnd ∧ (s.addComment c).HasComment c := by
  unfold HasComment addComment
  split
  · rename_i hle
    exact ⟨hle.trans hc.le, hc⟩
  · rename_i hlt
    exact ⟨le_refl _, Nat.lt_of_not_le hlt⟩

theorem foldl_addComment_commentsEnd (hcs : ∀ c ∈ cs, c.span.pos < c.span.stop) :
    s.commentsEnd ≤ (cs.foldl addComment s).commentsEnd ∧
      ∀ c ∈ cs, (cs.foldl addComment s).HasComment c := by
  induction cs generalizing s with
  | nil => exact ⟨le_refl _, fun c hc => absurd hc List.not_mem_nil⟩
  | cons c cs ih =>
    obtain ⟨hle, hhas⟩ := addComment_commentsEnd (s := s) (hcs c List.mem_cons_self)
    obtain ⟨hle', hhas'⟩ :=
      ih (s := s.addComment c) fun d hd => hcs d (List.mem_cons_of_mem _ hd)
    refine ⟨hle.trans hle', fun d hd => ?_⟩
    rcases List.mem_cons.mp hd with rfl | hd
    · exact Nat.lt_of_lt_of_le hhas hle'
    · exact hhas' d hd

theorem HasError.add {e : SyntaxError} (h : s.HasError e) (f : SyntaxError) :
    (s.addError f).HasError e := by
  unfold addError
  split
  · exact h
  · rw [HasError, List.any_append, h, Bool.true_or]

theorem addError_has (e : SyntaxError) : (s.addError e).HasError e := by
  unfold addError
  split
  · assumption
  · simp [HasError]

theorem foldl_addError_has (es : List SyntaxError) :
    (∀ e, s.HasError e → (es.foldl addError s).HasError e) ∧
      ∀ e ∈ es, (es.foldl addError s).HasError e := by
  induction es generalizing s with
  | nil => exact ⟨fun _ h => h, fun e he => absurd he List.not_mem_nil⟩
  | cons f es ih =>
    obtain ⟨hkeep, hnew⟩ := ih (s := s.addError f)
    refine ⟨fun e he => hkeep e (he.add f), fun e he => ?_⟩
    rcases List.mem_cons.mp he with rfl | he
    · exact hkeep e (addError_has e)
    · exact hnew e he

theorem foldl_addError_commentsEnd : (es.foldl addError s).commentsEnd = s.commentsEnd := by
  induction es generalizing s with
  | nil => rfl
  | cons e es ih =>
    rw [List.foldl_cons, ih, addError]
    split <;> rfl

theorem foldl_addComment_errors : (cs.foldl addComment s).errors = s.errors := by
  induction cs generalizing s with
  | nil => rfl
  | cons c cs ih =>
    rw [List.foldl_cons, ih, addComment]
    split <;> rfl

/-- Everything that scanning from an offset comes across has been noted. -/
structure Noted (s : Scanner) (pos : Nat) : Prop where
  comments : ∀ c ∈ (scanAt s.text pos).comments, s.HasComment c
  errors : ∀ e ∈ (scanAt s.text pos).errors, s.HasError e

/-- Where everything has been noted, scanning only goes on to the next token. -/
theorem scan_of_noted (h : s.Noted s.token.span.stop) :
    s.scan = { s with token := (scanAt s.text s.token.span.stop).token } := by
  have hcomments := foldl_addComment_of_has
    (s := { s with token := (scanAt s.text s.token.span.stop).token }) h.comments
  rw [scan, hcomments]
  exact foldl_addError_of_has h.errors

theorem scan_commentsEnd (s : Scanner) : s.commentsEnd ≤ s.scan.commentsEnd ∧
    ∀ c ∈ (scanAt s.text s.token.span.stop).comments, s.scan.HasComment c := by
  unfold HasComment
  rw [scan, foldl_addError_commentsEnd]
  exact foldl_addComment_commentsEnd
    (s := { s with token := (scanAt s.text s.token.span.stop).token }) (scanAt_comment_lt _ _)

theorem scan_hasError (s : Scanner) : (∀ e, s.HasError e → s.scan.HasError e) ∧
    ∀ e ∈ (scanAt s.text s.token.span.stop).errors, s.scan.HasError e := by
  obtain ⟨hkeep, hnew⟩ := foldl_addError_has (scanAt s.text s.token.span.stop).errors
  refine ⟨fun e he => hkeep e ?_, hnew⟩
  rwa [HasError, foldl_addComment_errors]

/-- Scanning notes what it comes across, -/
theorem noted_scan (s : Scanner) : s.scan.Noted s.token.span.stop := by
  refine ⟨?_, ?_⟩
  · rw [scan_text]
    exact s.scan_commentsEnd.2
  · rw [scan_text]
    exact s.scan_hasError.2

/-- and what was noted stays so. -/
theorem Noted.scan {pos : Nat} (h : s.Noted pos) : s.scan.Noted pos := by
  refine ⟨fun c hc => ?_, fun e he => ?_⟩
  · rw [scan_text] at hc
    exact Nat.lt_of_lt_of_le (h.comments c hc) s.scan_commentsEnd.1
  · rw [scan_text] at he
    exact s.scan_hasError.1 e (h.errors e he)

theorem Noted.iterate {pos : Nat} (h : s.Noted pos) : ∀ n, (Scanner.scan^[n] s).Noted pos
  | 0 => h
  | n + 1 => by
    rw [Function.iterate_succ_apply']
    exact (h.iterate n).scan

/-! ### Back at an earlier token -/

/-- A scanner that has been `far` tokens on, and is back at the token after `n`. -/
def backAt (s : Scanner) (n far : Nat) : Scanner :=
  { Scanner.scan^[far] s with token := (Scanner.scan^[n] s).token }

theorem iterate_scan_text (s : Scanner) : ∀ n, (Scanner.scan^[n] s).text = s.text
  | 0 => rfl
  | n + 1 => by rw [Function.iterate_succ_apply', scan_text, iterate_scan_text s n]

/-- **One step after looking ahead.** Scanning goes on to the token it would have gone on to, and
notes nothing new before it is farther than ever. -/
theorem backAt_scan (s : Scanner) {n far : Nat} (h : n ≤ far) :
    (s.backAt n far).scan = s.backAt (n + 1) (max far (n + 1)) := by
  rcases Nat.eq_or_lt_of_le h with rfl | hlt
  · rw [max_eq_right (Nat.le_succ n), backAt, backAt, Function.iterate_succ_apply']
  · -- What comes next was noted when the scanner first came by.
    obtain ⟨d, rfl⟩ : ∃ d, far = d + (n + 1) := ⟨far - (n + 1), by omega⟩
    have hnoted : (s.backAt n (d + (n + 1))).Noted (Scanner.scan^[n] s).token.span.stop := by
      have hfirst := noted_scan (Scanner.scan^[n] s)
      rw [← Function.iterate_succ_apply' Scanner.scan] at hfirst
      have hlater := hfirst.iterate d
      rw [← Function.iterate_add_apply] at hlater
      exact ⟨hlater.comments, hlater.errors⟩
    rw [scan_of_noted hnoted, max_eq_left (by omega), backAt, backAt,
      Function.iterate_succ_apply', scan_token, iterate_scan_text, iterate_scan_text]

theorem iterate_backAt (s : Scanner) {n far : Nat} (h : n ≤ far) :
    ∀ k, Scanner.scan^[k] (s.backAt n far) = s.backAt (n + k) (max far (n + k))
  | 0 => by rw [Function.iterate_zero_apply, Nat.add_zero, max_eq_left h]
  | k + 1 => by
    rw [Function.iterate_succ_apply', iterate_backAt s h k, backAt_scan s (le_max_right _ _)]
    congr 1
    omega

mutual

/-- **One move.** A scanner that is back at a token is back at a token after any move. -/
theorem move_backAt (s : Scanner) : ∀ (m : Move) {n far : Nat}, n ≤ far →
    ∃ far', n + passes [m] ≤ far' ∧ (s.backAt n far).move m = s.backAt (n + passes [m]) far'
  | .scan, n, far, h => ⟨max far (n + 1), le_max_right _ _, s.backAt_scan h⟩
  | .ahead ms, n, far, h => by
    obtain ⟨far', hfar, hms⟩ := moveAll_backAt s ms h
    refine ⟨far', by simp only [passes]; omega, ?_⟩
    rw [move, hms]
    rfl
termination_by structural m => m

/-- **All moves.** The tokens that were looked at are kept apart from those that were passed. -/
theorem moveAll_backAt (s : Scanner) : ∀ (ms : List Move) {n far : Nat}, n ≤ far →
    ∃ far', n + passes ms ≤ far' ∧ (s.backAt n far).moveAll ms = s.backAt (n + passes ms) far'
  | [], n, far, h => ⟨far, h, rfl⟩
  | m :: ms, n, far, h => by
    obtain ⟨far₁, h₁, hm⟩ := move_backAt s m h
    obtain ⟨far₂, h₂, hms⟩ := moveAll_backAt s ms h₁
    have hpasses : passes (m :: ms) = passes [m] + passes ms := by
      cases m <;> simp only [passes] <;> omega
    rw [hpasses, ← Nat.add_assoc]
    exact ⟨far₂, h₂, by rw [moveAll, hm, hms]⟩
termination_by structural ms => ms

end

/-! ### At the end of the text -/

/-- After the end of the text there is nothing to be noted. -/
theorem noted_end (s : Scanner) : s.Noted s.text.length := by
  have hnone : (scanAt s.text s.text.length).comments = [] ∧
      (scanAt s.text s.text.length).errors = [] := by
    rw [scanAt, List.drop_length]
    exact ⟨rfl, rfl⟩
  refine ⟨fun c hc => ?_, fun e he => ?_⟩
  · rw [hnone.1] at hc
    cases hc
  · rw [hnone.2] at he
    cases he

theorem iterate_stop_le (h : s.token.span.stop ≤ s.text.length) :
    ∀ n, (Scanner.scan^[n] s).token.span.stop ≤ s.text.length
  | 0 => h
  | n + 1 => by
    rw [Function.iterate_succ_apply', scan_token, iterate_scan_text]
    exact scanAt_stop_le (iterate_stop_le h n)

theorem iterate_stop_mono (s : Scanner) {n far : Nat} (h : n ≤ far) :
    (Scanner.scan^[n] s).token.span.stop ≤ (Scanner.scan^[far] s).token.span.stop := by
  induction h with
  | refl => exact le_refl _
  | @step far _ ih =>
    obtain ⟨hpos, hfine⟩ := Parse.scan_fine (Scanner.scan^[far] s)
    rw [Nat.succ_eq_add_one, Function.iterate_succ_apply']
    exact ih.trans (hpos.trans hfine.1)

/-- Having looked beyond the end of the text is as good as not having done so. -/
theorem backAt_end (hstop : s.token.span.stop ≤ s.text.length) {n far : Nat} (hfar : n ≤ far)
    (hend : (Scanner.scan^[n] s).token.span.stop = s.text.length) :
    s.backAt n far = Scanner.scan^[n] s := by
  induction hfar with
  | refl => rfl
  | @step far hfar ih =>
    have hthere : (Scanner.scan^[far] s).token.span.stop = (Scanner.scan^[far] s).text.length := by
      rw [iterate_scan_text]
      exact le_antisymm (iterate_stop_le hstop far) (hend ▸ s.iterate_stop_mono hfar)
    have hnoted : (Scanner.scan^[far] s).Noted (Scanner.scan^[far] s).token.span.stop := by
      rw [hthere]
      exact noted_end _
    rw [← ih, backAt, backAt, Nat.succ_eq_add_one, Function.iterate_succ_apply',
      scan_of_noted hnoted]

/-! ### Comments in order -/

/-- The comments that were recorded start one after the other. -/
structure InOrder (s : Scanner) : Prop where
  increasing : s.comments.Pairwise (·.span.pos < ·.span.pos)
  bounds : ∀ c ∈ s.comments, s.HasComment c

theorem InOrder.addComment (h : s.InOrder) {c : Comment} (hc : c.span.pos < c.span.stop) :
    (s.addComment c).InOrder := by
  obtain ⟨hle, hhas⟩ := addComment_commentsEnd (s := s) hc
  by_cases hnew : s.commentsEnd ≤ c.span.pos
  · have hcomments : (s.addComment c).comments = s.comments ++ [c] := by
      rw [Scanner.addComment, if_pos hnew]
    refine ⟨?_, fun d hd => ?_⟩
    · rw [hcomments, List.pairwise_append]
      refine ⟨h.increasing, List.pairwise_singleton _ _, fun d hd e he => ?_⟩
      rw [List.mem_singleton.mp he]
      exact Nat.lt_of_lt_of_le (h.bounds d hd) hnew
    · rw [hcomments] at hd
      rcases List.mem_append.mp hd with hd | hd
      · exact Nat.lt_of_lt_of_le (h.bounds d hd) hle
      · rw [List.mem_singleton.mp hd]
        exact hhas
  · rwa [Scanner.addComment, if_neg hnew]

theorem InOrder.foldl_addComment (h : s.InOrder) (hcs : ∀ c ∈ cs, c.span.pos < c.span.stop) :
    (cs.foldl Scanner.addComment s).InOrder := by
  induction cs generalizing s with
  | nil => exact h
  | cons c cs ih =>
    exact ih (h.addComment (hcs c List.mem_cons_self)) fun d hd =>
      hcs d (List.mem_cons_of_mem _ hd)

theorem InOrder.scan (h : s.InOrder) : s.scan.InOrder := by
  have hnext : InOrder { s with token := (scanAt s.text s.token.span.stop).token } :=
    ⟨h.increasing, h.bounds⟩
  have hadded := hnext.foldl_addComment (scanAt_comment_lt s.text s.token.span.stop)
  refine ⟨?_, fun c hc => ?_⟩
  · rw [Scanner.scan, foldl_addError_comments]
    exact hadded.increasing
  · rw [Scanner.scan, foldl_addError_comments] at hc
    rw [HasComment, Scanner.scan, foldl_addError_commentsEnd]
    exact hadded.bounds c hc

theorem InOrder.iterate (h : s.InOrder) : ∀ n, (Scanner.scan^[n] s).InOrder
  | 0 => h
  | n + 1 => by
    rw [Function.iterate_succ_apply']
    exact (h.iterate n).scan

/-! ### The tokens that are seen -/

/-- The tokens that follow depend on the text and the current token alone. -/
theorem tokens_congr {s s' : Scanner} (htext : s.text = s'.text) (htoken : s.token = s'.token) :
    ∀ n, (s.tokens n fun _ => false) = s'.tokens n fun _ => false
  | 0 => rfl
  | n + 1 => by
    have hscan : s.scan.token = s'.scan.token := by rw [scan_token, scan_token, htext, htoken]
    have hrest : s.scan.text = s'.scan.text := by rw [scan_text, scan_text, htext]
    rw [tokens, tokens, advance_false, advance_false]
    exact congrArg₂ List.cons hscan (tokens_congr hrest hscan n)

/-- Peeking shows the tokens that follow. -/
theorem peek_eq (s : Scanner) : ∀ n, s.peek n =
    (s.tokens n fun _ => false, s.move (.ahead (List.replicate n .scan)))
  | 0 => rfl
  | n + 1 => by
    rw [peek, peek_eq s.scan n, tokens, advance_false]
    rfl

/-- Scanning on to the end does not depend on how far ahead the scanner has been. -/
theorem scanAll_backAt (hstop : s.token.span.stop ≤ s.text.length) (n : Nat) :
    ∃ k, ∀ far, n ≤ far → (s.backAt n far).scanAll =
      ((Scanner.scan^[n] s).tokens k fun _ => false, Scanner.scan^[n + k] s) := by
  have htext := iterate_scan_text s n
  obtain ⟨k, hk, htiled⟩ := tokens_tiled (s := Scanner.scan^[n] s) (fun _ => false)
    (by rw [htext]; exact iterate_stop_le hstop n)
  have hplain := (scanAllWithin_tiled hk htiled).2
  rw [htext, ← Function.iterate_add_apply, Nat.add_comm k n] at hplain
  refine ⟨k, fun far hfar => ?_⟩
  have hback : (s.backAt n far).text = (Scanner.scan^[n] s).text := by
    rw [htext]
    exact iterate_scan_text s far
  have htokens := tokens_congr hback rfl k
  have hlimit : k ≤ (s.backAt n far).text.length + 1 := by
    rw [hback]
    omega
  have hall : (s.backAt n far).scanAll = _ :=
    (scanAllWithin_tiled hlimit (by rw [htokens, hback]; exact htiled)).1
  rw [hall, htokens, iterate_backAt s hfar, backAt_end hstop (le_max_right _ _) hplain]

end Scanner

/-- **Looking ahead is invisible.** Let a scanner go through a text from its start, looking ahead at
any places, as far and as often as one likes, also while it looks ahead. Then it is at the token to
which scanning alone would have come, and scanning on to the end gives the same tokens and ends in
the same state, with the same comments and errors in the same order; no comment is there twice.
Peeking is one way to look ahead, and shows the tokens that follow. -/
theorem lookahead_invisible (text : String) (ms : List Move) :
    ((Scanner.ofText text).moveAll ms).token =
        (Scanner.scan^[passes ms] (Scanner.ofText text)).token ∧
      ((Scanner.ofText text).moveAll ms).scanAll =
        (Scanner.scan^[passes ms] (Scanner.ofText text)).scanAll ∧
      ((Scanner.ofText text).moveAll ms).scanAll.2.comments.Pairwise (·.span.pos < ·.span.pos) ∧
      ∀ n, ((Scanner.ofText text).moveAll ms).peek n =
        ((Scanner.scan^[passes ms] (Scanner.ofText text)).tokens n fun _ => false,
          ((Scanner.ofText text).moveAll ms).move (.ahead (List.replicate n .scan))) := by
  have hstop : (Scanner.ofText text).token.span.stop ≤ (Scanner.ofText text).text.length :=
    Nat.zero_le _
  have horder : (Scanner.ofText text).InOrder := ⟨.nil, fun c hc => absurd hc List.not_mem_nil⟩
  obtain ⟨far, hfar, hmoves⟩ := (Scanner.ofText text).moveAll_backAt ms (le_refl 0)
  rw [Nat.zero_add] at hfar hmoves
  obtain ⟨k, hall⟩ := Scanner.scanAll_backAt hstop (passes ms)
  have hback : (Scanner.ofText text).moveAll ms =
      (Scanner.ofText text).backAt (passes ms) far := hmoves
  rw [hback]
  refine ⟨rfl, (hall far hfar).trans (hall _ (le_refl _)).symm, ?_, fun n => ?_⟩
  · rw [hall far hfar]
    exact (horder.iterate _).increasing
  · rw [Scanner.peek_eq]
    have htext : ((Scanner.ofText text).backAt (passes ms) far).text =
        (Scanner.scan^[passes ms] (Scanner.ofText text)).text :=
      (Scanner.iterate_scan_text _ far).trans (Scanner.iterate_scan_text _ _).symm
    rw [Scanner.tokens_congr htext rfl n]

end Script
end Countersign
