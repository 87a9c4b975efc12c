/-
# What a scanner keeps

A scanner goes from token to token over a text that stays as it is. The comments that it comes
across on the way, looking ahead or not, stand in that text at their offsets.

Key definitions: `Comment.StandsIn`, `Scanner.Faithful`.
Key theorems: `scan_token`, `scan_text`, `scanAt_comments`, `Scanner.Faithful.scan`.
-/
import Countersign.Script.Parse
import Mathlib.Tactic

namespace Countersign
namespace Script

/-! ### The current token -/

theorem foldl_addComment_token (cs : List Comment) (s : Scanner) :
    (cs.foldl Scanner.addComment s).token = s.token := by
  induction cs generalizing s with
  | nil => rfl
  | cons c cs ih =>
    rw [List.foldl_cons, ih, Scanner.addComment]
    split <;> rfl

theorem foldl_addError_token (es : List SyntaxError) (s : Scanner) :
    (es.foldl Scanner.addError s).token = s.token := by
  induction es generalizing s with
  | nil => rfl
  | cons e es ih =>
    rw [List.foldl_cons, ih, Scanner.addError]
    split <;> rfl

theorem scan_token (s : Scanner) : s.scan.token = (scanAt s.text s.token.span.stop).token := by
  rw [Scanner.scan, foldl_addError_token, foldl_addComment_token]

theorem rescanSlash_token (s : Scanner) :
    s.rescanSlash.token = (rescanRegex s.text s.token).1 := by
  rw [Scanner.rescanSlash, foldl_addError_token]

theorem peek_token (s : Scanner) (n : Nat) : (s.peek n).2.token = s.token := by
  cases n with
  | zero => rfl
  | succ n => rfl

/-! ### The text -/

theorem foldl_addComment_text (cs : List Comment) (s : Scanner) :
    (cs.foldl Scanner.addComment s).text = s.text := by
  induction cs generalizing s with
  | nil => rfl
  | cons c cs ih =>
    rw [List.foldl_cons, ih, Scanner.addComment]
    split <;> rfl

theorem foldl_addError_text (es : List SyntaxError) (s : Scanner) :
    (es.foldl Scanner.addError s).text = s.text := by
  induction es generalizing s with
  | nil => rfl
  | cons e es ih =>
    rw [List.foldl_cons, ih, Scanner.addError]
    split <;> rfl

@[simp]
theorem scan_text (s : Scanner) : s.scan.text = s.text := by
  rw [Scanner.scan, foldl_addError_text, foldl_addComment_text]

@[simp]
theorem rescanSlash_text (s : Scanner) : s.rescanSlash.text = s.text := by
  rw [Scanner.rescanSlash, foldl_addError_text]

@[simp]
theorem peek_text (s : Scanner) (n : Nat) : (s.peek n).2.text = s.text := by
  induction n generalizing s with
  | zero => rfl
  | succ n ih =>
    show (s.scan.peek n).2.text = s.text
    rw [ih, scan_text]

theorem skipShebang_text (s : Scanner) : s.skipShebang.text = s.text := by
  unfold Scanner.skipShebang
  split <;> rfl

/-! ### Comments -/

/-- The comment opens at its offset of the text, and is what is written there. -/
structure Comment.StandsIn (text : List Char) (c : Comment) : Prop where
  opens : ['/', '*'] <+: c.text.toList
  written : c.text.toList <+: text.drop c.span.pos

/-- Where `rest` is left of a text, the comment that is open is what was written before it. -/
def Trivia.StandsIn (text rest : List Char) : Trivia → Prop
  | .block opened reversed =>
    ['/', '*'] <+: reversed.reverse ∧ text.drop opened = reversed.reverse ++ rest
  | _ => True

/-- One more character of a comment that is open. -/
theorem Trivia.StandsIn.cons {text rest : List Char} {opened : Nat} {reversed : List Char} {c : Char}
    (h : (Trivia.block opened reversed).StandsIn text (c :: rest)) :
    (Trivia.block opened (c :: reversed)).StandsIn text rest := by
  obtain ⟨hopens, hwritten⟩ := h
  rw [← List.singleton_append, ← List.append_assoc] at hwritten
  rw [Trivia.StandsIn, List.reverse_cons]
  exact ⟨hopens.trans (List.prefix_append _ _), hwritten⟩

/-- A comment that is over, or that the text ends in. -/
theorem Trivia.StandsIn.blockComment {text rest : List Char} {opened : Nat} {reversed : List Char}
    (h : (Trivia.block opened reversed).StandsIn text rest) (pos : Nat) :
    (blockComment opened pos reversed).StandsIn text := by
  obtain ⟨hopens, hwritten⟩ := h
  have htext : (Script.blockComment opened pos reversed).text.toList = reversed.reverse :=
    String.toList_ofList
  refine ⟨?_, ?_⟩
  · rwa [htext]
  · rw [htext]
    exact ⟨rest, hwritten.symm⟩

theorem drop_succ_of_cons {text rest : List Char} {pos : Nat} {c : Char}
    (h : text.drop pos = c :: rest) : text.drop (pos + 1) = rest := by
  rw [← List.drop_drop, h, List.drop_one, List.tail_cons]

/-- **The comments that are skipped stand in the text.** -/
theorem skipTrivia_comments {text : List Char} (t : Trivia) (pos : Nat) (rest : List Char) :
    text.drop pos = rest → t.StandsIn text rest →
      ∀ c ∈ (skipTrivia t pos rest).comments, c.StandsIn text := by
  fun_induction skipTrivia t pos rest with
  | case1 opened reversed pos =>
    intro _ ht c hc
    rw [List.mem_singleton.mp hc]
    exact ht.blockComment pos
  | case2 t pos _ => exact fun _ _ _ hc => absurd hc List.not_mem_nil
  | case3 pos rest ih => exact fun hrest _ => ih (drop_succ_of_cons (drop_succ_of_cons hrest)) trivial
  | case4 pos rest ih =>
    intro hrest _
    exact ih (drop_succ_of_cons (drop_succ_of_cons hrest)) ⟨List.prefix_rfl, hrest⟩
  | case5 pos c rest _ _ _ ih => exact fun hrest _ => ih (drop_succ_of_cons hrest) trivial
  | case6 pos c rest _ _ _ => exact fun _ _ _ hc => absurd hc List.not_mem_nil
  | case7 pos c rest ih =>
    intro hrest _
    refine ih (drop_succ_of_cons hrest) ?_
    split <;> trivial
  | case8 opened reversed pos rest ih =>
    intro hrest ht c hc
    rcases List.mem_cons.mp hc with rfl | hc
    · exact ht.cons.cons.blockComment (pos + 2)
    · exact ih (drop_succ_of_cons (drop_succ_of_cons hrest)) trivial c hc
  | case9 opened reversed pos c rest _ ih =>
    exact fun hrest ht => ih (drop_succ_of_cons hrest) ht.cons

theorem scanAt_comments (text : List Char) (pos : Nat) :
    ∀ c ∈ (scanAt text pos).comments, c.StandsIn text :=
  skipTrivia_comments .blank pos _ rfl trivial

theorem mem_foldl_addComment {cs : List Comment} {s : Scanner} {c : Comment}
    (h : c ∈ (cs.foldl Scanner.addComment s).comments) : c ∈ s.comments ∨ c ∈ cs := by
  induction cs generalizing s with
  | nil => exact .inl h
  | cons d cs ih =>
    rcases ih h with h | h
    · unfold Scanner.addComment at h
      split at h
      · rcases List.mem_append.mp h with h | h
        · exact .inl h
        · rw [List.mem_singleton.mp h]
          exact .inr List.mem_cons_self
      · exact .inl h
    · exact .inr (List.mem_cons_of_mem _ h)

theorem foldl_addError_comments (es : List SyntaxError) (s : Scanner) :
    (es.foldl Scanner.addError s).comments = s.comments := by
  induction es generalizing s with
  | nil => rfl
  | cons e es ih =>
    rw [List.foldl_cons, ih, Scanner.addError]
    split <;> rfl

namespace Scanner

/-- The comments that were recorded stand in the text. -/
def Faithful (s : Scanner) : Prop := ∀ c ∈ s.comments, c.StandsIn s.text

variable {s : Scanner}

theorem Faithful.scan (h : s.Faithful) : s.scan.Faithful := by
  intro c hc
  rw [scan_text]
  rw [Scanner.scan, foldl_addError_comments] at hc
  rcases mem_foldl_addComment hc with hc | hc
  · exact h c hc
  · exact scanAt_comments _ _ c hc

theorem Faithful.rescanSlash (h : s.Faithful) : s.rescanSlash.Faithful := by
  intro c hc
  rw [rescanSlash_text]
  rw [Scanner.rescanSlash, foldl_addError_comments] at hc
  exact h c hc

theorem Faithful.peek (h : s.Faithful) (n : Nat) : (s.peek n).2.Faithful := by
  induction n generalizing s with
  | zero => exact h
  | succ n ih => exact ih h.scan

theorem faithful_ofText (text : String) : (ofText text).skipShebang.Faithful := by
  intro c hc
  have hnone : (ofText text).skipShebang.comments = [] := by
    unfold skipShebang
    split <;> rfl
  rw [hnone] at hc
  exact absurd hc List.not_mem_nil

end Scanner

end Script
end Countersign
