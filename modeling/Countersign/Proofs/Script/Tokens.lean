/-
# Tokens take characters

Every token but the end of the text takes at least one character, so that scanning moves on with
every token that is passed. What kind of token is found at an offset depends on the text from there
on alone.

Key definitions: `Token.Solid`.
Key theorems: `lexToken_length_pos`, `scanAt_solid`, `scanAt_kind`.
-/
import Countersign.Proofs.Script.Reads

namespace Countersign
namespace Script

/-! ### Blanks and comments -/

/-- From offset `pos` of a text on, what is left is what follows the offset that was come to. -/
def Skipped.Leaves (pos : Nat) (text : List Char) (s : Skipped) : Prop :=
  ∃ n, s.pos = pos + n ∧ s.rest = text.drop n

theorem Skipped.Leaves.cons {pos : Nat} {text : List Char} {s : Skipped} (c : Char)
    (h : s.Leaves (pos + 1) text) : s.Leaves pos (c :: text) := by
  obtain ⟨n, hpos, hrest⟩ := h
  exact ⟨n + 1, by omega, hrest⟩

theorem skipTrivia_leaves (t : Trivia) (pos : Nat) (text : List Char) :
    (skipTrivia t pos text).Leaves pos text := by
  fun_induction skipTrivia t pos text with
  | case1 opened reversed pos => exact ⟨0, rfl, rfl⟩
  | case2 t pos _ => exact ⟨0, rfl, rfl⟩
  | case3 pos rest ih => exact (ih.cons '/').cons '/'
  | case4 pos rest ih => exact (ih.cons '*').cons '/'
  | case5 pos c rest _ _ _ ih => exact ih.cons c
  | case6 pos c rest _ _ _ => exact ⟨0, rfl, rfl⟩
  | case7 pos c rest ih => exact ih.cons c
  | case8 opened reversed pos rest ih => exact (ih.cons '/').cons '*'
  | case9 opened reversed pos c rest _ ih => exact ih.cons c

/-- A token is read from the text at its own offset. -/
theorem scanAt_rest (text : List Char) (pos : Nat) :
    (skipTrivia .blank pos (text.drop pos)).rest =
      text.drop (scanAt text pos).token.span.pos := by
  obtain ⟨n, hpos, hrest⟩ := skipTrivia_leaves .blank pos (text.drop pos)
  rw [hrest, List.drop_drop]
  exact congrArg text.drop hpos.symm

theorem scanAt_kind (text : List Char) (pos : Nat) :
    (scanAt text pos).token.kind = (lexToken (text.drop (scanAt text pos).token.span.pos)).kind := by
  rw [← scanAt_rest]
  rfl

theorem scanAt_stop (text : List Char) (pos : Nat) :
    (scanAt text pos).token.span.stop = (scanAt text pos).token.span.pos +
      (lexToken (text.drop (scanAt text pos).token.span.pos)).length := by
  rw [← scanAt_rest]
  rfl

/-! ### Lengths of tokens -/

theorem skipFraction_length (text : List Char) : (skipFraction text).length ≤ text.length := by
  unfold skipFraction
  split
  · exact (List.dropWhile_sublist _).length_le.trans (Nat.le_succ _)
  · exact le_refl _

theorem skipOneOf_length (cs text : List Char) : (skipOneOf cs text).length ≤ text.length := by
  unfold skipOneOf
  split
  · split
    · exact Nat.le_succ _
    · exact le_refl _
  · exact le_refl _

theorem skipExponent_length (text : List Char) : (skipExponent text).length ≤ text.length := by
  unfold skipExponent
  split
  · calc ((skipOneOf ['+', '-'] (text.drop 1)).dropWhile Char.isDigit).length
        ≤ (skipOneOf ['+', '-'] (text.drop 1)).length := (List.dropWhile_sublist _).length_le
      _ ≤ (text.drop 1).length := skipOneOf_length _ _
      _ ≤ text.length := (List.drop_sublist 1 text).length_le
  · exact le_refl _

/-- A number has a digit, or a point before one. -/
theorem lexDecimal_length_pos {c : Char} {text : List Char}
    (h : c.isDigit = true ∨ startsPointDigit (c :: text) = true) :
    0 < (lexDecimal (c :: text)).length := by
  have hexponent := skipExponent_length (skipFraction ((c :: text).dropWhile Char.isDigit))
  suffices hfraction : (skipFraction ((c :: text).dropWhile Char.isDigit)).length ≤ text.length by
    show 0 < (c :: text).length - _
    rw [List.length_cons]
    omega
  by_cases hdigit : c.isDigit = true
  · rw [List.dropWhile_cons_of_pos hdigit]
    exact (skipFraction_length _).trans (List.dropWhile_sublist _).length_le
  · rw [List.dropWhile_cons_of_neg hdigit]
    have hpoint := h.resolve_left hdigit
    unfold startsPointDigit at hpoint
    split at hpoint
    · rename_i d rest heq
      cases heq
      exact (List.dropWhile_sublist _).length_le
    · cases hpoint

theorem lexNumber_length_pos {c : Char} {text : List Char}
    (h : c.isDigit = true ∨ startsPointDigit (c :: text) = true) :
    0 < (lexNumber (c :: text)).length := by
  unfold lexNumber
  split
  · rename_i x digits heq
    cases heq
    split
    · exact Nat.succ_pos _
    · exact lexDecimal_length_pos h
  · exact lexDecimal_length_pos h

theorem Mark.text_length_pos (m : Mark) : 0 < m.text.length := by
  cases m <;> decide

theorem lexMark_length_pos (text : List Char) : 0 < (lexMark text).length := by
  unfold lexMark
  split
  · rename_i m _
    exact m.text_length_pos
  · exact Nat.one_pos

/-- A token takes at least one character of a text that is not over. -/
theorem lexToken_length_pos (c : Char) (text : List Char) : 0 < (lexToken (c :: text)).length := by
  simp only [lexToken]
  split
  · exact Nat.succ_pos _
  · split
    · rename_i h
      exact lexNumber_length_pos (by simpa using h)
    · split
      · exact Nat.succ_pos _
      · exact lexMark_length_pos _

/-- The token ends after it starts, unless it is the end of the text. -/
def Token.Solid (t : Token) : Prop := t.kind ≠ .endOfFile → t.span.pos < t.span.stop

theorem scanAt_solid (text : List Char) (pos : Nat) : (scanAt text pos).token.Solid := by
  intro hkind
  rw [scanAt_stop]
  rw [scanAt_kind] at hkind
  cases hrest : text.drop (scanAt text pos).token.span.pos with
  | nil =>
    rw [hrest] at hkind
    exact absurd rfl hkind
  | cons c rest =>
    have hlength := lexToken_length_pos c rest
    omega

theorem rescanRegex_solid (text : List Char) (t : Token) : (rescanRegex text t).1.Solid := by
  intro _
  show t.span.pos < t.span.pos + 1 + _
  omega

/-! ### The first token -/

/-- The first token of a text, after a first line that starts with `#!`. -/
def firstToken (text : String) : Token := (Scanner.ofText text).skipShebang.scan.token

theorem firstToken_eq {text : String} (h : ['#', '!'].isPrefixOf text.toList = false) :
    firstToken text = (scanAt text.toList 0).token := by
  have hskip : (Scanner.ofText text).skipShebang = Scanner.ofText text := by
    unfold Scanner.skipShebang
    rw [if_neg]
    rw [show (Scanner.ofText text).text = text.toList from rfl, h, Bool.and_false]
    exact Bool.false_ne_true
  rw [firstToken, hskip, scan_token]
  rfl

end Script
end Countersign
