/-
# Line breaks before tokens

Whether a line ends before a token is noticed while blanks and comments are skipped, character by
character; line numbers are counted over the text as a whole, where a carriage return and a line
feed behind it end one line. Both come to the same: a token says that a line ends before it just if
its line number is greater than that of the end of the token before.

Key definitions: `Skipped.Notes`, `BreakBetween`.
Key theorems: `skipTrivia_notes`, `scanAt_breaks`, `Scanner.advance_breaks`, `breaks_are_lines`.
-/
import Countersign.Proofs.Script.Tiling
import Countersign.Proofs.Text.LineMap

namespace Countersign
namespace Script

/-! ### What skipping notices -/

/-- From offset `pos` of a text on, a line break is noticed just if one is skipped. -/
def Skipped.Notes (pos : Nat) (text : List Char) (s : Skipped) : Prop :=
  ∃ n, s.pos = pos + n ∧ (s.lineBreak = true ↔ ∃ c ∈ text.take n, Text.isLineBreak c = true)

section Notes

variable {pos : Nat} {text : List Char} {s : Skipped} {c : Char}

theorem Skipped.Notes.after (h : s.Notes (pos + 1) text) (c : Char) :
    (s.after c).Notes pos (c :: text) := by
  obtain ⟨n, hpos, hbreak⟩ := h
  refine ⟨n + 1, ?_, ?_⟩
  · show s.pos = _
    omega
  · rw [List.take_succ_cons, List.exists_mem_cons_iff, ← hbreak]
    exact Bool.or_eq_true _ _ ▸ Iff.rfl

/-- A character of a mark that opens or closes a comment ends no line. -/
theorem Skipped.Notes.mark (h : s.Notes (pos + 1) text) (hc : Text.isLineBreak c = false) :
    s.Notes pos (c :: text) := by
  obtain ⟨n, hpos, hbreak⟩ := h
  refine ⟨n + 1, by omega, ?_⟩
  rw [List.take_succ_cons, List.exists_mem_cons_iff, ← hbreak, hc]
  simp

theorem Skipped.Notes.nothing (h : s.pos = pos) (hs : s.lineBreak = false) : s.Notes pos text :=
  ⟨0, h, by simp [hs]⟩

end Notes

/-- **Skipping notices every line break**, between tokens and in comments. -/
theorem skipTrivia_notes (t : Trivia) (pos : Nat) (text : List Char) :
    (skipTrivia t pos text).Notes pos text := by
  fun_induction skipTrivia t pos text with
  | case1 opened reversed pos => exact .nothing rfl rfl
  | case2 t pos _ => exact .nothing rfl rfl
  | case3 pos rest ih => exact (ih.mark (by decide)).mark (by decide)
  | case4 pos rest ih => exact (ih.mark (by decide)).mark (by decide)
  | case5 pos c rest _ _ _ ih => exact ih.after c
  | case6 pos c rest _ _ _ => exact .nothing rfl rfl
  | case7 pos c rest ih => exact ih.after c
  | case8 opened reversed pos rest ih => exact (ih.mark (by decide)).mark (by decide)
  | case9 opened reversed pos c rest _ ih => exact ih.after c

/-- Skipping never stops in front of a line break. -/
theorem skipTrivia_stops (t : Trivia) (pos : Nat) (text : List Char) :
    ∀ c ∈ (skipTrivia t pos text).rest.head?, Text.isLineBreak c = false := by
  fun_induction skipTrivia t pos text with
  | case1 opened reversed pos =>
    intro c hc
    cases hc
  | case2 t pos _ =>
    intro c hc
    cases hc
  | case3 pos rest ih => exact ih
  | case4 pos rest ih => exact ih
  | case5 pos c rest _ _ _ ih => exact ih
  | case6 pos c rest _ _ hblank =>
    intro d hd
    cases hd
    rw [Bool.not_eq_true, Bool.or_eq_false_iff] at hblank
    exact hblank.1
  | case7 pos c rest ih => exact ih
  | case8 opened reversed pos rest ih => exact ih
  | case9 opened reversed pos c rest _ ih => exact ih

/-! ### Tokens and lines -/

/-- No token starts with a line break. -/
theorem scanAt_start (text : List Char) (pos : Nat) {c : Char}
    (h : text[(scanAt text pos).token.span.pos]? = some c) : Text.isLineBreak c = false := by
  have hstops := skipTrivia_stops .blank pos (text.drop pos)
  rw [scanAt_rest, List.head?_drop] at hstops
  exact hstops c h

/-- **A line ends before the token behind an offset just if the token starts on a later line.** A
carriage return before a line feed ends no line by itself, but the line feed is skipped with it. -/
theorem scanAt_breaks (text : String) (pos : Nat) :
    (scanAt text.toList pos).token.flags.lineBreakBefore = true ↔
      (LineMap.ofText text).lineNumber pos <
        (LineMap.ofText text).lineNumber (scanAt text.toList pos).token.span.pos := by
  obtain ⟨n, hpos, hbreak⟩ := skipTrivia_notes .blank pos (text.toList.drop pos)
  have hstart : (scanAt text.toList pos).token.span.pos = pos + n := hpos
  have hfirst := fun c => scanAt_start (c := c) text.toList pos
  rw [hstart] at hfirst ⊢
  rw [LineMap.lineNumber_lt_iff text (Nat.le_add_right pos n)]
  refine hbreak.trans ⟨?_, ?_⟩
  · rintro ⟨c, hc, hlinebreak⟩
    obtain ⟨i, hi, hget⟩ := List.mem_take_iff_getElem.mp hc
    have hchar : text.toList[pos + i]? = some c := by
      rw [← List.getElem?_drop, ← hget]
      exact List.getElem?_eq_getElem _
    by_cases hpair : c = '\r' ∧ text.toList[pos + i + 1]? = some '\n'
    · -- No token starts with the line feed, so it is skipped as well, and a line ends behind it.
      have hinside : i + 1 ≠ n := by
        intro hlast
        have hfeed := hfirst '\n' (by rw [← hlast]; exact hpair.2)
        exact absurd hfeed (by decide)
      exact ⟨pos + i + 1, by omega, by omega, '\n', hpair.2, by decide, by simp⟩
    · exact ⟨pos + i, by omega, by omega, c, hchar, hlinebreak, fun hc hfeed => hpair ⟨hc, hfeed⟩⟩
  · rintro ⟨k, hlow, hhigh, c, hc, hlinebreak, -⟩
    refine ⟨c, ?_, hlinebreak⟩
    obtain ⟨i, rfl⟩ := Nat.exists_eq_add_of_le hlow
    rw [← List.getElem?_drop] at hc
    have hi : i < n := by omega
    exact List.mem_of_getElem? ((List.getElem?_take_of_lt hi).trans hc)

/-- The later of two tokens says that a line ends between them just if it starts on a later line
than the earlier one ends on. -/
def BreakBetween (lines : LineMap) (t t' : Token) : Prop :=
  t'.flags.lineBreakBefore = true ↔ lines.lineNumber t.span.stop < lines.lineNumber t'.span.pos

namespace Scanner

variable {text : String} {s : Scanner}

/-- **One step of scanning.** A token that is read again still starts where it did. -/
theorem advance_breaks (htext : s.text = text.toList) (again : Bool) :
    BreakBetween (.ofText text) s.token (s.advance again).token := by
  have hbreaks := scanAt_breaks text s.token.span.stop
  rw [← htext] at hbreaks
  unfold advance
  split
  · rw [rescanSlash_token, scan_token, scan_text]
    exact hbreaks
  · rw [scan_token]
    exact hbreaks

/-- **All steps of scanning**, whatever is read again. -/
theorem tokens_breaks (htext : s.text = text.toList) (n : Nat) (again : Nat → Bool) :
    (s.token :: s.tokens n again).IsChain (BreakBetween (.ofText text)) := by
  induction n generalizing s again with
  | zero => exact .singleton _
  | succ n ih =>
    exact .cons_cons (advance_breaks htext _) (ih ((advance_text _).trans htext) _)

theorem scanAllWithin_breaks (htext : s.text = text.toList) (limit : Nat) :
    (s.token :: (scanAllWithin limit s).1).IsChain (BreakBetween (.ofText text)) := by
  induction limit generalizing s with
  | zero => exact .singleton _
  | succ limit ih =>
    have hstep := advance_breaks htext false
    rw [advance_false] at hstep
    rw [scanAllWithin]
    dsimp only
    split
    · exact .cons_cons hstep (.singleton _)
    · exact .cons_cons hstep (ih ((scan_text s).trans htext))

end Scanner

/-- The tokens that tile a text end with its end. -/
theorem Tiled.getLast? {text : List Char} {start : Nat} {ts : List Token}
    (h : Tiled text start ts) : ∃ t ∈ ts.getLast?, t.kind = .endOfFile := by
  induction h with
  | @last _ t _ hkind _ => exact ⟨t, rfl, hkind⟩
  | @token _ t ts _ _ _ _ _ ih =>
    obtain ⟨last, hlast, hkind⟩ := ih
    refine ⟨last, ?_, hkind⟩
    rw [Option.mem_def] at hlast ⊢
    rw [List.getLast?_cons, hlast]
    rfl

theorem Scanner.scanAll_tiled (text : String) :
    Tiled text.toList 0 (Scanner.ofText text).scanAll.1 := by
  obtain ⟨n, hn, htiled⟩ :=
    Scanner.tokens_tiled (fun _ => false) (s := Scanner.ofText text) (Nat.zero_le _)
  have hall : (Scanner.ofText text).scanAll = _ := (Scanner.scanAllWithin_tiled hn htiled).1
  rw [hall]
  exact htiled

/-- **The line breaks that tokens tell of are those between lines.** Of any two tokens next to each
other up to the end of the text, the first one behind offset zero, the later one says that a line
ends before it just if its line number is greater than that of the end of the earlier one; and so it
is for any number of tokens when some of them are read again. -/
theorem breaks_are_lines (text : String) :
    (Scanner.ofText text).token.span.stop = 0 ∧
    (∃ t ∈ (Scanner.ofText text).scanAll.1.getLast?, t.kind = .endOfFile) ∧
    ((Scanner.ofText text).token :: (Scanner.ofText text).scanAll.1).IsChain
      (BreakBetween (.ofText text)) ∧
    ∀ n again, ((Scanner.ofText text).token :: (Scanner.ofText text).tokens n again).IsChain
      (BreakBetween (.ofText text)) :=
  ⟨rfl, (Scanner.scanAll_tiled text).getLast?, Scanner.scanAllWithin_breaks rfl _,
    Scanner.tokens_breaks rfl⟩

end Script
end Countersign
