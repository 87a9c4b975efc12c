/-
# Tokens tile the text

Scanning a text from its start comes to the end of the text after finitely many tokens. They stand
one after the other, each takes at least one character, and between two of them there is nothing
but blanks and comments. It makes no difference to this whether tokens that begin with a slash are
read again as regular expressions.

Key definitions: `Gap`, `Tiled`, `Scanner.advance`, `Scanner.tokens`.
Key theorems: `skipTrivia_passes`, `Scanner.advance_tiles`, `Scanner.tokens_tiled`, `tokens_tile`.
-/
import Countersign.Proofs.Script.Extents

namespace Countersign
namespace Script

/-! ### Between two tokens -/

/-- What may stand between two tokens, where `rest` follows: blanks, comments up to the end of a
line, and block comments. A block comment that is never closed runs to the end of the text. -/
inductive Gap (rest : List Char) : List Char → Prop
  | nil : Gap rest []
  | blank {c : Char} {gap : List Char} :
      (Text.isLineBreak c || Text.isInlineBlank c) = true → Gap rest gap → Gap rest (c :: gap)
  | line {body gap : List Char} :
      (∀ c ∈ body, Text.isLineBreak c = false) →
      (∀ c ∈ (gap ++ rest).head?, Text.isLineBreak c = true) → Gap rest gap →
      Gap rest ('/' :: '/' :: (body ++ gap))
  | block {body gap : List Char} :
      ¬ ['*', '/'] <:+: body → Gap rest gap → Gap rest ('/' :: '*' :: (body ++ '*' :: '/' :: gap))
  | unclosed {body : List Char} :
      ¬ ['*', '/'] <:+: body → rest = [] → Gap rest ('/' :: '*' :: body)

/-- What may be passed where skipping is inside of `t`, and `rest` follows. -/
def Trivia.Passes (rest : List Char) : Trivia → List Char → Prop
  | .blank, passed => Gap rest passed
  | .line, passed => ∃ body gap, passed = body ++ gap ∧ (∀ c ∈ body, Text.isLineBreak c = false) ∧
      (∀ c ∈ (gap ++ rest).head?, Text.isLineBreak c = true) ∧ Gap rest gap
  | .block _ _, passed => (¬ ['*', '/'] <:+: passed ∧ rest = []) ∨
      ∃ body gap, passed = body ++ '*' :: '/' :: gap ∧ ¬ ['*', '/'] <:+: body ∧ Gap rest gap

section Passes

variable {rest passed : List Char} {c : Char}

theorem Trivia.Passes.openLine (h : Trivia.line.Passes rest passed) :
    Gap rest ('/' :: '/' :: passed) := by
  obtain ⟨body, gap, rfl, hbody, hends, hgap⟩ := h
  exact .line hbody hends hgap

theorem Trivia.Passes.openBlock {opened : Nat} {reversed : List Char}
    (h : (Trivia.block opened reversed).Passes rest passed) : Gap rest ('/' :: '*' :: passed) := by
  rcases h with ⟨hbody, hrest⟩ | ⟨body, gap, rfl, hbody, hgap⟩
  · exact .unclosed hbody hrest
  · exact .block hbody hgap

/-- One more character of a comment to the end of the line, perhaps its last. -/
theorem Trivia.Passes.consLine
    (h : (if Text.isLineBreak c then Trivia.blank else .line).Passes rest passed) :
    Trivia.line.Passes rest (c :: passed) := by
  split at h
  · rename_i hbreak
    refine ⟨[], c :: passed, rfl, by simp, ?_, .blank (by rw [hbreak, Bool.true_or]) h⟩
    simpa using hbreak
  · rename_i hbreak
    obtain ⟨body, gap, rfl, hbody, hends, hgap⟩ := h
    refine ⟨c :: body, gap, rfl, fun d hd => ?_, hends, hgap⟩
    rcases List.mem_cons.mp hd with rfl | hd
    · exact eq_false_of_ne_true hbreak
    · exact hbody d hd

/-- What does not close a comment adds no closing mark to its body. -/
theorem not_infix_cons {body : List Char} (hbody : ¬ ['*', '/'] <:+: body)
    (hopen : ∀ tail, c = '*' → body = '/' :: tail → False) : ¬ ['*', '/'] <:+: c :: body := by
  intro hinfix
  rcases List.infix_cons_iff.mp hinfix with hprefix | hinfix
  · obtain ⟨tail, htail⟩ := hprefix
    cases htail
    exact hopen tail rfl rfl
  · exact hbody hinfix

theorem Trivia.Passes.consBlock {opened opened' : Nat} {reversed reversed' : List Char}
    (h : (Trivia.block opened reversed).Passes rest passed)
    (hopen : ∀ tail, c = '*' → passed ++ rest = '/' :: tail → False) :
    (Trivia.block opened' reversed').Passes rest (c :: passed) := by
  rcases h with ⟨hbody, hrest⟩ | ⟨body, gap, rfl, hbody, hgap⟩
  · refine .inl ⟨not_infix_cons hbody fun tail hc hpassed => hopen tail hc ?_, hrest⟩
    rw [hpassed, hrest, List.append_nil]
  · refine .inr ⟨c :: body, gap, rfl, not_infix_cons hbody fun tail hc htail => ?_, hgap⟩
    exact hopen _ hc (by rw [htail, List.append_assoc, List.cons_append])

end Passes

/-- **Skipping passes a gap.** What is skipped is a stretch of text between two tokens, and the
offset moves on by its length. -/
theorem skipTrivia_passes (t : Trivia) (pos : Nat) (text : List Char) :
    ∃ passed, text = passed ++ (skipTrivia t pos text).rest ∧
      (skipTrivia t pos text).pos = pos + passed.length ∧
      t.Passes (skipTrivia t pos text).rest passed := by
  fun_induction skipTrivia t pos text with
  | case1 opened reversed pos => exact ⟨[], rfl, rfl, .inl ⟨by simp, rfl⟩⟩
  | case2 t pos hblock =>
    refine ⟨[], rfl, rfl, ?_⟩
    cases t with
    | blank => exact .nil
    | line => exact ⟨[], [], rfl, by simp, by simp [Skipped.stop], .nil⟩
    | block opened reversed => exact (hblock opened reversed rfl).elim
  | case3 pos rest ih =>
    obtain ⟨passed, htext, hpos, hpasses⟩ := ih
    exact ⟨'/' :: '/' :: passed, by simp [← htext], by simp [hpos]; omega, hpasses.openLine⟩
  | case4 pos rest ih =>
    obtain ⟨passed, htext, hpos, hpasses⟩ := ih
    exact ⟨'/' :: '*' :: passed, by simp [← htext], by simp [hpos]; omega, hpasses.openBlock⟩
  | case5 pos c rest _ _ hblank ih =>
    obtain ⟨passed, htext, hpos, hpasses⟩ := ih
    refine ⟨c :: passed, ?_, ?_, .blank hblank hpasses⟩
    · exact congrArg (c :: ·) htext
    · show (skipTrivia .blank (pos + 1) rest).pos = _
      rw [hpos, List.length_cons]
      omega
  | case6 pos c rest _ _ _ => exact ⟨[], rfl, rfl, .nil⟩
  | case7 pos c rest ih =>
    obtain ⟨passed, htext, hpos, hpasses⟩ := ih
    refine ⟨c :: passed, ?_, ?_, hpasses.consLine⟩
    · exact congrArg (c :: ·) htext
    · show (skipTrivia _ (pos + 1) rest).pos = _
      rw [hpos, List.length_cons]
      omega
  | case8 opened reversed pos rest ih =>
    obtain ⟨passed, htext, hpos, hpasses⟩ := ih
    refine ⟨'*' :: '/' :: passed, ?_, ?_, .inr ⟨[], passed, rfl, by simp, hpasses⟩⟩
    · exact congrArg ('*' :: '/' :: ·) htext
    · show (skipTrivia .blank (pos + 2) rest).pos = _
      rw [hpos, List.length_cons, List.length_cons]
      omega
  | case9 opened reversed pos c rest hopen ih =>
    obtain ⟨passed, htext, hpos, hpasses⟩ := ih
    refine ⟨c :: passed, ?_, ?_, hpasses.consBlock fun tail hc htail => ?_⟩
    · exact congrArg (c :: ·) htext
    · show (skipTrivia _ (pos + 1) rest).pos = _
      rw [hpos, List.length_cons]
      omega
    · exact hopen tail hc (htext.trans htail)

/-- The token starts at the offset or after it, and only a gap is between. -/
def Apart (text : List Char) (start : Nat) (t : Token) : Prop :=
  start ≤ t.span.pos ∧
    Gap (text.drop t.span.pos) ((text.drop start).take (t.span.pos - start))

theorem scanAt_apart (text : List Char) (pos : Nat) : Apart text pos (scanAt text pos).token := by
  obtain ⟨passed, htext, hpos, hgap⟩ := skipTrivia_passes .blank pos (text.drop pos)
  have hstart : (scanAt text pos).token.span.pos = pos + passed.length := hpos
  refine ⟨by omega, ?_⟩
  rw [← scanAt_rest, hstart, Nat.add_sub_cancel_left]
  generalize (skipTrivia .blank pos (text.drop pos)).rest = rest at htext hgap ⊢
  rw [htext, List.take_left]
  exact hgap

/-! ### The end of the text -/

theorem lexToken_end {text : List Char} (h : (lexToken text).kind = .endOfFile) : text = [] := by
  cases text with
  | nil => rfl
  | cons c text =>
    simp only [lexToken] at h
    split at h
    · cases h
    · split at h
      · rw [lexNumber_kind] at h
        cases h
      · split at h
        · dsimp only [lexName] at h
          cases hword : Word.ofText? (String.ofList (c :: text.takeWhile Text.isIdentPart)) <;>
            rw [hword] at h <;> cases h
        · unfold lexMark at h
          split at h <;> cases h

/-- The token that is the end of the text stands at its end. -/
theorem scanAt_end {text : List Char} {pos : Nat} (hpos : pos ≤ text.length)
    (h : (scanAt text pos).token.kind = .endOfFile) :
    (scanAt text pos).token.span = ⟨text.length, text.length⟩ := by
  have hrest := lexToken_end (scanAt_kind text pos ▸ h)
  have hlength := scanAt_stop text pos
  have hstop := scanAt_stop_le hpos
  rw [hrest] at hlength
  rw [List.drop_eq_nil_iff] at hrest
  have hzero : (lexToken []).length = 0 := rfl
  generalize (scanAt text pos).token.span = span at *
  obtain ⟨start, stop⟩ := span
  dsimp only at *
  rw [Span.mk.injEq]
  omega

/-! ### Tokens one after the other -/

/-- The tokens tile a text from an offset on: each is apart from the one before it, takes at least
a character and ends within the text; the last of them, and no other, is the end of the text. -/
inductive Tiled (text : List Char) : Nat → List Token → Prop
  | last {start : Nat} {t : Token} : Apart text start t → t.kind = .endOfFile →
      t.span = ⟨text.length, text.length⟩ → Tiled text start [t]
  | token {start : Nat} {t : Token} {ts : List Token} : Apart text start t →
      t.kind ≠ .endOfFile → t.span.pos < t.span.stop → t.span.stop ≤ text.length →
      Tiled text t.span.stop ts → Tiled text start (t :: ts)

/-- Whether the token may begin a regular expression. -/
def TokenKind.isSlash (k : TokenKind) : Bool := k == .mark .slash || k == .mark .slashAssign

namespace Scanner

/-- Goes on to the next token, which is read again as a regular expression if it begins with a
slash and that is asked for. -/
def advance (again : Bool) (s : Scanner) : Scanner :=
  if again && s.scan.token.kind.isSlash then s.scan.rescanSlash else s.scan

/-- The next `n` tokens, where `again` says for each of them whether to read it again. -/
def tokens : Nat → (Nat → Bool) → Scanner → List Token
  | 0, _, _ => []
  | n + 1, again, s =>
    let next := s.advance (again 0)
    next.token :: tokens n (fun k => again (k + 1)) next

variable {s : Scanner}

theorem advance_text (again : Bool) : (s.advance again).text = s.text := by
  unfold advance
  split
  · rw [rescanSlash_text, scan_text]
  · exact scan_text s

/-- **One step of scanning.** From a token that ends within the text, the next token is apart from
it, and is the end of the text, at its end, or takes characters of it. -/
theorem advance_tiles (again : Bool) (hstop : s.token.span.stop ≤ s.text.length) :
    Apart s.text s.token.span.stop (s.advance again).token ∧
      ((s.advance again).token.kind = .endOfFile →
        (s.advance again).token.span = ⟨s.text.length, s.text.length⟩) ∧
      ((s.advance again).token.kind ≠ .endOfFile →
        (s.advance again).token.span.pos < (s.advance again).token.span.stop) ∧
      (s.advance again).token.span.stop ≤ s.text.length := by
  have hapart := scanAt_apart s.text s.token.span.stop
  unfold advance
  split
  · rename_i hagain
    rw [rescanSlash_token, scan_token, scan_text]
    have hslash : (scanAt s.text s.token.span.stop).token.kind ≠ .endOfFile := by
      intro hend
      rw [scan_token, hend] at hagain
      simp [TokenKind.isSlash] at hagain
    have hlt := scanAt_solid _ _ hslash
    -- A regular expression starts where its slash did, so the gap before it is the same.
    refine ⟨hapart, fun hkind => ?_, rescanRegex_solid _ _, ?_⟩
    · cases hkind
    · exact rescanRegex_stop_le (hlt.trans_le (scanAt_stop_le hstop))
  · rw [scan_token]
    exact ⟨hapart, scanAt_end hstop, scanAt_solid _ _, scanAt_stop_le hstop⟩

/-- **All steps of scanning.** From a token that ends within the text on, the tokens tile the text;
there are at most as many as characters, and the end. -/
theorem tokens_tiled (again : Nat → Bool) (hstop : s.token.span.stop ≤ s.text.length) :
    ∃ n ≤ s.text.length - s.token.span.stop + 1,
      Tiled s.text s.token.span.stop (s.tokens n again) := by
  -- By induction on how many characters are left after the current token.
  induction hleft : s.text.length - s.token.span.stop using Nat.strong_induction_on
    generalizing s again with
  | _ left ih =>
    obtain ⟨hapart, hend, hsolid, hstop'⟩ := advance_tiles (again 0) hstop
    by_cases hkind : (s.advance (again 0)).token.kind = .endOfFile
    · exact ⟨1, by omega, .last hapart hkind (hend hkind)⟩
    · have hlt := hsolid hkind
      have hle := hapart.1
      have htext : (s.advance (again 0)).text = s.text := advance_text _
      obtain ⟨n, hn, htiled⟩ := ih _ (by rw [htext]; omega) (fun k => again (k + 1))
        (by rwa [htext]) rfl
      rw [htext] at hn htiled
      exact ⟨n + 1, by omega, .token hapart hkind hlt hstop' htiled⟩

/-- Where nothing is read again, a step of scanning is `scan`. -/
theorem advance_false : s.advance false = s.scan := by
  rw [advance, Bool.false_and, if_neg Bool.false_ne_true]

/-- Scanning to the end gives the tokens that tile the text, if the bound is large enough, and
comes to the end of the text. -/
theorem scanAllWithin_tiled {n limit : Nat} (hlimit : n ≤ limit)
    (htiled : Tiled s.text s.token.span.stop (s.tokens n fun _ => false)) :
    scanAllWithin limit s = (s.tokens n fun _ => false, scan^[n] s) ∧
      (scan^[n] s).token.span.stop = s.text.length := by
  induction n generalizing s limit with
  | zero => cases htiled
  | succ n ih =>
    obtain ⟨limit, rfl⟩ : ∃ k, limit = k + 1 := ⟨limit - 1, by omega⟩
    have htokens : s.tokens (n + 1) (fun _ => false) =
        s.scan.token :: s.scan.tokens n fun _ => false := by rw [tokens, advance_false]
    rw [htokens] at htiled ⊢
    rw [scanAllWithin, Function.iterate_succ_apply]
    generalize hrest : s.scan.tokens n (fun _ => false) = rest at htiled ⊢
    cases htiled with
    | last _ hkind hspan =>
      have hn : n = 0 := by
        cases n with
        | zero => rfl
        | succ n => cases hrest
      subst hn
      rw [if_pos hkind, Function.iterate_zero_apply, hspan]
      exact ⟨rfl, rfl⟩
    | token _ hkind _ _ htiled =>
      rw [← scan_text s, ← hrest] at htiled
      obtain ⟨hall, hstop⟩ := ih (Nat.le_of_succ_le_succ hlimit) htiled
      rw [if_neg hkind, hall, hstop, scan_text, hrest]
      exact ⟨rfl, rfl⟩

end Scanner

/-- **Tokens tile the text.** Whatever is read again, scanning from the start of a text comes to its
end after finitely many tokens. Every earlier token takes at least a character of the text, starts
where the one before it ends or later, and between the two there are only blanks and comments; the
last token starts and ends at the end of the text. Where nothing is read again, these are the tokens
that scanning to the end gives. -/
theorem tokens_tile (text : String) (again : Nat → Bool) :
    ∃ n ≤ text.length + 1, Tiled text.toList 0 ((Scanner.ofText text).tokens n again) ∧
      ((∀ k, again k = false) →
        (Scanner.ofText text).scanAll.1 = (Scanner.ofText text).tokens n again) := by
  obtain ⟨n, hn, htiled⟩ :=
    Scanner.tokens_tiled again (s := Scanner.ofText text) (Nat.zero_le _)
  have hlength : (Scanner.ofText text).text.length = text.length := String.length_toList
  rw [hlength] at hn
  refine ⟨n, hn, htiled, fun hagain => ?_⟩
  obtain rfl : again = fun _ => false := funext hagain
  have hall : (Scanner.ofText text).scanAll = _ :=
    (Scanner.scanAllWithin_tiled (by rwa [hlength]) htiled).1
  rw [hall]

end Script
end Countersign
