/-
# Where tokens stand

The tokens of a text without the bound on their number: what is skipped, the token behind it, and
the tokens of what is left (`Splits`). Each token is written where it starts. A text moved to another
offset has its tokens moved with it, and a line feed behind a text ends its last token and comment,
so that what follows is split on its own.

Key definitions: `Splits`, `Lexeme.moved`.
Key theorems: `front_of_token`, `lexemesFrom_iff`, `Splits.stands`, `Splits.moved`, `Splits.line`.
-/
import Countersign.Proofs.Signature.Apart
import Countersign.Proofs.Signature.Gaps

namespace Countersign
namespace Signature

open Text

/-! ### Tokens before a line feed -/

/-- A line feed behind a text does not change the token in front. -/
theorem scanToken_line {pos : Nat} {c : Char} {text rest : List Char} {t : Token}
    (h : scanToken pos c text = .ok (t, rest)) (more : List Char) :
    scanToken pos c (text ++ '\n' :: more) = .ok (t, rest ++ '\n' :: more) := by
  have hfeed : SetsApart '\n' := .inl (by decide)
  have htext := (scanToken_cases h).1
  rw [← List.append_nil rest] at h
  obtain ⟨cs, hcs, hscan⟩ := scanToken_apart h hfeed more pos
  rw [hcs] at htext
  have htail : text = cs ++ rest := (List.cons.inj htext).2
  rw [htail, List.append_assoc]
  exact hscan

/-- The token in front of a text is the same wherever the text stands. -/
theorem scanToken_anywhere {pos : Nat} {c : Char} {text rest : List Char} {t : Token}
    (h : scanToken pos c text = .ok (t, rest)) (pos' : Nat) :
    scanToken pos' c text = .ok (t, rest) := by
  unfold scanToken at h ⊢
  split at h
  · exact h
  · split at h
    · rename_i hopens
      rw [if_pos hopens]
      split at h
      · exact h
      · cases h
    · rename_i hopens
      rw [if_neg hopens]
      split at h
      · rename_i hstart
        rw [if_pos hstart]
        exact h
      · cases h

/-! ### Splitting without a bound -/

/-- The text, which starts at offset `pos`, has these tokens. -/
inductive Splits : Nat → List Char → List Lexeme → Prop
  | done {pos start : Nat} {text : List Char} :
      skipTrivia .blank pos text = .ok (start, []) → Splits pos text []
  | token {pos start : Nat} {c : Char} {text behind rest : List Char} {t : Token}
      {ls : List Lexeme} : skipTrivia .blank pos text = .ok (start, c :: behind) →
      scanToken start c behind = .ok (t, rest) → Splits (Lexeme.stop ⟨t, start⟩) rest ls →
        Splits pos text (⟨t, start⟩ :: ls)

/-- A text with a token begins with a gap, which is one before any text, and the token, which begins
with no blank and with no comment. -/
theorem front_of_token {pos start : Nat} {c : Char} {text behind rest : List Char} {t : Token}
    (hskip : skipTrivia .blank pos text = .ok (start, c :: behind))
    (hscan : scanToken start c behind = .ok (t, rest)) :
    ∃ gap cs, text = gap ++ (t.text.toList ++ rest) ∧ (∀ rest', Gap rest' gap) ∧
      t.text.toList = c :: cs ∧ (isBlank c = false ∧ c ≠ '/') ∧ start = pos + String.utf8Len gap ∧
      Lexeme.stop ⟨t, start⟩ = pos + String.utf8Len (gap ++ t.text.toList) := by
  obtain ⟨gap, htext, hstart, hgap⟩ := skipTrivia_passes hskip
  have hgap : Gap (c :: behind) gap := hgap
  have hblank := not_isBlank_of_skipTrivia hskip
  obtain ⟨d, cs, hspelled, -, hslash, -⟩ := scans_of_scanToken hscan hblank
  have hfront := (scanToken_cases hscan).1
  obtain rfl : c = d := by
    rw [hspelled] at hfront
    exact (List.cons.inj hfront).1
  refine ⟨gap, cs, htext.trans (congrArg _ hfront), fun rest' => hgap.before fun hline => ?_,
    hspelled, ⟨hblank, hslash⟩, hstart, ?_⟩
  · obtain rfl : c = '\n' := hline c rfl
    exact absurd hblank (by decide)
  · rw [Lexeme.stop, utf8ByteSize_eq, String.utf8Len_append, hstart, Nat.add_assoc]

/-- Every token shortens what is left. -/
theorem length_lt_of_token {pos start : Nat} {c : Char} {text behind rest : List Char} {t : Token}
    (hskip : skipTrivia .blank pos text = .ok (start, c :: behind))
    (hscan : scanToken start c behind = .ok (t, rest)) : rest.length < text.length := by
  obtain ⟨gap, cs, rfl, -, hspelled, -⟩ := front_of_token hskip hscan
  rw [hspelled]
  simp only [List.length_append, List.length_cons]
  omega

/-- **The bound on the number of tokens does not matter** where it exceeds the text. -/
theorem lexemesFrom_iff {limit pos : Nat} {text : List Char} {ls : List Lexeme}
    (hlimit : text.length < limit) : lexemesFrom limit pos text = .ok ls ↔ Splits pos text ls := by
  induction limit generalizing pos text ls with
  | zero => exact absurd hlimit (Nat.not_lt_zero _)
  | succ limit ih =>
    rw [lexemesFrom]
    constructor
    · intro h
      obtain ⟨⟨start, behind⟩, hskip, h⟩ := ok_of_bind h
      cases behind with
      | nil =>
        cases h
        exact .done hskip
      | cons c behind =>
        obtain ⟨⟨t, rest⟩, hscan, h⟩ := ok_of_bind h
        obtain ⟨more, hmore, h⟩ := ok_of_bind h
        cases h
        have hshorter := length_lt_of_token hskip hscan
        exact .token hskip hscan ((ih (by omega)).mp hmore)
    · intro h
      cases h with
      | done hskip =>
        rw [hskip]
        rfl
      | token hskip hscan hsplits =>
        have hshorter := length_lt_of_token hskip hscan
        have hmore := (ih (by omega)).mpr hsplits
        simp only [hskip, hscan, hmore, bind, Except.bind, pure, Except.pure]

theorem tokenize_iff {text : List Char} {ls : List Lexeme} :
    tokenize text = .ok ls ↔ Splits 0 text ls :=
  lexemesFrom_iff (Nat.lt_succ_self _)

/-! ### Tokens in their text -/

/-- The token at another place. -/
def Lexeme.moved (k : Nat) (l : Lexeme) : Lexeme := ⟨l.token, l.start + k⟩

/-- The token is written in the text, which starts at offset `pos`, where it says. -/
def Lexeme.StandsIn (l : Lexeme) (pos : Nat) (text : List Char) : Prop :=
  ∃ before after, text = before ++ (l.token.text.toList ++ after) ∧
    l.start = pos + String.utf8Len before

namespace Splits

variable {pos : Nat} {text : List Char} {ls : List Lexeme}

/-- **Every token is written where it starts.** -/
theorem stands (h : Splits pos text ls) : ∀ l ∈ ls, l.StandsIn pos text := by
  induction h with
  | done => exact nofun
  | @token pos start c text behind rest t ls hskip hscan _ ih =>
    obtain ⟨gap, cs, htext, -, -, -, hstart, hstop⟩ := front_of_token hskip hscan
    intro l hl
    rcases List.mem_cons.mp hl with rfl | hl
    · exact ⟨gap, rest, htext, hstart⟩
    · obtain ⟨before, after, hrest, hl⟩ := ih l hl
      refine ⟨gap ++ t.text.toList ++ before, after, ?_, ?_⟩
      · rw [htext, hrest]
        simp only [List.append_assoc]
      · rw [hl, hstop, String.utf8Len_append _ before]
        omega

/-- **A text that is moved has its tokens moved.** -/
theorem moved (h : Splits pos text ls) (k : Nat) :
    Splits (pos + k) text (ls.map (Lexeme.moved k)) := by
  induction h with
  | done hskip => exact .done (skipTrivia_moved k hskip)
  | @token pos start c text behind rest t ls hskip hscan _ ih =>
    have hstop : Lexeme.stop ⟨t, start⟩ + k = Lexeme.stop ⟨t, start + k⟩ := Nat.add_right_comm _ _ _
    rw [hstop] at ih
    exact .token (skipTrivia_moved k hskip) (scanToken_anywhere hscan _) ih

/-- Texts that are skipped to the same place have the same tokens. -/
theorem of_skip {pos' : Nat} {text' : List Char} (h : Splits pos text ls)
    (hskip : skipTrivia .blank pos' text' = skipTrivia .blank pos text) : Splits pos' text' ls := by
  cases h with
  | done hdone => exact .done (hskip.trans hdone)
  | token htoken hscan hrest => exact .token (hskip.trans htoken) hscan hrest

/-- A gap, a token and more tokens. -/
theorem of_front {start : Nat} {c : Char} {gap behind rest : List Char} {t : Token}
    (hgap : Gap (c :: behind) gap) (hstart : start = pos + String.utf8Len gap)
    (hc : isBlank c = false ∧ c ≠ '/') (hscan : scanToken start c behind = .ok (t, rest))
    (hrest : Splits (Lexeme.stop ⟨t, start⟩) rest ls) :
    Splits pos (gap ++ c :: behind) (⟨t, start⟩ :: ls) := by
  refine .token ?_ hscan hrest
  rw [hgap.skipped pos, ← hstart, skipTrivia_of_not_isBlank hc.1 hc.2]

/-- **A line feed behind a text sets its tokens apart from those that follow.** -/
theorem line (h : Splits pos text ls) {more : List Char} {ls' : List Lexeme}
    (hmore : Splits (pos + String.utf8Len text + 1) more ls') :
    Splits pos (text ++ '\n' :: more) (ls ++ ls') := by
  induction h with
  | @done pos start text hskip =>
    obtain ⟨gap, htext, -, hgap⟩ := skipTrivia_passes hskip
    have hgap : Gap [] gap := hgap
    rw [List.append_nil] at htext
    subst htext
    have hfeed : Gap ('\n' :: more) text := hgap.before fun _ => by simp
    exact hmore.of_skip ((hfeed.skipped pos).trans (skipTrivia_of_isBlank (by decide) _ more))
  | @token pos start c text behind rest t ls hskip hscan _ ih =>
    obtain ⟨gap, cs, rfl, hgap, -, hc, hstart, hstop⟩ := front_of_token hskip hscan
    have hend : Lexeme.stop ⟨t, start⟩ + String.utf8Len rest =
        pos + String.utf8Len (gap ++ (t.text.toList ++ rest)) := by
      rw [hstop]
      simp only [String.utf8Len_append]
      omega
    rw [← hend] at hmore
    rw [← (scanToken_cases hscan).1, List.append_assoc, List.cons_append]
    exact of_front (hgap _) hstart hc (scanToken_line hscan more) (ih hmore)

end Splits

end Signature
end Countersign
