/-
# Between the tokens of a signature

What is skipped before a token is a gap: blanks, line comments and block comments that are closed.
Where skipping stops there is nothing more to skip, and it does not matter where the text stands. A
line comment that ends a gap is one before any line feed; other gaps are gaps before any text.

Key definitions: `Gap`, `Trivia.Passes`.
Key theorems: `skipTrivia_passes`, `Gap.skipped`, `Gap.before`, `Gap.ends`.
-/
import Countersign.Proofs.Signature.Spelling
import Mathlib.Data.String.Basic

namespace Countersign
namespace Signature

open Text

/-! ### Single steps -/

theorem skipTrivia_of_isBlank {c : Char} (hb : isBlank c = true) (pos : Nat) (text : List Char) :
    skipTrivia .blank pos (c :: text) = skipTrivia .blank (pos + c.utf8Size) text := by
  have hslash : c ≠ '/' := by
    rintro rfl
    cases hb
  rw [skipTrivia.eq_def]
  split <;> simp_all

theorem skipTrivia_of_not_comment {c : Char} {text : List Char} (hb : isBlank c = false)
    (hline : ∀ more, c = '/' → text = '/' :: more → False)
    (hblock : ∀ more, c = '/' → text = '*' :: more → False) (pos : Nat) :
    skipTrivia .blank pos (c :: text) = .ok (pos, c :: text) := by
  rw [skipTrivia.eq_def]
  split <;> simp_all

theorem skipTrivia_in_block {c : Char} {text : List Char}
    (hclose : ∀ more, c = '*' → text = '/' :: more → False) (opened pos : Nat) :
    skipTrivia (.block opened) pos (c :: text) =
      skipTrivia (.block opened) (pos + c.utf8Size) text := by
  rw [skipTrivia.eq_def]
  split <;> simp_all

/-! ### Gaps -/

/-- What may stand between two tokens, where `rest` follows: blanks, comments up to the end of a
line, and block comments that are closed. -/
inductive Gap (rest : List Char) : List Char → Prop
  | nil : Gap rest []
  | blank {c : Char} {gap : List Char} : isBlank c = true → Gap rest gap → Gap rest (c :: gap)
  | line {body gap : List Char} : '\n' ∉ body → (∀ c ∈ (gap ++ rest).head?, c = '\n') →
      Gap rest gap → Gap rest ('/' :: '/' :: (body ++ gap))
  | block {body gap : List Char} : ¬ ['*', '/'] <:+: body → Gap rest gap →
      Gap rest ('/' :: '*' :: (body ++ '*' :: '/' :: gap))

section Skipping

variable {pos start : Nat} {text rest gap : List Char}

/-- A line comment is skipped up to the end of its line. -/
theorem skipTrivia_line_body {body : List Char} (hbody : '\n' ∉ body)
    (hend : ∀ c ∈ rest.head?, c = '\n') (pos : Nat) :
    skipTrivia .line pos (body ++ rest) =
      skipTrivia .blank (pos + String.utf8Len body) rest := by
  induction body generalizing pos with
  | nil =>
    cases rest with
    | nil => rfl
    | cons c rest =>
      obtain rfl : c = '\n' := hend c rfl
      exact (skipTrivia_of_isBlank (c := '\n') (by decide) pos rest).symm
  | cons c body ih =>
    obtain ⟨hc, hbody⟩ := not_or.mp fun h => hbody (List.mem_cons.mpr h)
    have hstay : (if c == '\n' then Trivia.blank else .line) = .line :=
      if_neg (by simpa using fun h => hc h.symm)
    show skipTrivia (if c == '\n' then .blank else .line) (pos + c.utf8Size) (body ++ rest) = _
    rw [hstay, ih hbody, String.utf8Len_cons, Nat.add_assoc, Nat.add_comm c.utf8Size]

/-- A closing mark does not run into one that stands behind. -/
theorem not_prefix_close {c : Char} {body : List Char} (h : ¬ ['*', '/'] <+: c :: body)
    (rest : List Char) : ¬ ['*', '/'] <+: c :: (body ++ '*' :: '/' :: rest) := by
  rintro ⟨tail, htail⟩
  injection htail with hc htail
  cases body with
  | nil => cases (List.cons.inj htail).1
  | cons d body =>
    injection htail with hd _
    exact h ⟨body, by rw [← hc, ← hd]; rfl⟩

/-- A block comment is skipped up to its first closing mark. -/
theorem skipTrivia_block_body {body : List Char} (hbody : ¬ ['*', '/'] <:+: body)
    (opened pos : Nat) (rest : List Char) :
    skipTrivia (.block opened) pos (body ++ '*' :: '/' :: rest) =
      skipTrivia .blank (pos + String.utf8Len body + 2) rest := by
  induction body generalizing pos with
  | nil => rfl
  | cons c body ih =>
    obtain ⟨hstarts, hbody⟩ := not_or.mp fun h => hbody (List.infix_cons_iff.mpr h)
    have hopen : ∀ more, c = '*' → body ++ '*' :: '/' :: rest = '/' :: more → False :=
      fun more hc h => not_prefix_close hstarts rest ⟨more, by rw [hc, h]; rfl⟩
    rw [List.cons_append, skipTrivia_in_block hopen, ih hbody, String.utf8Len_cons]
    congr 1
    omega

/-- A block comment that is never closed is not skipped. -/
theorem skipTrivia_block_open {body : List Char} (hbody : ¬ ['*', '/'] <:+: body)
    (opened pos : Nat) : skipTrivia (.block opened) pos body =
      .error ⟨opened, .closingComment, .endOfInput⟩ := by
  induction body generalizing pos with
  | nil => rfl
  | cons c body ih =>
    obtain ⟨hstarts, hbody⟩ := not_or.mp fun h => hbody (List.infix_cons_iff.mpr h)
    rw [skipTrivia_in_block fun more hc h => hstarts ⟨more, by rw [hc, h]; rfl⟩, ih hbody]

/-- Where a closing mark stands in a text, there is a first one. -/
theorem exists_first_close {text : List Char} (h : ['*', '/'] <:+: text) :
    ∃ body rest, text = body ++ '*' :: '/' :: rest ∧ ¬ ['*', '/'] <:+: body := by
  induction text with
  | nil => simp at h
  | cons c text ih =>
    by_cases hstarts : ['*', '/'] <+: c :: text
    · obtain ⟨rest, hrest⟩ := hstarts
      exact ⟨[], rest, hrest.symm, by simp⟩
    · obtain ⟨body, rest, rfl, hbody⟩ := ih ((List.infix_cons_iff.mp h).resolve_left hstarts)
      refine ⟨c :: body, rest, rfl, fun hinside => ?_⟩
      rcases List.infix_cons_iff.mp hinside with hfirst | hinside
      · exact hstarts (hfirst.trans ((List.prefix_cons_inj c).mpr (List.prefix_append _ _)))
      · exact hbody hinside

/-- **A gap is skipped.** -/
theorem Gap.skipped (h : Gap rest gap) (pos : Nat) :
    skipTrivia .blank pos (gap ++ rest) =
      skipTrivia .blank (pos + String.utf8Len gap) rest := by
  induction h generalizing pos with
  | nil => rfl
  | @blank c gap hc _ ih =>
    rw [List.cons_append, skipTrivia_of_isBlank hc, ih, String.utf8Len_cons]
    congr 1
    omega
  | @line body gap hbody hend _ ih =>
    show skipTrivia .line (pos + 2) (body ++ gap ++ rest) = _
    rw [List.append_assoc, skipTrivia_line_body hbody hend, ih]
    simp only [String.utf8Len_cons, String.utf8Len_append, show '/'.utf8Size = 1 from rfl]
    congr 1
    omega
  | @block body gap hbody _ ih =>
    show skipTrivia (.block pos) (pos + 2) (body ++ '*' :: '/' :: gap ++ rest) = _
    rw [List.append_assoc, List.cons_append, List.cons_append, skipTrivia_block_body hbody, ih]
    simp only [String.utf8Len_cons, String.utf8Len_append, show '/'.utf8Size = 1 from rfl,
      show '*'.utf8Size = 1 from rfl]
    congr 1
    omega

/-- What may be passed where skipping is inside of `t`, and `rest` follows. -/
def Trivia.Passes (rest : List Char) : Trivia → List Char → Prop
  | .blank, passed => Gap rest passed
  | .line, passed => ∃ body gap, passed = body ++ gap ∧ '\n' ∉ body ∧
      (∀ c ∈ (gap ++ rest).head?, c = '\n') ∧ Gap rest gap
  | .block _, passed => ∃ body gap, passed = body ++ '*' :: '/' :: gap ∧
      ¬ ['*', '/'] <:+: body ∧ Gap rest gap

/-- **Skipping passes a gap.** -/
theorem skipTrivia_passes {t : Trivia} (h : skipTrivia t pos text = .ok (start, rest)) :
    ∃ passed, text = passed ++ rest ∧ start = pos + String.utf8Len passed ∧
      t.Passes rest passed := by
  fun_induction skipTrivia t pos text with
  | case1 => cases h
  | case2 t pos hblock =>
    cases h
    refine ⟨[], rfl, rfl, ?_⟩
    cases t with
    | blank => exact .nil
    | line => exact ⟨[], [], rfl, by simp, by simp, .nil⟩
    | block opened => exact absurd rfl (hblock opened)
  | case3 pos text ih =>
    obtain ⟨passed, rfl, rfl, body, gap, rfl, hbody, hend, hgap⟩ := ih h
    exact ⟨'/' :: '/' :: (body ++ gap), rfl, by simp [Char.utf8Size]; omega, .line hbody hend hgap⟩
  | case4 pos text ih =>
    obtain ⟨passed, rfl, rfl, body, gap, rfl, hbody, hgap⟩ := ih h
    exact ⟨'/' :: '*' :: (body ++ '*' :: '/' :: gap), rfl, by simp [Char.utf8Size]; omega,
      .block hbody hgap⟩
  | case5 pos c text _ _ hc ih =>
    obtain ⟨passed, rfl, rfl, hgap⟩ := ih h
    exact ⟨c :: passed, rfl, by simp; omega, .blank hc hgap⟩
  | case6 pos c text _ _ _ =>
    cases h
    exact ⟨[], rfl, rfl, .nil⟩
  | case7 pos c text ih =>
    obtain ⟨passed, rfl, rfl, hpasses⟩ := ih h
    refine ⟨c :: passed, rfl, by simp; omega, ?_⟩
    split at hpasses
    · rename_i hline
      obtain rfl : c = '\n' := beq_iff_eq.mp hline
      exact ⟨[], '\n' :: passed, rfl, List.not_mem_nil, by simp, .blank (by decide) hpasses⟩
    · rename_i hline
      obtain ⟨body, gap, rfl, hbody, hend, hgap⟩ := hpasses
      refine ⟨c :: body, gap, rfl, fun hmem => ?_, hend, hgap⟩
      rcases List.mem_cons.mp hmem with rfl | hmem
      · exact hline rfl
      · exact hbody hmem
  | case8 opened pos text ih =>
    obtain ⟨passed, rfl, rfl, hgap⟩ := ih h
    exact ⟨'*' :: '/' :: passed, rfl, by simp [Char.utf8Size]; omega, [], passed, rfl, by simp, hgap⟩
  | case9 opened pos c text hopen ih =>
    obtain ⟨passed, rfl, rfl, body, gap, rfl, hbody, hgap⟩ := ih h
    refine ⟨c :: (body ++ '*' :: '/' :: gap), rfl, by simp; omega, c :: body, gap, rfl, ?_, hgap⟩
    intro hinside
    rcases List.infix_cons_iff.mp hinside with ⟨tail, htail⟩ | hinside
    · obtain ⟨rfl, rfl⟩ := List.cons.inj htail
      exact hopen _ rfl rfl
    · exact hbody hinside

/-- Where skipping stops there is nothing more to skip. -/
theorem skipTrivia_stopped {t : Trivia} (h : skipTrivia t pos text = .ok (start, rest))
    (pos' : Nat) : skipTrivia .blank pos' rest = .ok (pos', rest) := by
  fun_induction skipTrivia t pos text with
  | case1 => cases h
  | case2 =>
    cases h
    rfl
  | case3 pos text ih => exact ih h
  | case4 pos text ih => exact ih h
  | case5 pos c text _ _ _ ih => exact ih h
  | case6 pos c text hline hblock hb =>
    cases h
    exact skipTrivia_of_not_comment (by simpa using hb) (fun more hc ht => hline more hc ht)
      (fun more hc ht => hblock more hc ht) pos'
  | case7 pos c text ih => exact ih h
  | case8 opened pos text ih => exact ih h
  | case9 opened pos c text _ ih => exact ih h

/-- What is skipped does not depend on where it stands. -/
theorem skipTrivia_moved (k : Nat) (h : skipTrivia .blank pos text = .ok (start, rest)) :
    skipTrivia .blank (pos + k) text = .ok (start + k, rest) := by
  obtain ⟨gap, rfl, rfl, hgap⟩ := skipTrivia_passes h
  have hgap : Gap rest gap := hgap
  rw [hgap.skipped, Nat.add_right_comm]
  exact skipTrivia_stopped h _

/-- Gaps that follow one another are a gap. -/
theorem Gap.append {more : List Char} (h : Gap (more ++ rest) gap) (hmore : Gap rest more) :
    Gap rest (gap ++ more) := by
  induction h with
  | nil => exact hmore
  | blank hc _ ih => exact .blank hc ih
  | @line body gap hbody hend _ ih =>
    show Gap rest ('/' :: '/' :: (body ++ gap ++ more))
    rw [List.append_assoc]
    exact .line hbody (by rwa [List.append_assoc]) ih
  | @block body gap hbody _ ih =>
    show Gap rest ('/' :: '*' :: (body ++ '*' :: '/' :: gap ++ more))
    rw [List.append_assoc]
    exact .block hbody ih

/-- A gap is one before another text, too, if that begins with a line feed wherever the first does. -/
theorem Gap.before {rest' : List Char} (h : Gap rest gap)
    (hrest : (∀ c ∈ rest.head?, c = '\n') → ∀ c ∈ rest'.head?, c = '\n') : Gap rest' gap := by
  induction h with
  | nil => exact .nil
  | blank hc _ ih => exact .blank hc ih
  | @line body gap hbody hend _ ih =>
    refine .line hbody ?_ ih
    cases gap with
    | nil => exact hrest hend
    | cons d gap => exact hend
  | block hbody _ ih => exact .block hbody ih

/-- At the end of a text a gap is one before any text, or it ends within a line comment. -/
theorem Gap.ends (h : Gap [] gap) : (∀ rest, Gap rest gap) ∨
    ∃ before body, gap = before ++ '/' :: '/' :: body ∧ '\n' ∉ body ∧ ∀ rest, Gap rest before := by
  induction h with
  | nil => exact .inl fun rest => .nil
  | @blank c gap hc _ ih =>
    rcases ih with hgap | ⟨before, body, rfl, hbody, hbefore⟩
    · exact .inl fun rest => .blank hc (hgap rest)
    · exact .inr ⟨c :: before, body, rfl, hbody, fun rest => .blank hc (hbefore rest)⟩
  | @line body gap hbody hend hgap ih =>
    cases gap with
    | nil => exact .inr ⟨[], body, by simp, hbody, fun rest => .nil⟩
    | cons c gap =>
      rcases ih with hany | ⟨before, body', hsplit, hbody', hbefore⟩
      · exact .inl fun rest => .line hbody hend (hany rest)
      · refine .inr ⟨'/' :: '/' :: (body ++ before), body', ?_, hbody', fun rest => ?_⟩
        · rw [hsplit]
          simp
        · -- The line ends in the first character of what comes before the last comment.
          cases before with
          | nil =>
            obtain rfl : c = '/' := (List.cons.inj hsplit).1
            exact absurd (hend '/' rfl) (by decide)
          | cons d before =>
            obtain ⟨rfl, -⟩ := List.cons.inj hsplit
            exact .line hbody hend (hbefore rest)
  | @block body gap hbody _ ih =>
    rcases ih with hgap | ⟨before, body', rfl, hbody', hbefore⟩
    · exact .inl fun rest => .block hbody (hgap rest)
    · refine .inr ⟨'/' :: '*' :: (body ++ '*' :: '/' :: before), body', by simp, hbody',
        fun rest => .block hbody (hbefore rest)⟩

end Skipping

end Signature
end Countersign
