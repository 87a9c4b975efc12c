/-
# What sets tokens apart

A blank sets tokens apart, and so does what opens a comment: neither is part of a name or a number,
and none of them completes a mark. So a token stays what it is when the text changes behind the next
such character, and when the text stands elsewhere.

Key definitions: `SetsApart`.
Key theorems: `SetsApart.not_isIdentPart`, `scanToken_apart`.
-/
import Countersign.Proofs.Signature.Literals

namespace Countersign
namespace Signature

open Value Text

/-- A blank, or what opens a comment. -/
def SetsApart (c : Char) : Prop := isBlank c = true ∨ c = '/'

/-- The blanks beyond ASCII, as ranges. -/
def wideBlanks : List (ℕ × ℕ) :=
  [(0x85, 0x85), (0xA0, 0xA0), (0x1680, 0x1680), (0x2000, 0x200A), (0x2028, 0x2029),
    (0x202F, 0x202F), (0x205F, 0x205F), (0x3000, 0x3000)]

theorem wideBlanks_apart : ((letters ++ marks).all fun r =>
    wideBlanks.all fun s => Nat.blt s.2 r.1 || Nat.blt r.2 s.1) = true := by
  decide +kernel

theorem not_isIdentPart_of_isBlank {c : Char} (h : isBlank c = true) : isIdentPart c = false := by
  refine Bool.eq_false_iff.mpr fun hpart => ?_
  have hblank := h
  simp only [isBlank, Bool.or_eq_true, Bool.and_eq_true, decide_eq_true_eq, beq_iff_eq] at h
  simp only [isIdentPart, Bool.or_eq_true, Bool.and_eq_true, decide_eq_true_eq, beq_iff_eq] at hpart
  rcases hpart with ((rfl | rfl) | halpha) | ⟨hwide, htable⟩
  · exact absurd hblank (by decide)
  · exact absurd hblank (by decide)
  · rcases Bool.or_eq_true_iff.mp halpha with hletter | hdigit
    · have hrange := toNat_of_isAlpha hletter
      omega
    · rw [not_isBlank_of_isDigit hdigit] at hblank
      cases hblank
  · obtain ⟨s, hs, hin⟩ : ∃ s ∈ wideBlanks, s.1 ≤ c.toNat ∧ c.toNat ≤ s.2 := by
      simp only [wideBlanks, List.mem_cons, List.not_mem_nil, or_false, exists_eq_or_imp,
        exists_eq_left]
      omega
    obtain ⟨r, hr, hin'⟩ : ∃ r ∈ letters ++ marks, r.1 ≤ c.toNat ∧ c.toNat ≤ r.2 := by
      simpa [inRanges, List.any_eq_true, or_and_right, exists_or] using htable
    have hapart := List.all_eq_true.mp (List.all_eq_true.mp wideBlanks_apart r hr) s hs
    simp only [Bool.or_eq_true, Nat.blt_eq] at hapart
    omega

theorem SetsApart.not_isIdentPart {c : Char} (h : SetsApart c) : isIdentPart c = false := by
  rcases h with hblank | rfl
  · exact not_isIdentPart_of_isBlank hblank
  · decide

/-- What separates tokens is in no number. -/
theorem SetsApart.notMem_number {c : Char} (h : SetsApart c) {lit : List Char}
    (hlit : Literal .number lit) : c ∉ lit := by
  have hdigits : ∀ ds : List Char, (∀ d ∈ ds, d.isDigit = true) → c ∉ ds := by
    intro ds hds hc
    have hpart := isIdentPart_of_isDigit (hds c hc)
    rw [h.not_isIdentPart] at hpart
    cases hpart
  have hmarks : c ∉ ['-', '+', '.', 'e', 'E'] := by
    rintro hc
    have hnone : (['-', '+', '.', 'e', 'E'].all fun d => !(isBlank d || d == '/')) = true := by
      decide
    have hc := List.all_eq_true.mp hnone c hc
    simp only [Bool.not_eq_true', Bool.or_eq_false_iff, beq_eq_false_iff_ne] at hc
    rcases h with h | h
    · rw [hc.1] at h
      cases h
    · exact hc.2 h
  simp only [List.mem_cons, List.not_mem_nil, or_false, not_or] at hmarks
  obtain ⟨hminus, hplus, hdot, he, hE⟩ := hmarks
  cases hlit with
  | @number sign ds fraction exponent hsign _ hds hfraction hexponent =>
    simp only [List.mem_append, not_or]
    refine ⟨?_, hdigits ds hds, ?_, ?_⟩
    · rcases hsign with rfl | rfl <;> simp [hminus]
    · rcases hfraction with rfl | ⟨ds, -, hds, rfl⟩
      · exact List.not_mem_nil
      · simp [hdot, hdigits ds hds]
    · rcases hexponent with rfl | ⟨mark, sign, ds, hmark, hsign, -, hds, rfl⟩
      · exact List.not_mem_nil
      · rcases hmark with rfl | rfl <;> rcases hsign with rfl | rfl | rfl <;>
          simp [he, hE, hplus, hminus, hdigits ds hds]

section Apart

variable {sep : Char} {r q : List Char}

/-- A number stays what it is when the text changes behind a character that separates tokens. -/
theorem scan?_number_apart {v : Value} (h : scan? (v.text.toList ++ (r ++ q)) = some (v, r ++ q))
    (hkind : v.kind = .number) (hsep : SetsApart sep) (more : List Char) :
    scan? (v.text.toList ++ (r ++ sep :: more)) = some (v, r ++ sep :: more) := by
  have hnoword : ValueKind.number ∈ wordKinds → False := by decide
  have hlit : Literal .number v.text.toList := hkind ▸ (starts_of_scan? h).2.1
  have hnew : Starts .number v.text.toList (v.text.toList ++ (r ++ sep :: more)) :=
    ⟨hlit, _, rfl, fun hword => (hnoword hword).elim⟩
  obtain ⟨w, rest, hscan, hwkind, hstarts⟩ := scan?_of_starts hnew
  obtain ⟨htext, hwlit, -⟩ := starts_of_scan? hscan
  rw [hwkind] at hwlit
  -- The number that is read ends before the separator, so it stands in the old text as well.
  have hshort : w.text.toList <+: v.text.toList ++ r := by
    refine (prefix_of_fence (b := more) (hsep.notMem_number hwlit)).mp ⟨rest, ?_⟩
    rw [htext, List.append_assoc]
  obtain ⟨tail, htail⟩ := hshort
  have hold : Starts .number w.text.toList (v.text.toList ++ (r ++ q)) := by
    refine ⟨hwlit, tail ++ q, ?_, fun hword => (hnoword hword).elim⟩
    rw [← List.append_assoc, htail, List.append_assoc]
  obtain ⟨v', rest', hscan', -, hback⟩ := scan?_of_starts hold
  obtain ⟨rfl, -⟩ := Prod.mk.inj (Option.some.inj (h.symm.trans hscan'))
  have hsame : w = v := by
    have hwtext : v.text = w.text :=
      String.toList_inj.mp (hstarts.eq_of_length_le hback.length_le)
    cases v
    cases w
    exact (Value.mk.injEq _ _ _ _).mpr ⟨hwtext.symm, hwkind.trans hkind.symm⟩
  rw [hsame] at htext
  rw [hscan, hsame, List.append_cancel_left htext]

/-- A value stays what it is when the text changes behind a character that separates tokens. -/
theorem scan?_apart {c : Char} {behind : List Char} {v : Value} (hopens : opensValue c = true)
    (h : scan? (c :: behind) = some (v, r ++ q)) (hsep : SetsApart sep) (more : List Char) :
    ∃ cs, v.text.toList = c :: cs ∧
      scan? (c :: (cs ++ (r ++ sep :: more))) = some (v, r ++ sep :: more) := by
  have hkind : isQuote c = true ∨ (c = '-' ∨ c.isDigit = true) := by
    simpa [opensValue, or_assoc] using hopens
  rcases hkind with hquote | hnumber
  · rw [scan?_of_isQuote hquote] at h
    obtain ⟨cs, hcs⟩ := scanString_head h
    refine ⟨cs, hcs, ?_⟩
    rw [scan?_of_isQuote hquote, ← List.cons_append, ← hcs]
    exact scanString_respell h _
  · have hread := h
    rw [scan?_of_number hnumber] at hread
    obtain ⟨d, cs, hcs⟩ := List.exists_cons_of_ne_nil (scanNumber_ne_nil hread)
    have htext := (starts_of_scan? h).1
    rw [← htext] at h
    have hsame := scan?_number_apart h (scanNumber_literal hread).1 hsep more
    rw [hcs] at htext hsame
    obtain rfl : d = c := (List.cons.inj htext).1
    exact ⟨cs, hcs, hsame⟩

/-- A run of identifier characters ends where it did when the text changes behind a character that
separates tokens. -/
theorem identRun_apart {c : Char} {behind : List Char} (hstart : isIdentStart c = true)
    (hrest : (c :: behind).dropWhile isIdentPart = r ++ q) (hsep : SetsApart sep)
    (more : List Char) :
    (c :: (behind.takeWhile isIdentPart ++ (r ++ sep :: more))).takeWhile isIdentPart =
        c :: behind.takeWhile isIdentPart ∧
      (c :: (behind.takeWhile isIdentPart ++ (r ++ sep :: more))).dropWhile isIdentPart =
        r ++ sep :: more := by
  have hrun : ∀ d ∈ c :: behind.takeWhile isIdentPart, isIdentPart d = true :=
    List.forall_mem_cons.mpr
      ⟨isIdentPart_of_isIdentStart hstart, fun d hd => List.mem_takeWhile_imp hd⟩
  refine run_ends hrun fun d hd => ?_
  cases r with
  | nil =>
    obtain rfl : sep = d := Option.some.inj hd
    exact hsep.not_isIdentPart
  | cons e r =>
    obtain rfl : e = d := Option.some.inj hd
    have hhead := List.head_dropWhile_not isIdentPart (l := c :: behind) (by simp [hrest])
    simpa [hrest] using hhead

/-- **A token stays what it is when the text changes** behind a character that separates tokens. -/
theorem scanToken_apart {pos : Nat} {c : Char} {behind : List Char} {t : Token}
    (h : scanToken pos c behind = .ok (t, r ++ q)) (hsep : SetsApart sep) (more : List Char)
    (pos' : Nat) : ∃ cs, t.text.toList = c :: cs ∧
      scanToken pos' c (cs ++ (r ++ sep :: more)) = .ok (t, r ++ sep :: more) := by
  have htext := (scanToken_cases h).1
  unfold scanToken at h
  split at h
  · rename_i p rest _
    cases h
    obtain ⟨d, cs, hcs, -, -, hscan⟩ := punct_scans p
    rw [hcs] at htext
    obtain rfl : c = d := (List.cons.inj htext).1
    exact ⟨cs, hcs, hscan pos' _ trivial⟩
  · split at h
    · rename_i hopens
      split at h
      · rename_i v rest hscan
        cases h
        obtain ⟨cs, hcs, hscan'⟩ := scan?_apart hopens hscan hsep more
        refine ⟨cs, hcs, ?_⟩
        simp only [scanToken, scanPunct?_of_opensValue hopens, hopens, if_true, hscan']
      · cases h
    · split at h
      · rename_i hstart
        obtain ⟨hword, hrest⟩ := Prod.mk.inj (Except.ok.inj h)
        have hrun := identRun_apart hstart hrest hsep more
        rw [List.takeWhile_cons_of_pos (isIdentPart_of_isIdentStart hstart)] at hword
        have hplain : ∀ d ∈ c :: behind.takeWhile isIdentPart, isIdentPart d = true :=
          fun d hd => List.mem_takeWhile_imp (hrun.1 ▸ hd)
        refine ⟨behind.takeWhile isIdentPart, hword ▸ (wordToken_plain hplain).2, ?_⟩
        simp only [scanToken, scanPunct?_of_isIdentStart hstart, opensValue_of_isIdentStart hstart,
          hstart, Bool.false_eq_true, if_false, if_true, hrun.1, hrun.2, hword]
      · cases h

end Apart

end Signature
end Countersign
