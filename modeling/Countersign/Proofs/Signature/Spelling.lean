/-
# Spelling tokens

A token that has been read can be written again and is read as the same token, provided that what
follows it does not run into it: nothing runs into a mark, and no name or number goes on into a
character that is neither part of a name nor a point. So a text that is made of such tokens, with
blanks between them where needed, is split into exactly these tokens.

Key definitions: `Token.Scans`, `IsName`, `Spells`.
Key theorems: `scans_of_tokenize`, `tokenize_of_spells`.
-/
import Countersign.Proofs.Text.Runs
import Countersign.Signature.Token

namespace Countersign

open Text

namespace Signature

/-- No name and no number goes on into the text. -/
def Stops (text : List Char) : Prop := ∀ c ∈ text.head?, isIdentPart c = false ∧ c ≠ '.'

theorem isIdentPart_of_isDigit {c : Char} (h : c.isDigit = true) : isIdentPart c = true := by
  simp [isIdentPart, Char.isAlphanum, h]

theorem Stops.not_isDigit {text : List Char} (h : Stops text) :
    ∀ c ∈ text.head?, c.isDigit = false := by
  intro c hc
  by_contra hd
  have := isIdentPart_of_isDigit (by simpa using hd)
  rw [(h c hc).1] at this
  exact absurd this (by decide)

end Signature

/-! ### Values -/

namespace Value

open Signature

theorem scanString_respell {text rest : List Char} {v : Value}
    (h : scanString? text = some (v, rest)) (rest' : List Char) :
    scanString? (v.text.toList ++ rest') = some (v, rest') := by
  cases text with
  | nil => simp [scanString?] at h
  | cons q text =>
    simp only [scanString?] at h
    split at h
    · rename_i hq
      split at h
      · simp at h
      · rename_i c more hdrop
        split at h
        · simp only [Option.some.injEq, Prod.mk.injEq] at h
          obtain ⟨rfl, rfl⟩ := h
          have hbody : ∀ d ∈ text.takeWhile (!isQuote ·), (!isQuote d) = true := fun d hd => by
            simpa using List.mem_takeWhile_imp hd
          have hstop : ∀ d ∈ (q :: rest').head?, (!isQuote d) = false := by simp [hq]
          simp only [String.toList_ofList, List.cons_append, List.append_assoc, scanString?, hq,
            List.nil_append]
          rw [(run_ends hbody hstop).1, (run_ends hbody hstop).2]
          simp
        · simp at h
    · simp at h

/-- Nothing, or a point with digits behind it. -/
def IsFraction (f : List Char) : Prop :=
  f = [] ∨ ∃ ds, ds ≠ [] ∧ (∀ d ∈ ds, d.isDigit = true) ∧ f = '.' :: ds

/-- Nothing, or `e` or `E`, perhaps a sign, and digits. -/
def IsExponent (e : List Char) : Prop :=
  e = [] ∨ ∃ c sign ds, (c = 'e' ∨ c = 'E') ∧ (sign = [] ∨ sign = ['+'] ∨ sign = ['-']) ∧
    ds ≠ [] ∧ (∀ d ∈ ds, d.isDigit = true) ∧ e = c :: sign ++ ds

theorem mem_takeWhile_isDigit (text : List Char) :
    ∀ d ∈ text.takeWhile Char.isDigit, d.isDigit = true :=
  fun _ hd => List.mem_takeWhile_imp hd

theorem splitFraction_isFraction (text : List Char) : IsFraction (splitFraction text).1 := by
  unfold splitFraction
  split
  · split
    · exact .inl rfl
    · rename_i more hds
      exact .inr ⟨_, hds, mem_takeWhile_isDigit _, rfl⟩
  · exact .inl rfl

theorem splitExponentSign_cases (text : List Char) :
    (splitExponentSign text).1 = [] ∨ (splitExponentSign text).1 = ['+'] ∨
      (splitExponentSign text).1 = ['-'] := by
  unfold splitExponentSign
  split <;> simp

theorem splitExponent_isExponent (text : List Char) : IsExponent (splitExponent text).1 := by
  unfold splitExponent
  split
  · exact .inl rfl
  · rename_i e text
    split
    · rename_i he
      simp only
      split
      · exact .inl rfl
      · rename_i hds
        exact .inr ⟨e, _, _, by simpa using he, splitExponentSign_cases text, hds,
          mem_takeWhile_isDigit _, rfl⟩
    · exact .inl rfl

theorem IsExponent.head? {e rest : List Char} (he : IsExponent e) (hr : Stops rest) :
    ∀ c ∈ (e ++ rest).head?, c.isDigit = false ∧ c ≠ '.' := by
  rcases he with rfl | ⟨c, sign, ds, hc, -, -, -, rfl⟩
  · exact fun c hc => ⟨hr.not_isDigit c hc, (hr c hc).2⟩
  · simp only [List.cons_append, List.head?_cons, Option.mem_def, Option.some.injEq]
    rintro d rfl
    rcases hc with rfl | rfl <;> decide

theorem IsFraction.head? {f rest : List Char} (hf : IsFraction f)
    (hr : ∀ c ∈ rest.head?, c.isDigit = false) : ∀ c ∈ (f ++ rest).head?, c.isDigit = false := by
  rcases hf with rfl | ⟨ds, -, -, rfl⟩
  · exact hr
  · simp only [List.cons_append, List.head?_cons, Option.mem_def, Option.some.injEq]
    rintro c rfl
    decide

theorem splitFraction_append {f rest : List Char} (hf : IsFraction f)
    (hr : ∀ c ∈ rest.head?, c.isDigit = false ∧ c ≠ '.') : splitFraction (f ++ rest) = (f, rest) := by
  rcases hf with rfl | ⟨ds, hne, hds, rfl⟩
  · unfold splitFraction
    split
    · rename_i text heq
      rw [List.nil_append] at heq
      exact absurd rfl (hr '.' (by rw [heq]; rfl)).2
    · simp
  · have hrun := run_ends hds fun c hc => (hr c hc).1
    simp only [List.cons_append, splitFraction, hrun.1, hrun.2]

theorem splitExponentSign_append {sign ds rest : List Char}
    (hs : sign = [] ∨ sign = ['+'] ∨ sign = ['-']) (hne : ds ≠ [])
    (hds : ∀ d ∈ ds, d.isDigit = true) :
    splitExponentSign (sign ++ (ds ++ rest)) = (sign, ds ++ rest) := by
  obtain ⟨d, ds, rfl⟩ := List.exists_cons_of_ne_nil hne
  have hd := hds d (by simp)
  rcases hs with rfl | rfl | rfl
  · have hplus : d ≠ '+' := by rintro rfl; exact absurd hd (by decide)
    have hminus : d ≠ '-' := by rintro rfl; exact absurd hd (by decide)
    simp [splitExponentSign, hplus, hminus]
  · rfl
  · rfl

theorem splitExponent_append {e rest : List Char} (he : IsExponent e) (hr : Stops rest) :
    splitExponent (e ++ rest) = (e, rest) := by
  rcases he with rfl | ⟨c, sign, ds, hc, hs, hne, hds, rfl⟩
  · cases rest with
    | nil => rfl
    | cons c rest =>
      have hpart := (hr c rfl).1
      have h1 : c ≠ 'e' := by rintro rfl; exact absurd hpart (by decide)
      have h2 : c ≠ 'E' := by rintro rfl; exact absurd hpart (by decide)
      simp [splitExponent, h1, h2]
  · have hrun := run_ends hds hr.not_isDigit
    have hcc : (c == 'e' || c == 'E') = true := by simpa using hc
    simp only [List.cons_append, List.append_assoc, splitExponent, hcc, if_true,
      splitExponentSign_append hs hne hds, hrun.1, hrun.2]

theorem splitSign_cases (text : List Char) :
    (splitSign text).1 = [] ∨ (splitSign text).1 = ['-'] := by
  unfold splitSign
  split <;> simp

theorem splitSign_append {sign ds rest : List Char} (hs : sign = [] ∨ sign = ['-'])
    (hne : ds ≠ []) (hds : ∀ d ∈ ds, d.isDigit = true) :
    splitSign (sign ++ (ds ++ rest)) = (sign, ds ++ rest) := by
  obtain ⟨d, ds, rfl⟩ := List.exists_cons_of_ne_nil hne
  rcases hs with rfl | rfl
  · have hminus : d ≠ '-' := by rintro rfl; exact absurd (hds '-' (by simp)) (by decide)
    simp [splitSign, hminus]
  · rfl

theorem scanNumber_respell {text rest : List Char} {v : Value}
    (h : scanNumber? text = some (v, rest)) {rest' : List Char} (hr : Stops rest') :
    scanNumber? (v.text.toList ++ rest') = some (v, rest') := by
  simp only [scanNumber?] at h
  split at h
  · simp at h
  · rename_i hne
    simp only [Option.some.injEq, Prod.mk.injEq] at h
    obtain ⟨rfl, -⟩ := h
    have hds := mem_takeWhile_isDigit (splitSign text).2
    have hf := splitFraction_isFraction ((splitSign text).2.dropWhile Char.isDigit)
    have he := splitExponent_isExponent
      (splitFraction ((splitSign text).2.dropWhile Char.isDigit)).2
    have hrun := run_ends hds (hf.head? fun c hc => (he.head? hr c hc).1)
    simp only [scanNumber?, String.toList_ofList, List.append_assoc,
      splitSign_append (splitSign_cases text) hne hds, hrun.1, hrun.2,
      splitFraction_append hf (he.head? hr), splitExponent_append he hr]

theorem splitSign_text (text : List Char) : (splitSign text).1 ++ (splitSign text).2 = text := by
  unfold splitSign
  split <;> rfl

theorem splitFraction_text (text : List Char) :
    (splitFraction text).1 ++ (splitFraction text).2 = text := by
  unfold splitFraction
  split
  · split
    · rfl
    · simp
  · rfl

theorem splitExponentSign_text (text : List Char) :
    (splitExponentSign text).1 ++ (splitExponentSign text).2 = text := by
  unfold splitExponentSign
  split <;> rfl

theorem splitExponent_text (text : List Char) :
    (splitExponent text).1 ++ (splitExponent text).2 = text := by
  unfold splitExponent
  split
  · rfl
  · rename_i e text
    split
    · simp only
      split
      · rfl
      · simp only [List.cons_append, List.append_assoc, List.takeWhile_append_dropWhile,
          splitExponentSign_text]
    · rfl

/-- A number is written as the text it was read from, and starts that text. -/
theorem scanNumber_text {text rest : List Char} {v : Value}
    (h : scanNumber? text = some (v, rest)) : v.text.toList ++ rest = text := by
  simp only [scanNumber?] at h
  split at h
  · simp at h
  · simp only [Option.some.injEq, Prod.mk.injEq] at h
    obtain ⟨rfl, rfl⟩ := h
    simp only [String.toList_ofList, List.append_assoc, splitExponent_text, splitFraction_text,
      List.takeWhile_append_dropWhile, splitSign_text]

theorem scanNumber_ne_nil {text rest : List Char} {v : Value}
    (h : scanNumber? text = some (v, rest)) : v.text.toList ≠ [] := by
  simp only [scanNumber?] at h
  split at h
  · simp at h
  · rename_i hne
    simp only [Option.some.injEq, Prod.mk.injEq] at h
    obtain ⟨rfl, -⟩ := h
    intro hnil
    simp only [String.toList_ofList, List.append_eq_nil_iff] at hnil
    exact hne hnil.1.1.2

theorem scanString_head {q : Char} {text rest : List Char} {v : Value}
    (h : scanString? (q :: text) = some (v, rest)) : ∃ cs, v.text.toList = q :: cs := by
  simp only [scanString?] at h
  split at h
  · split at h
    · simp at h
    · split at h
      · simp only [Option.some.injEq, Prod.mk.injEq] at h
        obtain ⟨rfl, -⟩ := h
        exact ⟨_, String.toList_ofList⟩
      · simp at h
  · simp at h

/-- What opens a string or a number is neither the other nor a word. -/
theorem scan?_of_isQuote {q : Char} {text : List Char} (hq : isQuote q = true) :
    scan? (q :: text) = scanString? (q :: text) := by
  have hq' : q = '"' ∨ q = '\'' := by simpa [isQuote] using hq
  have hnum : scanNumber? (q :: text) = none := by
    rcases hq' with rfl | rfl <;> rfl
  have hword : wordKinds.findSome? (scanWord? (q :: text)) = none := by
    rcases hq' with rfl | rfl <;> rfl
  simp [scan?, hnum, hword]

theorem scan?_of_number {c : Char} {text : List Char} (hc : c = '-' ∨ c.isDigit = true) :
    scan? (c :: text) = scanNumber? (c :: text) := by
  have hstr : scanString? (c :: text) = none := by
    have : isQuote c = false := by
      rcases hc with rfl | hc
      · rfl
      · refine Bool.eq_false_iff.mpr fun hq => ?_
        have hq' : c = '"' ∨ c = '\'' := by simpa [isQuote] using hq
        rcases hq' with rfl | rfl <;> exact absurd hc (by decide)
    simp [scanString?, this]
  have hword : wordKinds.findSome? (scanWord? (c :: text)) = none := by
    have hne : ∀ d : Char, d.isDigit = false → d ≠ '-' → (d == c) = false := by
      intro d hd hm
      rcases hc with rfl | hc
      · simpa using hm
      · refine beq_eq_false_iff_ne.mpr ?_
        rintro rfl
        rw [hc] at hd
        exact absurd hd (by decide)
    simp [wordKinds, scanWord?, ValueKind.word, List.isPrefixOf?,
      hne 'n' (by decide) (by decide), hne 'u' (by decide) (by decide),
      hne 't' (by decide) (by decide), hne 'f' (by decide) (by decide)]
  simp [scan?, hstr, hword]

end Value

/-! ### Tokens -/

namespace Signature

open Value

/-- Nothing of the text runs into the token before it. -/
def Token.EndsBefore : Token → List Char → Prop
  | .punct _, _ => True
  | .name _, text => Stops text
  | .value _, text => Stops text

/-- The token is read back from its own text, whatever follows that does not run into it. -/
def Token.Scans (t : Token) : Prop :=
  ∃ c cs, t.text.toList = c :: cs ∧ isBlank c = false ∧ c ≠ '/' ∧
    ∀ pos rest, t.EndsBefore rest → scanToken pos c (cs ++ rest) = .ok (t, rest)

/-- The text is a name of the signature language. -/
def IsName (s : String) : Prop := tokenize s.toList = .ok [⟨.name s, 0⟩]

theorem punct_scans (p : Punct) : (Token.punct p).Scans := by
  cases p <;> exact ⟨_, _, rfl, by decide, by decide, fun _ _ _ => rfl⟩

theorem scanPunct?_text {text rest : List Char} {p : Punct}
    (h : scanPunct? text = some (p, rest)) : text = p.text.toList ++ rest := by
  unfold scanPunct? at h
  split at h <;> simp only [Option.some.injEq, Prod.mk.injEq, reduceCtorEq] at h <;>
    (obtain ⟨rfl, rfl⟩ := h; rfl)

theorem scanPunct?_of_isIdentStart {c : Char} (h : isIdentStart c = true) (text : List Char) :
    scanPunct? (c :: text) = none := by
  cases hp : scanPunct? (c :: text) with
  | none => rfl
  | some r =>
    obtain ⟨p, rest⟩ := r
    have htext := scanPunct?_text hp
    cases p <;> (cases htext; exact absurd h (by decide))

theorem toNat_of_isAlpha {c : Char} (h : c.isAlpha = true) : 64 < c.toNat ∧ c.toNat < 123 := by
  have halpha : c.isAlpha = (decide (c.val ≥ 'A'.val ∧ c.val ≤ 'Z'.val) ||
      decide (c.val ≥ 'a'.val) && decide (c.val ≤ 'z'.val)) := rfl
  simp only [halpha, Bool.or_eq_true, Bool.and_eq_true, decide_eq_true_eq, UInt32.le_iff_toNat_le,
    ge_iff_le] at h
  have : c.toNat = c.val.toNat := rfl
  have : 'A'.val.toNat = 65 := rfl
  have : 'Z'.val.toNat = 90 := rfl
  have : 'a'.val.toNat = 97 := rfl
  have : 'z'.val.toNat = 122 := rfl
  omega

theorem toNat_of_isIdentStart {c : Char} (h : isIdentStart c = true) :
    c = '_' ∨ c = '$' ∨ 64 < c.toNat := by
  simp only [isIdentStart, Bool.or_eq_true, Bool.and_eq_true, beq_iff_eq, decide_eq_true_eq] at h
  rcases h with ((h | h) | h) | h
  · exact .inl h
  · exact .inr (.inl h)
  · exact .inr (.inr (toNat_of_isAlpha h).1)
  · exact .inr (.inr (by omega))

theorem toNat_of_opensValue {c : Char} (h : opensValue c = true) : c.toNat < 64 := by
  simp only [opensValue, isQuote, Char.isDigit, Bool.or_eq_true, Bool.and_eq_true, beq_iff_eq,
    decide_eq_true_eq, UInt32.le_iff_toNat_le, ge_iff_le] at h
  rcases h with ((rfl | rfl) | rfl) | h
  · decide
  · decide
  · decide
  · have : c.toNat = c.val.toNat := rfl
    have : '9'.val.toNat = 57 := rfl
    omega

theorem opensValue_of_isIdentStart {c : Char} (h : isIdentStart c = true) :
    opensValue c = false := by
  refine Bool.eq_false_iff.mpr fun hv => ?_
  have hlt := toNat_of_opensValue hv
  rcases toNat_of_isIdentStart h with rfl | rfl | hgt
  · exact absurd hv (by decide)
  · exact absurd hv (by decide)
  · omega

/-- A run of identifier characters is read back as the word it is. -/
theorem wordToken_scans {c : Char} {cs : List Char} (hc : isIdentStart c = true)
    (hb : isBlank c = false) (hcs : ∀ d ∈ cs, isIdentPart d = true) :
    (wordToken (String.ofList (c :: cs))).Scans := by
  have htext : (wordToken (String.ofList (c :: cs))).text = String.ofList (c :: cs) := by
    unfold wordToken
    split <;> rfl
  have hslash : c ≠ '/' := by rintro rfl; exact absurd hc (by decide)
  refine ⟨c, cs, by rw [htext, String.toList_ofList], hb, hslash, fun pos rest hrest => ?_⟩
  have hstop : Stops rest := by
    unfold wordToken at hrest
    split at hrest <;> exact hrest
  have hall : ∀ d ∈ c :: cs, isIdentPart d = true := by
    intro d hd
    rcases List.mem_cons.mp hd with rfl | hd
    · exact isIdentPart_of_isIdentStart hc
    · exact hcs d hd
  have hrun := run_ends hall fun d hd => (hstop d hd).1
  rw [List.cons_append] at hrun
  simp only [scanToken, scanPunct?_of_isIdentStart hc, opensValue_of_isIdentStart hc, hc,
    Bool.false_eq_true, if_false, if_true, hrun.1, hrun.2]

theorem scanPunct?_of_opensValue {c : Char} (h : opensValue c = true) (text : List Char) :
    scanPunct? (c :: text) = none := by
  cases hp : scanPunct? (c :: text) with
  | none => rfl
  | some r =>
    obtain ⟨p, rest⟩ := r
    have htext := scanPunct?_text hp
    cases p <;> (cases htext; exact absurd h (by decide))

/-- A string or a number is read back as the value it is. -/
theorem value_scans {c : Char} {text rest : List Char} {v : Value} (hv : opensValue c = true)
    (hb : isBlank c = false) (h : scan? (c :: text) = some (v, rest)) :
    (Token.value v).Scans := by
  have hslash : c ≠ '/' := by rintro rfl; exact absurd hv (by decide)
  have hkind : isQuote c = true ∨ (c = '-' ∨ c.isDigit = true) := by
    simpa [opensValue, or_assoc] using hv
  have hspell : ∃ cs, v.text.toList = c :: cs ∧
      ∀ rest', Stops rest' → scan? (c :: (cs ++ rest')) = some (v, rest') := by
    rcases hkind with hq | hn
    · rw [scan?_of_isQuote hq] at h
      obtain ⟨cs, hcs⟩ := scanString_head h
      refine ⟨cs, hcs, fun rest' _ => ?_⟩
      rw [scan?_of_isQuote hq, ← List.cons_append, ← hcs]
      exact scanString_respell h rest'
    · rw [scan?_of_number hn] at h
      obtain ⟨d, cs, hcs⟩ := List.exists_cons_of_ne_nil (scanNumber_ne_nil h)
      have htext := scanNumber_text h
      rw [hcs, List.cons_append] at htext
      obtain rfl : d = c := (List.cons.inj htext).1
      refine ⟨cs, hcs, fun rest' hr => ?_⟩
      rw [scan?_of_number hn, ← List.cons_append, ← hcs]
      exact scanNumber_respell h hr
  obtain ⟨cs, hcs, hscan⟩ := hspell
  refine ⟨c, cs, hcs, hb, hslash, fun pos rest' hr => ?_⟩
  simp only [scanToken, scanPunct?_of_opensValue hv, hv, if_true, hscan rest' hr]

/-- What has been read as a token is read as it again. -/
theorem scans_of_scanToken {pos : Nat} {c : Char} {text rest : List Char} {t : Token}
    (h : scanToken pos c text = .ok (t, rest)) (hb : isBlank c = false) : t.Scans := by
  unfold scanToken at h
  split at h
  · simp only [Except.ok.injEq, Prod.mk.injEq] at h
    obtain ⟨rfl, -⟩ := h
    exact punct_scans _
  · split at h
    · rename_i hv
      split at h
      · rename_i v more hscan
        simp only [Except.ok.injEq, Prod.mk.injEq] at h
        obtain ⟨rfl, -⟩ := h
        exact value_scans hv hb hscan
      · simp at h
    · split at h
      · rename_i hc
        simp only [Except.ok.injEq, Prod.mk.injEq] at h
        obtain ⟨rfl, -⟩ := h
        rw [List.takeWhile_cons_of_pos (isIdentPart_of_isIdentStart hc)]
        exact wordToken_scans hc hb fun d hd => List.mem_takeWhile_imp hd
      · simp at h

/-! ### Texts -/

/-- What is skipped ends before a character that is not blank. -/
theorem not_isBlank_of_skipTrivia {state : Trivia} {pos start : Nat} {c : Char}
    {text rest : List Char} (h : skipTrivia state pos text = .ok (start, c :: rest)) :
    isBlank c = false := by
  fun_induction skipTrivia state pos text with
  | case1 => simp at h
  | case2 => simp at h
  | case3 pos text ih => exact ih h
  | case4 pos text ih => exact ih h
  | case5 pos c text _ _ hb ih => exact ih h
  | case6 pos d text _ _ hb =>
    simp only [Except.ok.injEq, Prod.mk.injEq, List.cons.injEq] at h
    obtain ⟨-, rfl, -⟩ := h
    simpa using hb
  | case7 pos c text ih => exact ih h
  | case8 opened pos text ih => exact ih h
  | case9 opened pos c text _ ih => exact ih h

theorem scans_of_lexemesFrom {limit pos : Nat} {text : List Char} {ls : List Lexeme}
    (h : lexemesFrom limit pos text = .ok ls) : ∀ l ∈ ls, l.token.Scans := by
  induction limit generalizing pos text ls with
  | zero =>
    simp only [lexemesFrom, Except.ok.injEq] at h
    simp [← h]
  | succ limit ih =>
    simp only [lexemesFrom, bind, Except.bind] at h
    split at h
    · simp at h
    · rename_i skipped hskip
      split at h
      · simp only [pure, Except.pure, Except.ok.injEq] at h
        simp [← h]
      · rename_i start c rest
        split at h
        · simp at h
        · rename_i token htoken
          obtain ⟨t, rest'⟩ := token
          split at h
          · simp at h
          · rename_i more hmore
            simp only [pure, Except.pure, Except.ok.injEq] at h
            subst h
            intro l hl
            rcases List.mem_cons.mp hl with rfl | hl
            · exact scans_of_scanToken htoken (not_isBlank_of_skipTrivia hskip)
            · exact ih hmore l hl

/-- Every token of a text can be written again and read as the same token. -/
theorem scans_of_tokenize {text : List Char} {ls : List Lexeme} (h : tokenize text = .ok ls) :
    ∀ l ∈ ls, l.token.Scans :=
  scans_of_lexemesFrom h

theorem IsName.scans {s : String} (h : IsName s) : (Token.name s).Scans :=
  scans_of_tokenize h _ (List.mem_singleton_self _)

/-- The text is the tokens as they are written, in order, with blanks where they are wanted. -/
inductive Spells : List Char → List Token → Prop
  | nil : Spells [] []
  | blank {text : List Char} {ts : List Token} : Spells text ts → Spells (' ' :: text) ts
  | token {t : Token} {text : List Char} {ts : List Token} : t.Scans → t.EndsBefore text →
      Spells text ts → Spells (t.text.toList ++ text) (t :: ts)

theorem skipTrivia_of_not_isBlank {c : Char} {text : List Char} (hb : isBlank c = false)
    (hslash : c ≠ '/') (pos : Nat) : skipTrivia .blank pos (c :: text) = .ok (pos, c :: text) := by
  -- The equations of `skipTrivia` one by one are costly to derive; its whole definition is not.
  rw [skipTrivia.eq_def]
  split <;> simp_all

theorem lexemesFrom_of_spells {text : List Char} {ts : List Token} (h : Spells text ts) :
    ∀ limit pos, text.length < limit →
      ∃ ls, lexemesFrom limit pos text = .ok ls ∧ ls.map (·.token) = ts := by
  induction h with
  | nil =>
    intro limit pos hlimit
    obtain ⟨limit, rfl⟩ := Nat.exists_eq_succ_of_ne_zero (by omega : limit ≠ 0)
    exact ⟨[], rfl, rfl⟩
  | @blank text ts _ ih =>
    intro limit pos hlimit
    obtain ⟨limit, rfl⟩ := Nat.exists_eq_succ_of_ne_zero (by omega : limit ≠ 0)
    obtain ⟨ls, hls, hmap⟩ := ih (limit + 1) (pos + 1) (by simp at hlimit; omega)
    have hskip : skipTrivia .blank pos (' ' :: text) = skipTrivia .blank (pos + 1) text := rfl
    refine ⟨ls, ?_, hmap⟩
    rw [lexemesFrom, hskip]
    rw [lexemesFrom] at hls
    exact hls
  | @token t text ts ht hend _ ih =>
    intro limit pos hlimit
    obtain ⟨limit, rfl⟩ := Nat.exists_eq_succ_of_ne_zero (by omega : limit ≠ 0)
    obtain ⟨c, cs, htext, hb, hslash, hscan⟩ := ht
    rw [htext] at hlimit ⊢
    have hlen : text.length < limit := by
      simp only [List.cons_append, List.length_cons, List.length_append] at hlimit
      omega
    obtain ⟨ls, hls, hmap⟩ := ih limit (Lexeme.stop ⟨t, pos⟩) hlen
    refine ⟨⟨t, pos⟩ :: ls, ?_, by simp [hmap]⟩
    simp only [lexemesFrom, List.cons_append, skipTrivia_of_not_isBlank hb hslash,
      hscan pos text hend, hls, bind, Except.bind, pure, Except.pure]

/-- A text is split into the tokens that it spells. -/
theorem tokenize_of_spells {text : List Char} {ts : List Token} (h : Spells text ts) :
    ∃ ls, tokenize text = .ok ls ∧ ls.map (·.token) = ts :=
  lexemesFrom_of_spells h _ 0 (Nat.lt_succ_self _)

end Signature
end Countersign
