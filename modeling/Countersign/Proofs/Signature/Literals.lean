/-
# Literal values

A literal value is a string between two equal quotes with no quote in between, a number, or one of
four words. What is read off the front of a text is the longest literal that starts it: a number
takes its fraction and its exponent only as a whole, and a word counts only where it ends. So a text
is read as a value just if all of it is a literal, and otherwise the error stands behind the longest
literal that starts the text. What is read as a value is read as the type of that value, too.

Key definitions: `Value.Literal`, `Value.Starts`.
Key theorems: `Value.starts_of_scan?`, `Value.scan?_of_starts`, `Value.parse_literal`.
-/
import Countersign.Proofs.Signature.Offsets
import Countersign.Proofs.Signature.Quotes
import Countersign.Proofs.Signature.RoundTrip

namespace Countersign
namespace Value

open Text Signature

/-- A literal value of each kind as it is written. -/
inductive Literal : ValueKind → List Char → Prop
  | string {q : Char} {body : List Char} : isQuote q = true → (∀ c ∈ body, isQuote c = false) →
      Literal .string (q :: (body ++ [q]))
  | number {sign ds fraction exponent : List Char} : sign = [] ∨ sign = ['-'] → ds ≠ [] →
      (∀ d ∈ ds, d.isDigit = true) → IsFraction fraction → IsExponent exponent →
      Literal .number (sign ++ (ds ++ (fraction ++ exponent)))
  | null : Literal .null "null".toList
  | undefined : Literal .undefined "undefined".toList
  | trueWord : Literal .trueWord "true".toList
  | falseWord : Literal .falseWord "false".toList

/-- The literal starts the text; a word does so only if no identifier character follows it. -/
def Starts (k : ValueKind) (lit text : List Char) : Prop :=
  Literal k lit ∧ ∃ rest, lit ++ rest = text ∧
    (k ∈ wordKinds → ∀ c ∈ rest.head?, isIdentPart c = false)

/-! ### What is read is a literal -/

section Read

variable {text rest : List Char} {v : Value} {k : ValueKind}

theorem scanString_literal (h : scanString? text = some (v, rest)) :
    v.kind = .string ∧ Literal .string v.text.toList ∧ v.text.toList ++ rest = text := by
  obtain ⟨⟨q, body, hq, hbody, hv⟩, htext⟩ := scanString_isString h
  cases hv
  refine ⟨rfl, ?_, htext.symm⟩
  rw [String.toList_ofList]
  exact .string hq (quotes_eq_zero.mp hbody)

theorem scanNumber_literal (h : scanNumber? text = some (v, rest)) :
    v.kind = .number ∧ Literal .number v.text.toList := by
  simp only [scanNumber?] at h
  split at h
  · cases h
  · rename_i hne
    cases h
    refine ⟨rfl, ?_⟩
    rw [String.toList_ofList, List.append_assoc, List.append_assoc]
    exact .number (splitSign_cases _) hne (mem_takeWhile_isDigit _) (splitFraction_isFraction _)
      (splitExponent_isExponent _)

/-- A word is read if it stands there and ends there. -/
theorem scanWord_eq_some : scanWord? text k = some (v, rest) ↔
    v = ⟨k.word, k⟩ ∧ k.word.toList ++ rest = text ∧ ∀ c ∈ rest.head?, isIdentPart c = false := by
  unfold scanWord?
  split
  · rename_i hnone
    refine ⟨nofun, fun ⟨_, htext, _⟩ => ?_⟩
    rw [List.isPrefixOf?_eq_some_iff_append_eq.mpr htext] at hnone
    cases hnone
  · rename_i hsome
    have htext := List.isPrefixOf?_eq_some_iff_append_eq.mp hsome
    constructor
    · intro h
      cases h
      exact ⟨rfl, htext, nofun⟩
    · rintro ⟨rfl, hrest, -⟩
      rw [List.append_cancel_left (hrest.trans htext.symm)]
  · rename_i c more hsome
    have htext := List.isPrefixOf?_eq_some_iff_append_eq.mp hsome
    split
    · rename_i hpart
      refine ⟨nofun, fun ⟨_, hrest, hends⟩ => ?_⟩
      rw [List.append_cancel_left (hrest.trans htext.symm)] at hends
      exact absurd hpart (by rw [hends c rfl]; exact Bool.false_ne_true)
    · rename_i hpart
      constructor
      · intro h
        cases h
        refine ⟨rfl, htext, ?_⟩
        rintro d ⟨⟩
        exact Bool.eq_false_iff.mpr hpart
      · rintro ⟨rfl, hrest, -⟩
        rw [List.append_cancel_left (hrest.trans htext.symm)]

theorem literal_word (hk : k ∈ wordKinds) : Literal k k.word.toList := by
  cases k with
  | string => simp [wordKinds] at hk
  | number => simp [wordKinds] at hk
  | null => exact .null
  | undefined => exact .undefined
  | trueWord => exact .trueWord
  | falseWord => exact .falseWord

theorem Literal.eq_word {lit : List Char} (h : Literal k lit) (hk : k ∈ wordKinds) :
    lit = k.word.toList := by
  cases h with
  | string _ _ => simp [wordKinds] at hk
  | number _ _ _ _ _ => simp [wordKinds] at hk
  | _ => rfl

/-- **What is read off a text is a literal that starts it.** -/
theorem starts_of_scan? (h : scan? text = some (v, rest)) :
    v.text.toList ++ rest = text ∧ Starts v.kind v.text.toList text := by
  rw [scan?] at h
  rcases (Option.orElse_eq_some _ _ _).mp h with h | ⟨-, h⟩
  · obtain ⟨hkind, hlit, htext⟩ := scanString_literal h
    refine ⟨htext, hkind ▸ hlit, rest, htext, fun hword => ?_⟩
    simp [hkind, wordKinds] at hword
  · rcases (Option.orElse_eq_some _ _ _).mp h with h | ⟨-, h⟩
    · obtain ⟨hkind, hlit⟩ := scanNumber_literal h
      have htext := scanNumber_text h
      refine ⟨htext, hkind ▸ hlit, rest, htext, fun hword => ?_⟩
      simp [hkind, wordKinds] at hword
    · obtain ⟨k, hk, h⟩ := List.exists_of_findSome?_eq_some h
      obtain ⟨rfl, htext, hends⟩ := scanWord_eq_some.mp h
      exact ⟨htext, literal_word hk, rest, htext, fun _ => hends⟩

end Read

/-! ### The longest literal is read -/

theorem scanString_of_string {q : Char} {body : List Char} (hq : isQuote q = true)
    (hbody : ∀ c ∈ body, isQuote c = false) (rest : List Char) :
    scanString? (q :: (body ++ [q]) ++ rest) =
      some (⟨String.ofList (q :: (body ++ [q])), .string⟩, rest) := by
  have hclean : ∀ c ∈ body, (!isQuote c) = true := fun c hc => by simp [hbody c hc]
  have hclose : ∀ c ∈ (q :: rest).head?, (!isQuote c) = false := by simp [hq]
  have hrun := run_ends hclean hclose
  simp [scanString?, hq, hrun.1, hrun.2]

section Number

variable {sign ds fraction exponent : List Char}

/-- A fraction that stands in front of a text is split off, perhaps with more digits. -/
theorem splitFraction_longest (h : IsFraction fraction) (more : List Char) :
    fraction <+: (splitFraction (fraction ++ more)).1 := by
  rcases h with rfl | ⟨ds, hne, hds, rfl⟩
  · exact List.nil_prefix
  · have hrun : (ds ++ more).takeWhile Char.isDigit = ds ++ more.takeWhile Char.isDigit :=
      List.takeWhile_append_of_pos hds
    rw [List.cons_append, splitFraction]
    split
    · rename_i hnone
      rw [hrun] at hnone
      exact absurd (List.append_eq_nil_iff.mp hnone).1 hne
    · rw [hrun]
      exact List.prefix_append _ _

/-- An exponent that stands in front of a text is split off, perhaps with more digits. -/
theorem splitExponent_longest (h : IsExponent exponent) (more : List Char) :
    exponent <+: (splitExponent (exponent ++ more)).1 := by
  rcases h with rfl | ⟨c, sign, ds, hc, hsign, hne, hds, rfl⟩
  · exact List.nil_prefix
  · have hrun : (ds ++ more).takeWhile Char.isDigit = ds ++ more.takeWhile Char.isDigit :=
      List.takeWhile_append_of_pos hds
    have hmark : (c == 'e' || c == 'E') = true := by simpa using hc
    rw [List.cons_append, List.cons_append, List.append_assoc, splitExponent, if_pos hmark,
      splitExponentSign_append hsign hne hds]
    dsimp only
    split
    · rename_i hnone
      rw [hrun] at hnone
      exact absurd (List.append_eq_nil_iff.mp hnone).1 hne
    · rw [hrun, ← List.append_assoc]
      exact List.prefix_append _ _

theorem IsFraction.opens (h : IsFraction fraction) (hne : fraction ≠ []) (more : List Char) :
    ∀ c ∈ (fraction ++ more).head?, c.isDigit = false := by
  rcases h with rfl | ⟨ds, -, -, rfl⟩
  · exact absurd rfl hne
  · rintro c ⟨⟩
    decide

theorem IsExponent.opens (h : IsExponent exponent) (hne : exponent ≠ []) (more : List Char) :
    ∀ c ∈ (exponent ++ more).head?, c.isDigit = false ∧ c ≠ '.' := by
  rcases h with rfl | ⟨c, sign, ds, hc, -, -, -, rfl⟩
  · exact absurd rfl hne
  · rintro d ⟨⟩
    rcases hc with rfl | rfl
    · decide
    · decide

/-- **The longest number is read.** What stands there and is no part of the number may only make it
longer: digits behind its last digit, or the fraction and the exponent that it lacks. -/
theorem scanNumber_longest (hsign : sign = [] ∨ sign = ['-']) (hne : ds ≠ [])
    (hds : ∀ d ∈ ds, d.isDigit = true) (hf : IsFraction fraction) (he : IsExponent exponent)
    (more : List Char) :
    ∃ v rest, scanNumber? (sign ++ (ds ++ (fraction ++ (exponent ++ more)))) = some (v, rest) ∧
      sign ++ (ds ++ (fraction ++ exponent)) <+: v.text.toList := by
  have hrun : (ds ++ (fraction ++ (exponent ++ more))).takeWhile Char.isDigit =
      ds ++ (fraction ++ (exponent ++ more)).takeWhile Char.isDigit :=
    List.takeWhile_append_of_pos hds
  have hdigits : (ds ++ (fraction ++ (exponent ++ more))).takeWhile Char.isDigit ≠ [] := by
    rw [hrun]
    exact fun hnone => hne (List.append_eq_nil_iff.mp hnone).1
  simp only [scanNumber?, splitSign_append hsign hne hds]
  refine ⟨_, _, rfl, ?_⟩
  rw [String.toList_ofList, List.append_assoc, List.append_assoc, List.prefix_append_right_inj]
  -- A part of the literal that is not its last one is what is split off, and its last may go on.
  by_cases hexp : exponent = []
  · by_cases hfrac : fraction = []
    · rw [hrun, hexp, hfrac, List.append_nil, List.append_nil, List.append_assoc]
      exact List.prefix_append _ _
    · have hends := run_ends hds (hf.opens hfrac (exponent ++ more))
      rw [hends.1, hends.2, hexp, List.append_nil, List.prefix_append_right_inj]
      exact (splitFraction_longest hf _).trans (List.prefix_append _ _)
  · have hopens := he.opens hexp more
    have hends := run_ends hds (hf.head? fun c hc => (hopens c hc).1)
    rw [hends.1, hends.2, splitFraction_append hf hopens, List.prefix_append_right_inj,
      List.prefix_append_right_inj]
    exact splitExponent_longest he more

end Number

theorem scan?_of_word {k : ValueKind} (hk : k ∈ wordKinds) {rest : List Char}
    (hrest : ∀ c ∈ rest.head?, isIdentPart c = false) :
    scan? (k.word.toList ++ rest) = some (⟨k.word, k⟩, rest) := by
  have hword : scanWord? (k.word.toList ++ rest) k = some (⟨k.word, k⟩, rest) :=
    scanWord_eq_some.mpr ⟨rfl, rfl, hrest⟩
  -- The words start with different letters, none of which opens a string or a number.
  have hstring : scanString? (k.word.toList ++ rest) = none := by cases k <;> rfl
  have hnumber : scanNumber? (k.word.toList ++ rest) = none := by cases k <;> rfl
  have hother : ∀ j ≠ k, scanWord? (k.word.toList ++ rest) j = none := by
    intro j hne
    cases k <;> cases j <;> first | rfl | exact absurd rfl hne
  have hwords : wordKinds.findSome? (scanWord? (k.word.toList ++ rest)) =
      some (⟨k.word, k⟩, rest) := by
    obtain ⟨js, js', hjs⟩ := List.append_of_mem hk
    have hnodup : wordKinds.Nodup := by decide
    rw [hjs] at hnodup
    refine List.findSome?_eq_some_iff.mpr ⟨js, k, js', hjs, hword, fun j hj => ?_⟩
    refine hother j ?_
    rintro rfl
    exact (List.nodup_append.mp hnodup).2.2 j hj j List.mem_cons_self rfl
  rw [scan?, hstring, hnumber, hwords]
  rfl

/-- **If a literal starts the text, one of its kind is read that goes on at least as far.** -/
theorem scan?_of_starts {k : ValueKind} {lit text : List Char} (h : Starts k lit text) :
    ∃ v rest, scan? text = some (v, rest) ∧ v.kind = k ∧ lit <+: v.text.toList := by
  obtain ⟨hlit, rest, rfl, hends⟩ := h
  by_cases hk : k ∈ wordKinds
  · rw [hlit.eq_word hk]
    exact ⟨_, rest, scan?_of_word hk (hends hk), rfl, List.prefix_rfl⟩
  · cases hlit with
    | @string q body hq hbody =>
      refine ⟨_, rest, (scan?_of_isQuote hq).trans (scanString_of_string hq hbody rest), rfl, ?_⟩
      rw [String.toList_ofList]
    | @number sign ds fraction exponent hsign hne hds hf he =>
      obtain ⟨v, rest', hscan, hprefix⟩ := scanNumber_longest hsign hne hds hf he rest
      rw [List.append_assoc, List.append_assoc, List.append_assoc]
      refine ⟨v, rest', ?_, (scanNumber_literal hscan).1, hprefix⟩
      obtain ⟨d, ds, rfl⟩ := List.exists_cons_of_ne_nil hne
      rcases hsign with rfl | rfl
      · exact (scan?_of_number (.inr (hds d List.mem_cons_self))).trans hscan
      · exact (scan?_of_number (.inl rfl)).trans hscan
    | _ => exact absurd (by decide) hk

/-! ### Texts that are values -/

/-- A literal that is the whole text starts it. -/
theorem Literal.starts {k : ValueKind} {text : List Char} (h : Literal k text) :
    Starts k text text :=
  ⟨h, [], List.append_nil _, fun _ => nofun⟩

/-- A literal is read as the value that it is, with nothing left. -/
theorem Literal.scan? {k : ValueKind} {text : String} (h : Literal k text.toList) :
    Value.scan? text.toList = some (⟨text, k⟩, []) := by
  obtain ⟨⟨w, j⟩, rest, hscan, rfl, hprefix⟩ := scan?_of_starts h.starts
  obtain ⟨htext, -⟩ := starts_of_scan? hscan
  have hsame : w.toList = text.toList :=
    (List.IsPrefix.eq_of_length_le hprefix
      (by rw [← htext, List.length_append]; exact Nat.le_add_right _ _)).symm
  have hrest : rest = [] := by
    rw [hsame] at htext
    exact List.append_right_eq_self.mp htext
  obtain rfl : w = text := String.toList_inj.mp hsame
  rw [hscan, hrest]

theorem not_isBlank_of_isQuote {c : Char} (h : isQuote c = true) : isBlank c = false := by
  simp only [isQuote, Bool.or_eq_true, beq_iff_eq] at h
  rcases h with rfl | rfl
  · decide
  · decide

theorem not_isBlank_of_isDigit {c : Char} (h : c.isDigit = true) : isBlank c = false := by
  simp only [Char.isDigit, Bool.and_eq_true, decide_eq_true_eq, ge_iff_le,
    UInt32.le_iff_toNat_le] at h
  have hval : c.toNat = c.val.toNat := rfl
  have hlow : '0'.val.toNat = 48 := rfl
  have hhigh : '9'.val.toNat = 57 := rfl
  simp only [isBlank, Bool.or_eq_false_iff, Bool.and_eq_false_iff, decide_eq_false_iff_not,
    beq_eq_false_iff_ne]
  omega

theorem word_scans {k : ValueKind} (hk : k ∈ wordKinds) : (Token.value ⟨k.word, k⟩).Scans := by
  have hword : Token.value ⟨k.word, k⟩ = wordToken k.word := by
    cases k with
    | string => simp [wordKinds] at hk
    | number => simp [wordKinds] at hk
    | _ => decide
  obtain ⟨c, cs, hspelled, hc, hblank, hcs⟩ : ∃ c cs, k.word = String.ofList (c :: cs) ∧
      isIdentStart c = true ∧ isBlank c = false ∧ ∀ d ∈ cs, isIdentPart d = true := by
    cases k <;> exact ⟨_, _, rfl, by decide, by decide, List.all_eq_true.mp (by decide)⟩
  rw [hword, hspelled]
  exact wordToken_scans hc hblank hcs

/-- A literal is a token of the signature language. -/
theorem Literal.scans {k : ValueKind} {text : String} (h : Literal k text.toList) :
    (Token.value ⟨text, k⟩).Scans := by
  by_cases hk : k ∈ wordKinds
  · rw [String.toList_inj.mp (h.eq_word hk)]
    exact word_scans hk
  · have hscan := h.scan?
    obtain ⟨lit, rfl⟩ : ∃ lit, text = String.ofList lit := ⟨text.toList, String.ofList_toList.symm⟩
    rw [String.toList_ofList] at h hscan
    cases h with
    | @string q body hq _ =>
      exact value_scans (by simp [opensValue, hq]) (not_isBlank_of_isQuote hq) hscan
    | @number sign ds _ _ hsign hne hds _ _ =>
      obtain ⟨d, ds, rfl⟩ := List.exists_cons_of_ne_nil hne
      have hd := hds d List.mem_cons_self
      rcases hsign with rfl | rfl
      · exact value_scans (by simp [opensValue, hd]) (not_isBlank_of_isDigit hd) hscan
      · exact value_scans (by decide) (by decide) hscan
    | _ => exact absurd (by decide) hk

/-- A literal is read as the type of its value. -/
theorem Literal.parseType {k : ValueKind} {text : String} (h : Literal k text.toList) :
    Signature.parseType text = .ok (.value ⟨text, k⟩) := by
  have hlegible : Legible (.value ⟨text, k⟩) := legible_iff.mpr ⟨h.scans, rfl, nofun⟩
  have hflat : Flat (.value ⟨text, k⟩) := by
    intro b as hb
    rcases Ty.mem_parts_iff.mp hb with hb | ⟨u, hu, -⟩
    · cases hb
    · cases hu
  have hread := parseType_of_legible hlegible hflat
  rwa [Ty.source] at hread

/-- **A text is read as a value just if it is a literal.** -/
theorem parse_eq_ok {text : String} {v : Value} :
    parse text = .ok v ↔ v.text = text ∧ Literal v.kind text.toList := by
  constructor
  · intro h
    unfold parse at h
    split at h
    · rename_i w hscan
      cases h
      obtain ⟨htext, hlit, -⟩ := starts_of_scan? hscan
      rw [List.append_nil] at htext
      exact ⟨String.toList_inj.mp htext, htext ▸ hlit⟩
    · cases h
    · cases h
  · rintro ⟨rfl, hlit⟩
    rw [parse, hlit.scan?]

/-- **Values are their grammar.** A text is read as a value just if it is a literal of its kind as a
whole; then it is also read as the type of the value, whose text it is. Otherwise the error stands
behind the longest literal that starts the text, or at its start if there is none. -/
theorem parse_literal (text : String) :
    (∀ v, parse text = .ok v ↔ v.text = text ∧ Literal v.kind text.toList) ∧
    (∀ v, parse text = .ok v → Signature.parseType text = .ok (.value v) ∧
      (Ty.value v).source = text) ∧
    ∀ e, parse text = .error e →
      (∃ k lit, Starts k lit text.toList ∧
        (∀ k' lit', Starts k' lit' text.toList → lit' <+: lit) ∧
        e.offset = String.utf8Len lit) ∨
      ((∀ k lit, ¬ Starts k lit text.toList) ∧ e.offset = 0) := by
  refine ⟨fun v => parse_eq_ok, fun v h => ?_, fun e h => ?_⟩
  · obtain ⟨rfl, hlit⟩ := parse_eq_ok.mp h
    exact ⟨hlit.parseType, rfl⟩
  · unfold parse at h
    split at h
    · cases h
    · rename_i v rest _ hscan
      cases h
      obtain ⟨htext, hstarts⟩ := starts_of_scan? hscan
      have hbytes : v.bytes = String.utf8Len v.text.toList := utf8ByteSize_eq v.text
      refine .inl ⟨v.kind, v.text.toList, hstarts, fun k lit hlit => ?_, ?_⟩
      · obtain ⟨w, rest', hw, -, hprefix⟩ := scan?_of_starts hlit
        rw [hscan] at hw
        cases hw
        exact hprefix
      · rw [hbytes, ← htext, SignatureError.locate_behind]
    · rename_i hscan
      cases h
      refine .inr ⟨fun k lit hlit => ?_, rfl⟩
      obtain ⟨v, rest, hv, -⟩ := scan?_of_starts hlit
      rw [hscan] at hv
      cases hv

end Value
end Countersign
