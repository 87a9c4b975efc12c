/-
# Types that are read back from their text

The text of a type leaves out two protections: the quotes around the name of a field, and the
parentheses around a generic application that is itself applied. A type that needs neither is read
back from its text. A type that needs one of them never is: its text is not a type, or it is the text
of another type.

If a name needs quotes, reading the name would take two quotes more than the text has. If an
application is applied, the text has the end of a list of arguments where the grammar wants a
parenthesis; the words of the text, which are in the same order in the type and in what is read from
it, tell that it is the same application in both.

Key definitions: `Meets`.
Key theorems: `fieldsNamed_of_read`, `flat_of_read`, `source_read_back_iff`.
-/
import Countersign.Proofs.Signature.Quotes
import Countersign.Proofs.Signature.RoundTrip

namespace Countersign
namespace Signature

theorem fieldsNamed_of_outline {t : Ty} (h : ∀ s, .word s ∈ outline t → IsName s) :
    FieldsNamed t := by
  intro fs hfs f hf
  exact h f.1 (outline_subset_of_mem_parts hfs (outline_subset_of_mem_fields hf List.mem_cons_self))

theorem flat_of_outline {t : Ty} (h : .applied true ∉ outline t) : Flat t := by
  rintro b as hb c cs rfl
  refine h (outline_subset_of_mem_parts hb ?_)
  rw [outline]
  exact List.mem_append_right _ List.mem_cons_self

/-! ### What is read back -/

/-- What is read has the outline of the tokens of the text. -/
theorem outlined_of_parseType {text : String} {t : Ty} (h : parseType text = .ok t) :
    ∃ ls, tokenize text.toList = .ok ls ∧ (∀ t ∈ ls.map (·.token), t.Scans) ∧
      Outlined .closeParen (ls.map (·.token)) (outline t) := by
  obtain ⟨ls, hls, hread⟩ := typeAt_of_parseType h
  obtain ⟨used, hused, hderived⟩ := typeAt_sound _ _ _ _ hread
  rw [List.append_nil] at hused
  subst hused
  refine ⟨ls, hls, fun t ht => ?_, hderived.outlined trivial⟩
  obtain ⟨l, hl, rfl⟩ := List.mem_map.mp ht
  exact scans_of_tokenize hls l hl

section ReadBack

variable {text : String} {t u : Ty}

/-- A type that is read back from its text as an equal one has no names that need quotes: its text
has no quotes but those of its strings. -/
theorem fieldsNamed_of_read (ht : parseType text = .ok t) (hu : parseType t.source = .ok u)
    (hsame : (u == t) = true) : FieldsNamed t := by
  obtain ⟨_, -, hscansT, houtlineT⟩ := outlined_of_parseType ht
  obtain ⟨ls, hls, hscansU, houtlineU⟩ := outlined_of_parseType hu
  have hsource : quotes t.source.toList = 2 * (outline t).countP Atom.quoted :=
    (textQuotes_source t).trans (houtlineT.outlineQuotes_eq hscansT)
  have hstrings := quoted_le_quotes hls
  have hatoms := houtlineU.quoted_le hscansU
  have hperm := same_perm (parseType_written hu) t hsame
  rw [hperm.countP_eq, countP_quoted_or_unnamed] at hatoms
  -- The strings of `t` use up all quotes of its text, and a word that is no name would take more.
  have hnone : (outline t).countP Atom.unnamed = 0 := by omega
  refine fieldsNamed_of_outline fun s hs => ?_
  have hnamed := List.countP_eq_zero.mp hnone _ hs
  simpa [Atom.unnamed] using hnamed

/-- Atoms of the same place in what the grammar derives and in the text of a type. -/
def Meets (a b : Atom) : Prop := ∃ j, Fits .closeParen j a ∧ Fits .greater j b

theorem Meets.word_eq {m n : String} (h : Meets (.word m) (.word n)) : m = n := by
  obtain ⟨j, hm, hn⟩ := h
  exact Option.some.inj (hm.symm.trans hn)

/-- What stands before an application of an application is not both a closing parenthesis and the
end of a list of arguments. -/
theorem Meets.not_applied (h : Meets (.applied true) (.applied true)) : False := by
  obtain ⟨j, hm, hn⟩ := h
  cases (hm.2 rfl).symm.trans (hn.2 rfl)

theorem forall₂_meets {js : List (Token × Token)} {as bs : List Atom}
    (ha : List.Forall₂ (Fits .closeParen) js as) (hb : List.Forall₂ (Fits .greater) js bs) :
    List.Forall₂ Meets as bs := by
  induction ha generalizing bs with
  | nil =>
    cases hb
    exact .nil
  | cons hfirst _ ih =>
    cases hb with
    | cons hfirst' hrest => exact .cons ⟨_, hfirst, hfirst'⟩ (ih hrest)

/-- A type that is read back from its text as an equal one is read back as it is, and no generic
application in it has another one as its base. -/
theorem flat_of_read (hlegible : Legible t) (hu : parseType t.source = .ok u)
    (hsame : (u == t) = true) : Flat t := by
  obtain ⟨ls, hls, -, houtline⟩ := outlined_of_parseType hu
  obtain ⟨ls', hls', htokens⟩ := tokenize_source hlegible
  obtain rfl : ls = ls' := by
    rw [hls] at hls'
    exact Except.ok.inj hls'
  rw [htokens] at houtline
  have hmeets : List.Forall₂ Meets (outline u) (outline t) :=
    forall₂_meets (houtline (.punct .comma)) (tokens_outlined t (.punct .comma))
  -- Equality leaves open where the fields of `u` stand; the tokens that both share do not.
  obtain rfl : u = t := eq_of_same (fun _ _ h => h.word_eq) u t (parseType_written hu) hlegible.1
    hsame hmeets
  refine flat_of_outline fun happlied => ?_
  exact (List.forall₂_same.mp hmeets _ happlied).not_applied

end ReadBack

/-- **A type is read back from its text exactly where nothing in it needs protection.** For every
type that was read, its text is read as an equal type if and only if the names of its fields need no
quotes and no generic application in it has another one as its base. -/
theorem source_read_back_iff {text : String} {t : Ty} (h : parseType text = .ok t) :
    (∃ u, parseType t.source = .ok u ∧ (u == t) = true) ↔ FieldsNamed t ∧ Flat t := by
  constructor
  · rintro ⟨u, hu, hsame⟩
    have hfields := fieldsNamed_of_read h hu hsame
    exact ⟨hfields, flat_of_read ⟨parseType_written h, hfields⟩ hu hsame⟩
  · rintro ⟨hfields, hflat⟩
    exact ⟨t, parseType_of_legible ⟨parseType_written h, hfields⟩ hflat,
      same_refl_of_written (parseType_written h)⟩

/-- A type whose text has parentheses around a union and a function, and quotes around strings. -/
def routeText : String := "(this: Route, 'GET' | 'PUT') => (\x7b 'id': N & (() => A<B>) \x7d | [])<C<D>>"

theorem source_read_back_route : ∃ t, parseType routeText = .ok t ∧ FieldsNamed t ∧ Flat t ∧
    ∃ u, parseType t.source = .ok u ∧ (u == t) = true := by
  have hread : (parseType routeText).toOption.any
      (fun t => decide (FieldsNamed t) && decide (Flat t)) = true := by decide +kernel
  obtain ⟨t, h, hplain⟩ := ok_of_any hread
  rw [Bool.and_eq_true, decide_eq_true_eq, decide_eq_true_eq] at hplain
  exact ⟨t, h, hplain.1, hplain.2, (source_read_back_iff h).mpr hplain⟩

/-- The text of the type that `text` is read as is not read as an equal type. -/
def LostInText (text : String) : Prop :=
  ∃ t, parseType text = .ok t ∧ ¬ ∃ u, parseType t.source = .ok u ∧ (u == t) = true

theorem lostInText_of_any {text : String} (h : (parseType text).toOption.any (fun t =>
    !(parseType t.source).toOption.any (· == t)) = true) : LostInText text := by
  obtain ⟨t, hread, hlost⟩ := ok_of_any h
  refine ⟨t, hread, ?_⟩
  rintro ⟨u, hu, hsame⟩
  simp [hu, hsame, Except.toOption] at hlost

/-- A quoted name, an applied application, and one at the end of a function, where the text is that
of another type. -/
theorem unprotected_lost : LostInText "\x7b \"c-d\": Number \x7d" ∧
    LostInText "(Array<String>)<Number>" ∧ LostInText "() => (A<B>)<C>" :=
  ⟨lostInText_of_any (by decide +kernel), lostInText_of_any (by decide +kernel),
    lostInText_of_any (by decide +kernel)⟩

end Signature
end Countersign
