/-
# Assumed pairs

While a pair of resolved types is being compared, a comparison of the same pair inside it is taken
to fit. That is right because a pair that fails within finitely many steps fails by way of a part
that fails within fewer: the pair itself, met again on the way there, cannot be what that part rests
on. So the verdict on a pair is right under all assumptions about pairs that do not fail sooner than
it does.

Pairs are assumed by their texts. The texts of legible types tell them apart, but the classes that
`null` and `undefined` widen to share theirs with the values. Comparisons of these words are
therefore set apart as leaves, and what is shown here is relative to a system of rules in which the
leaves are decided as comparisons decide them.

Key definitions: `Word`, `Leaf`, `Clean`, `Exact`.
Key theorems: `Exact.decision_ne_true`, `Exact.decision_ne_false`, `Exact.compatible_iff_fits`.
-/
import Countersign.Proofs.Subtype.Steps

namespace Countersign
namespace Subtype

open Signature

/-- A value that has a text in common with the class it widens to, or this class; as long as the
class stands for nothing else. -/
inductive Word (env : Env) : Ty → Prop
  | value {k : ValueKind} : k = .null ∨ k = .undefined → env.plainAlias? k.word = none →
      Word env (.value ⟨k.word, k⟩)
  | cls {k : ValueKind} : k = .null ∨ k = .undefined → env.plainAlias? k.word = none →
      Word env (.named ⟨k.word, false⟩)

/-- A comparison of a word, or one that leads to a word by resolving a name. -/
def Leaf (env : Env) (a e : Ty) : Prop :=
  Word env a ∨ ∃ b f, rule env a e = .expand b f ∧ Word env b

/-- Nothing is assumed about words. -/
def Clean (env : Env) (given : Assumed) : Prop := ∀ w, Word env w → ∀ s, (w.source, s) ∉ given

theorem clean_nil (env : Env) : Clean env [] := fun _ _ _ => List.not_mem_nil

theorem legible_word {k : ValueKind} (h : k = .null ∨ k = .undefined) :
    Legible (.value ⟨k.word, k⟩) := by
  refine legible_iff.mpr ⟨?_, rfl, by simp [Ty.children]⟩
  have htokens : tokenize k.word.toList = .ok [⟨.value ⟨k.word, k⟩, 0⟩] := by
    rcases h with rfl | rfl
    · rfl
    · rfl
  exact scans_of_tokenize htokens _ List.mem_cons_self

/-- A legible type with the text of a word is that word as a value. -/
theorem word_of_source {env : Env} {w t : Ty} (hw : Word env w) (ht : Legible t)
    (h : w.source = t.source) : Word env t := by
  cases hw with
  | value hk hplain =>
    obtain rfl := source_injective (legible_word hk) ht h
    exact .value hk hplain
  | @cls k hk hplain =>
    have hvalue : (Ty.value ⟨k.word, k⟩).source = t.source := h
    obtain rfl := source_injective (legible_word hk) ht hvalue
    exact .value hk hplain

theorem expand_eq {env : Env} {a e b f : Ty} (h : rule env a e = .expand b f) :
    b = env.resolve a ∧ f = env.resolve e := by
  have hasks : (rule env a e).Asks [] b f [key b f] := by
    rw [h]
    exact ⟨rfl, rfl, List.not_mem_nil, rfl⟩
  rcases asks_cases hasks with ⟨-, hafter⟩ | ⟨-, hb, hf, -, -⟩
  · cases hafter
  · exact ⟨hb, hf⟩

/-- Where names are resolved and none leads to a word, what they stand for is legible. -/
theorem legible_of_not_leaf {env : Env} (henv : LegibleEnv env) {a e b f : Ty} (h : Comparable a e)
    (hrule : rule env a e = .expand b f) (hleaf : ¬ Leaf env a e) : Legible b ∧ Legible f := by
  obtain ⟨rfl, rfl⟩ := expand_eq hrule
  refine ⟨?_, resolveWithin_legible henv _ h.expected⟩
  rcases resolve_legible henv h.actual with hb | ⟨⟨k, hk, rfl⟩, hstep, -⟩
  · exact hb
  · exact absurd (.inl (.cls hk hstep)) hleaf

theorem Clean.cons {env : Env} {given : Assumed} (h : Clean env given) {b f : Ty} (hb : Legible b)
    (hword : ¬ Word env b) : Clean env (key b f :: given) := by
  intro w hw s hmem
  rcases List.mem_cons.mp hmem with hkey | hmem
  · exact hword (word_of_source hw hb (congrArg Prod.fst hkey))
  · exact h w hw s hmem

/-- The system has the rules of comparisons, except that leaves are decided as comparisons decide
them; `Q` holds of all pairs that come up. -/
structure Exact (env : Env) (S : System) (Q : Ty → Ty → Prop) : Prop where
  legible : LegibleEnv env
  comparable : ∀ a e, Q a e → Comparable a e
  closed : ∀ a e b f given after, Q a e → (rule env a e).Asks given b f after → Q b f
  rule : ∀ a e, Q a e → ¬ Leaf env a e → S a e = rule env a e
  fits : ∀ depth a e given, Q a e → Leaf env a e → Clean env given →
    decision env depth a e given = some true → Compatible S a e
  differs : ∀ depth a e given, Q a e → Leaf env a e → Clean env given →
    decision env depth a e given = some false → ¬ Compatible S a e

section Exact

variable {env : Env} {S : System} {Q : Ty → Ty → Prop}

/-- The assumptions after a step are as clean as before. -/
theorem Exact.clean (h : Exact env S Q) {a e b f : Ty} {given after : Assumed} (hq : Q a e)
    (hleaf : ¬ Leaf env a e) (hclean : Clean env given)
    (hasks : (Subtype.rule env a e).Asks given b f after) : Clean env after := by
  rcases asks_cases hasks with ⟨-, rfl⟩ | ⟨hrule, -, -, -, rfl⟩
  · exact hclean
  · have hb := (legible_of_not_leaf h.legible (h.comparable a e hq) hrule hleaf).1
    exact hclean.cons hb fun hword => hleaf (.inr ⟨b, f, hrule, hword⟩)

/-- A pair that fails within `n + 1` steps is not found to fit under assumptions about pairs that do
not fail within `n`. -/
theorem Exact.decision_ne_true (h : Exact env S Q) (depth : Nat) : ∀ (n : Nat) (a e : Ty)
    (given : Assumed), Q a e → Clean env given → FailsWithin S (n + 1) a e →
      (∀ b f, Legible b → Legible f → key b f ∈ given → ¬ FailsWithin S n b f) →
        decision env depth a e given ≠ some true := by
  induction depth with
  | zero =>
    intro n a e given _ _ _ _ htrue
    cases htrue
  | succ depth ih =>
    intro n a e given hq hclean hfails hgiven
    by_cases hleaf : Leaf env a e
    · intro htrue
      exact compatible_iff.mp (h.fits _ a e given hq hleaf hclean htrue) (n + 1) hfails
    · have hrule := h.rule a e hq hleaf
      rw [decision_succ]
      refine decide_ne_true (P := fun b f => ¬ FailsWithin S n b f) ?_ ?_ ?_
      · rw [← hrule]
        exact hfails
      · intro b f after hasks hbf
        have hq' := h.closed a e b f given after hq hasks
        have hclean' := h.clean hq hleaf hclean hasks
        obtain ⟨m, hm, hfirst, hsooner⟩ := FailsWithin.first (not_not.mp hbf)
        refine ih m b f after hq' hclean' hfirst fun b' f' hb' hf' hmem => ?_
        have hold : key b' f' ∈ given → ¬ FailsWithin S m b' f' := fun hmem hm' =>
          hgiven b' f' hb' hf' hmem (hm'.mono (by omega))
        rcases asks_cases hasks with ⟨-, rfl⟩ | ⟨hexpand, -, -, -, rfl⟩
        · exact hold hmem
        · rcases List.mem_cons.mp hmem with hkey | hmem
          · obtain ⟨hb, hf⟩ := legible_of_not_leaf h.legible (h.comparable a e hq) hexpand hleaf
            obtain rfl := source_injective hb' hb (congrArg Prod.fst hkey)
            obtain rfl := source_injective hf' hf (congrArg Prod.snd hkey)
            exact hsooner
          · exact hold hmem
      · intro b f hexpand hmem
        obtain ⟨hb, hf⟩ := legible_of_not_leaf h.legible (h.comparable a e hq) hexpand hleaf
        exact hgiven b f hb hf hmem

/-- Compatible types are not found to differ. -/
theorem Exact.decision_ne_false (h : Exact env S Q) (depth : Nat) : ∀ (a e : Ty)
    (given : Assumed), Q a e → Clean env given → Compatible S a e →
      decision env depth a e given ≠ some false := by
  induction depth with
  | zero =>
    intro a e given _ _ _ hfalse
    cases hfalse
  | succ depth ih =>
    intro a e given hq hclean hcompatible
    by_cases hleaf : Leaf env a e
    · intro hfalse
      exact h.differs _ a e given hq hleaf hclean hfalse hcompatible
    · have hholds := compatible_consistent S a e hcompatible
      rw [h.rule a e hq hleaf] at hholds
      rw [decision_succ]
      refine decide_ne_false hholds fun b f after hasks hbf => ?_
      exact ih b f after (h.closed a e b f given after hq hasks) (h.clean hq hleaf hclean hasks) hbf

/-- **A verdict reached under an assumption about nothing but the pair itself is right.** -/
theorem Exact.decision_iff (h : Exact env S Q) {depth : Nat} {a e : Ty} {given : Assumed}
    {fits : Bool} (hq : Q a e) (hclean : Clean env given)
    (hgiven : ∀ b f, Legible b → Legible f → key b f ∈ given → b = a ∧ f = e)
    (hdecided : decision env depth a e given = some fits) : fits = true ↔ Compatible S a e := by
  constructor
  · rintro rfl
    by_contra hcompatible
    obtain ⟨n, hn⟩ : ∃ n, FailsWithin S n a e := by
      by_contra hnone
      exact hcompatible (compatible_iff.mpr fun n hn => hnone ⟨n, hn⟩)
    obtain ⟨m, -, hfirst, hsooner⟩ := hn.first
    refine h.decision_ne_true depth m a e given hq hclean hfirst (fun b f hb hf hmem => ?_) hdecided
    obtain ⟨rfl, rfl⟩ := hgiven b f hb hf hmem
    exact hsooner
  · intro hcompatible
    have hne := h.decision_ne_false depth a e given hq hclean hcompatible
    rw [hdecided] at hne
    simpa using hne

end Exact

end Subtype
end Countersign
