/-
# Verdicts by rules alone

Where a name stands for `null` or `undefined`, the text of what it stands for is also that of the
class that this widens to, and a verdict on the name can rest on an assumption about the other of
the two. These pairs are hidden words. In `leafSystem` they have the verdict that comparisons reach,
and all other pairs have the rules of comparisons.

Two types fit by these rules (`Fits`) if and only if a comparison that comes to an end finds that
they do. Nothing is assumed in `Fits`, so that names can be replaced by what they stand for, rule by
rule.

Key definitions: `Hidden`, `leafSystem`, `Fits`.
Key theorems: `leafSystem_exact`, `decision_iff_fits`, `fits_iff_holds`.
-/
import Countersign.Proofs.Subtype.Words

namespace Countersign
namespace Subtype

open Signature

variable {env : Env}

/-! ### Words among assumptions -/

/-- From a word only comparisons of words arise. -/
theorem Word.asks {a e b f : Ty} {given after : Assumed} (h : Word env a)
    (hasks : (rule env a e).Asks given b f after) :
    Word env b ∧ (after = given ∨ after = key b f :: given) := by
  cases h with
  | value hk hplain =>
    obtain ⟨hb, hafter⟩ := value_asks hk hasks
    refine ⟨?_, .inl hafter⟩
    rcases hb with rfl | rfl
    · exact .value hk hplain
    · exact .cls hk hplain
  | cls hk hplain =>
    obtain ⟨rfl, hafter⟩ := class_asks hplain hasks
    exact ⟨.cls hk hplain, hafter⟩

theorem Word.expand {a e b f : Ty} (h : Word env a) (hrule : rule env a e = .expand b f) :
    Word env b := by
  have hasks : (rule env a e).Asks [] b f [key b f] := by
    rw [hrule]
    exact ⟨rfl, rfl, List.not_mem_nil, rfl⟩
  exact (h.asks hasks).1

/-- Both sets of assumptions say the same about words. -/
def AgreeOnWords (env : Env) (given given' : Assumed) : Prop :=
  ∀ w, Word env w → ∀ s, (w.source, s) ∈ given ↔ (w.source, s) ∈ given'

theorem AgreeOnWords.cons {given given' : Assumed} (h : AgreeOnWords env given given')
    (k : String × String) : AgreeOnWords env (k :: given) (k :: given') := by
  intro w hw s
  rw [List.mem_cons, List.mem_cons, h w hw s]

/-- Only assumptions about words matter to comparisons of words. -/
theorem Word.decision_congr (depth : Nat) : ∀ {a : Ty} (e : Ty) {given given' : Assumed},
    Word env a → AgreeOnWords env given given' →
      decision env depth a e given = decision env depth a e given' := by
  induction depth with
  | zero => exact fun _ _ _ _ _ => rfl
  | succ depth ih =>
    intro a e given given' hword hagree
    rw [decision_succ, decision_succ]
    refine decide_congr (fun b f after after' hasks hasks' => ?_) fun b f hrule => ?_
    · have hb := (hword.asks hasks).1
      refine ih f hb ?_
      rcases asks_cases hasks with ⟨-, rfl⟩ | ⟨hrule, -, -, -, rfl⟩
      · rcases asks_cases hasks' with ⟨-, rfl⟩ | ⟨hrule, -⟩
        · exact hagree
        · rw [hrule] at hasks
          exact absurd hasks.2.2.2.symm (List.cons_ne_self _ _)
      · rw [hrule] at hasks'
        obtain ⟨-, -, -, rfl⟩ := hasks'
        exact hagree.cons _
    · exact hagree b (hword.expand hrule) f.source

theorem Clean.agreeOnWords {given : Assumed} (h : Clean env given) : AgreeOnWords env given [] :=
  fun w hw s => ⟨fun hmem => absurd hmem (h w hw s), fun hmem => absurd hmem List.not_mem_nil⟩

/-! ### Hidden words -/

/-- The first type is not a word and stands for one. -/
def Hidden (env : Env) (a e : Ty) : Prop :=
  ¬ Word env a ∧ ∃ b f, rule env a e = .expand b f ∧ Word env b

/-- A hidden word is decided as if nothing were assumed. -/
theorem Hidden.decision_eq {a e : Ty} (h : Hidden env a e) {given : Assumed}
    (hclean : Clean env given) (depth : Nat) :
    decision env depth a e given = decision env depth a e [] := by
  obtain ⟨-, b, f, hrule, hb⟩ := h
  cases depth with
  | zero => rfl
  | succ depth =>
    have hkey : key b f ∉ given := hclean b hb f.source
    rw [decision_succ, decision_succ, hrule, decide_expand, decide_expand, if_neg hkey,
      if_neg List.not_mem_nil]
    exact hb.decision_congr depth f (hclean.agreeOnWords.cons _)

theorem decision_unique {depth depth' : Nat} {a e : Ty} {given : Assumed} {fits fits' : Bool}
    (h : decision env depth a e given = some fits)
    (h' : decision env depth' a e given = some fits') : fits = fits' := by
  have hmax := decision_mono (le_max_left depth depth') a e given fits h
  have hmax' := decision_mono (le_max_right depth depth') a e given fits' h'
  rw [hmax] at hmax'
  exact Option.some.inj hmax'

open Classical in
/-- The rules of comparisons, with hidden words decided as comparisons decide them. -/
noncomputable def leafSystem (env : Env) : System := fun a e =>
  if Hidden env a e then
    if ∃ depth, decision env depth a e [] = some true then .fits else .differs
  else rule env a e

/-- The types fit by the rules alone, without any assumptions. -/
def Fits (env : Env) (a e : Ty) : Prop := Compatible (leafSystem env) a e

theorem fits_iff_holds {a e : Ty} (h : ¬ Hidden env a e) :
    Fits env a e ↔ (rule env a e).Holds (Fits env) := by
  unfold Fits
  rw [compatible_iff_holds, leafSystem, if_neg h]

theorem fits_iff_of_hidden {a e : Ty} (h : Hidden env a e) :
    Fits env a e ↔ ∃ depth, decision env depth a e [] = some true := by
  unfold Fits
  rw [compatible_iff_holds, leafSystem, if_pos h]
  split
  · rename_i hdecided
    exact ⟨fun _ => hdecided, fun _ => trivial⟩
  · rename_i hdecided
    exact ⟨fun hfalse => absurd hfalse id, hdecided⟩

theorem Rule.Holds.mono_asks {R R' : Ty → Ty → Prop} {r : Rule} (h : r.Holds R)
    (hR : ∀ b f after, r.Asks [] b f after → R b f → R' b f) : r.Holds R' := by
  cases r with
  | fits => trivial
  | differs => exact h
  | all parts =>
    intro part hpart
    obtain ⟨p, rfl, hp⟩ := h part hpart
    exact ⟨p, rfl, hR p.1 p.2 [] ⟨hpart, rfl⟩ hp⟩
  | any choices =>
    obtain ⟨p, hmem, hp⟩ := h
    exact ⟨p, hmem, hR p.1 p.2 [] ⟨hmem, rfl⟩ hp⟩
  | expand a e => exact hR a e _ ⟨rfl, rfl, List.not_mem_nil, rfl⟩ h

/-- Words fit by these rules if and only if they do by those of comparisons. -/
theorem Word.fits_iff {a e : Ty} (h : Word env a) :
    Fits env a e ↔ Compatible (rule env) a e := by
  have hrule : ∀ b f, Word env b → leafSystem env b f = rule env b f := fun b f hb =>
    if_neg fun hhidden => hhidden.1 hb
  constructor
  · intro hfits
    refine ⟨fun b f => Word env b ∧ Fits env b f, fun b f hbf => ?_, h, hfits⟩
    have hholds := compatible_consistent _ b f hbf.2
    rw [hrule b f hbf.1] at hholds
    exact hholds.mono_asks fun _ _ _ hasks hfits' => ⟨(hbf.1.asks hasks).1, hfits'⟩
  · intro hcompatible
    refine ⟨fun b f => Word env b ∧ Compatible (rule env) b f, fun b f hbf => ?_, h, hcompatible⟩
    rw [hrule b f hbf.1]
    have hholds := compatible_consistent _ b f hbf.2
    exact hholds.mono_asks fun _ _ _ hasks hfits' => ⟨(hbf.1.asks hasks).1, hfits'⟩

/-- Comparisons of legible types are exact for these rules, whatever the named types are. -/
theorem leafSystem_exact (henv : LegibleEnv env) : Exact env (leafSystem env) Comparable where
  legible := henv
  comparable _ _ h := h
  closed _ _ _ _ _ _ h hasks := h.asks henv hasks
  rule _ _ _ hleaf := if_neg fun hhidden => hleaf (.inr hhidden.2)
  fits depth a e given hpair hleaf hclean htrue := by
    by_cases hword : Word env a
    · exact hword.fits_iff.mpr (word_compatible henv hword hpair.expected hclean htrue)
    · have hhidden : Hidden env a e := ⟨hword, hleaf.resolve_left hword⟩
      rw [hhidden.decision_eq hclean] at htrue
      exact (fits_iff_of_hidden hhidden).mpr ⟨depth, htrue⟩
  differs depth a e given hpair hleaf hclean hfalse hfits := by
    by_cases hword : Word env a
    · exact decision_ne_false depth (hword.fits_iff.mp hfits) given hfalse
    · have hhidden : Hidden env a e := ⟨hword, hleaf.resolve_left hword⟩
      rw [hhidden.decision_eq hclean] at hfalse
      obtain ⟨depth', htrue⟩ := (fits_iff_of_hidden hhidden).mp hfits
      exact absurd (decision_unique hfalse htrue) (by decide)

/-- **A comparison that comes to an end finds out whether its types fit by the rules.** -/
theorem decision_iff_fits (henv : LegibleEnv env) {a e : Ty} (h : Comparable a e) {depth : Nat}
    {fits : Bool} (hdecided : decision env depth a e [] = some fits) :
    fits = true ↔ Fits env a e :=
  (leafSystem_exact henv).decision_iff h (clean_nil env)
    (fun _ _ _ _ hmem => absurd hmem List.not_mem_nil) hdecided

/-- Whether a type fits another depends on the rule for the two of them. -/
theorem fits_congr {a e e' : Ty} (h : rule env a e = rule env a e') :
    Fits env a e ↔ Fits env a e' := by
  have hhidden : Hidden env a e ↔ Hidden env a e' := by
    rw [Hidden, Hidden, h]
  by_cases hword : Hidden env a e
  · rw [fits_iff_of_hidden hword, fits_iff_of_hidden (hhidden.mp hword)]
    refine exists_congr fun depth => ?_
    cases depth with
    | zero => exact Iff.rfl
    | succ depth => rw [decision_succ, decision_succ, h]
  · rw [fits_iff_holds hword, fits_iff_holds (mt hhidden.mpr hword), h]

end Subtype
end Countersign
