/-
# Comparisons of words

`null` and `undefined` widen to classes with the same texts, so that an assumption about the value
is taken for one about the class. Without intersections a comparison of a word is a search: it fits
if one of the choices does. If the value fails, it does so at most one step after its class, the
step by which it widens, and so an assumption about the value is about a pair that its class does
not fail sooner than.

Key definitions: `IntersectionFree`, `PlainEnv`.
Key theorems: `value_fails_after_class`, `leaf_compatible`, `rule_exact`.
-/
import Countersign.Proofs.Subtype.Assumptions

namespace Countersign
namespace Subtype

open Signature

/-- No part of the type is an intersection. -/
def IntersectionFree (t : Ty) : Prop := ∀ ms, .intersection ms ∉ t.parts

/-- Whether the outermost node is not an intersection. -/
def nodeFree : Ty → Bool
  | .intersection _ => false
  | _ => true

theorem intersectionFree_iff {t : Ty} :
    (∀ u ∈ t.parts, nodeFree u = true) ↔ IntersectionFree t := by
  constructor
  · exact fun h ms hms => absurd (h _ hms) (by simp [nodeFree])
  · intro h u hu
    cases u with
    | intersection ms => exact absurd hu (h ms)
    | _ => rfl

instance (t : Ty) : Decidable (IntersectionFree t) := decidable_of_iff _ intersectionFree_iff

/-- Named types without parameters, legible and without intersections. -/
def PlainEnv (env : Env) : Prop :=
  ∀ a ∈ env.aliases, a.2.params = [] ∧ Legible a.2.type ∧ IntersectionFree a.2.type

theorem PlainEnv.legible {env : Env} (h : PlainEnv env) : LegibleEnv env := fun a ha => (h a ha).2.1

theorem IntersectionFree.child {t u : Ty} (h : IntersectionFree t) (hu : u ∈ t.children) :
    IntersectionFree u := fun ms hms => h ms (Ty.parts_subset_of_mem_children hu hms)

theorem intersectionFree_named (c : ClassName) : IntersectionFree (.named c) := by
  intro ms hms
  simp [Ty.parts] at hms

/-- Without parameters a step leads to the type that a name was given. -/
theorem step?_stored {env : Env} (henv : ∀ a ∈ env.aliases, a.2.params = []) {t u : Ty}
    (ht : Legible t ∨ ∃ c, t = .named c) (h : env.step? t = some u) :
    ∃ a ∈ env.aliases, a.2.type = u := by
  have hplain : ∀ {name : String}, env.plainAlias? name = some u →
      ∃ a ∈ env.aliases, a.2.type = u := by
    intro name hname
    obtain ⟨a, ha, hbody⟩ := Option.bind_eq_some_iff.mp hname
    split at hbody
    · exact ⟨_, mem_of_lookup ha, Option.some.inj hbody⟩
    · cases hbody
  cases t with
  | named c =>
    rw [Env.step?] at h
    split at h
    · cases h
    · exact hplain h
  | renamed n s => exact hplain h
  | generic b as =>
    rcases ht with ht | ⟨c, hc⟩
    · obtain ⟨a, ha, -⟩ := Option.map_eq_some_iff.mp h
      obtain ⟨a', ha', hlength⟩ := Option.bind_eq_some_iff.mp ha
      obtain ⟨name, -, hlookup⟩ := Option.bind_eq_some_iff.mp ha'
      have hnone : a'.params = [] := henv _ (mem_of_lookup hlookup)
      have hsome : as ≠ [] := ht.node
      rw [hnone] at hlength
      split at hlength
      · rename_i hzero
        exact absurd (List.length_eq_zero_iff.mp (beq_iff_eq.mp hzero).symm) hsome
      · cases hlength
    · cases hc
  | moduleExports t =>
    rcases ht with ht | ⟨c, hc⟩
    · exact absurd ht.node id
    · cases hc
  | _ => cases h

/-- A type stands for itself or for the type that some name was given. -/
theorem resolveWithin_stored {env : Env} (henv : ∀ a ∈ env.aliases, a.2.params = [])
    (hlegible : LegibleEnv env) : ∀ (limit : Nat) {t : Ty}, (Legible t ∨ ∃ c, t = .named c) →
      env.resolveWithin limit t = t ∨ ∃ a ∈ env.aliases, a.2.type = env.resolveWithin limit t
  | 0, _, _ => .inl rfl
  | limit + 1, t, ht => by
    rw [Env.resolveWithin]
    split
    · exact .inl rfl
    · rename_i u hu
      obtain ⟨a, ha, rfl⟩ := step?_stored henv ht hu
      rcases resolveWithin_stored henv hlegible limit (.inl (hlegible a ha)) with hself | hstored
      · rw [hself]
        exact .inr ⟨a, ha, rfl⟩
      · exact .inr hstored

theorem resolve_intersectionFree {env : Env} (henv : PlainEnv env) {t : Ty}
    (ht : Legible t ∨ ∃ c, t = .named c) (h : IntersectionFree t) :
    IntersectionFree (env.resolve t) := by
  rw [Env.resolve]
  rcases resolveWithin_stored (fun a ha => (henv a ha).1) henv.legible Env.resolutionLimit ht with
    hself | ⟨a, ha, hbody⟩
  · rw [hself]
    exact h
  · rw [← hbody]
    exact (henv a ha).2.2

/-- The pairs that come up where nothing has intersections. -/
structure PlainPair (a e : Ty) : Prop where
  comparable : Comparable a e
  actual : IntersectionFree a
  expected : IntersectionFree e

theorem Comparable.named_or_legible {a e : Ty} (h : Comparable a e) :
    Legible a ∨ ∃ c, a = .named c := by
  rcases h.actual with ha | ⟨k, -, rfl⟩
  · exact .inl ha
  · exact .inr ⟨_, rfl⟩

theorem PlainPair.asks {env : Env} (henv : PlainEnv env) {a e b f : Ty} {given after : Assumed}
    (h : PlainPair a e) (hasks : (rule env a e).Asks given b f after) : PlainPair b f := by
  have hcomparable := h.comparable.asks henv.legible hasks
  rcases asks_cases hasks with ⟨hpart, -⟩ | ⟨-, rfl, rfl, -, -⟩
  · cases hpart with
    | actual hb => exact ⟨hcomparable, h.actual.child hb, h.expected⟩
    | expected hf => exact ⟨hcomparable, h.actual, h.expected.child hf⟩
    | both hb hf => exact ⟨hcomparable, h.actual.child hb, h.expected.child hf⟩
    | swapped hb hf => exact ⟨hcomparable, h.expected.child hb, h.actual.child hf⟩
    | widened _ => exact ⟨hcomparable, intersectionFree_named _, h.expected⟩
    | actualOriginal _ => exact ⟨hcomparable, intersectionFree_named _, h.expected⟩
    | expectedOriginal _ => exact ⟨hcomparable, h.actual, intersectionFree_named _⟩
  · exact ⟨hcomparable, resolve_intersectionFree henv h.comparable.named_or_legible h.actual,
      resolve_intersectionFree henv (.inl h.comparable.expected) h.expected⟩

/-! ### Words -/

section Words

variable {env : Env} {k : ValueKind}

theorem resolve_word (hplain : env.plainAlias? k.word = none) :
    env.resolve (.named ⟨k.word, false⟩) = .named ⟨k.word, false⟩ :=
  resolve_of_step?_none (by rw [Env.step?]; exact hplain)

/-- From the class of a word only comparisons of the same class arise. -/
theorem class_asks (hplain : env.plainAlias? k.word = none) {e b f : Ty} {given after : Assumed}
    (h : (rule env (.named ⟨k.word, false⟩) e).Asks given b f after) :
    b = .named ⟨k.word, false⟩ ∧ (after = given ∨ after = key b f :: given) := by
  rcases asks_cases h with ⟨hpart, rfl⟩ | ⟨-, rfl, rfl, -, rfl⟩
  · refine ⟨?_, .inl rfl⟩
    cases hpart with
    | actual hb => cases hb
    | expected _ => rfl
    | both hb _ => cases hb
    | swapped _ hf => cases hf
    | widened ha => cases ha
    | actualOriginal ha => cases ha
    | expectedOriginal _ => rfl
  · exact ⟨resolve_word hplain, .inr rfl⟩

theorem class_ne_true (henv : LegibleEnv env) (hk : k = .null ∨ k = .undefined)
    (hplain : env.plainAlias? k.word = none) (depth : Nat) : ∀ (n : Nat) (e : Ty) (given : Assumed),
      Legible e → FailsWithin (rule env) (n + 1) (.named ⟨k.word, false⟩) e →
      (∀ f, Legible f → (k.word, f.source) ∈ given →
        ¬ FailsWithin (rule env) n (.named ⟨k.word, false⟩) f) →
      decision env depth (.named ⟨k.word, false⟩) e given ≠ some true := by
  induction depth with
  | zero =>
    intro n e given _ _ _ htrue
    cases htrue
  | succ depth ih =>
    intro n e given he hfails hgiven
    have hcomparable : Comparable (.named ⟨k.word, false⟩) e := ⟨.inr ⟨k, hk, rfl⟩, he⟩
    rw [decision_succ]
    refine decide_ne_true (P := fun b f => ¬ FailsWithin (rule env) n b f) hfails ?_ ?_
    · intro b f after hasks hbf
      have hf : Legible f := (hcomparable.asks henv hasks).expected
      obtain ⟨rfl, hafter⟩ := class_asks hplain hasks
      obtain ⟨m, hm, hfirst, hsooner⟩ := FailsWithin.first (not_not.mp hbf)
      refine ih m f after hf hfirst fun f' hf' hmem => ?_
      have hold : (k.word, f'.source) ∈ given →
          ¬ FailsWithin (rule env) m (.named ⟨k.word, false⟩) f' := fun hmem hm' =>
        hgiven f' hf' hmem (hm'.mono (by omega))
      rcases hafter with rfl | rfl
      · exact hold hmem
      · rcases List.mem_cons.mp hmem with hkey | hmem
        · obtain rfl := source_injective hf' hf (congrArg Prod.snd hkey)
          exact hsooner
        · exact hold hmem
    · intro b f hexpand hmem
      obtain ⟨rfl, rfl⟩ := expand_eq hexpand
      rw [resolve_word hplain] at hmem ⊢
      exact hgiven _ (resolveWithin_legible henv _ he) hmem

/-- What a word asks for where nothing but its class is left to compare. -/
theorem rule_value {v : Value} {e : Ty} (hany : e.isAny = false) (hexports : ∀ t, e ≠ .moduleExports t)
    (hvalue : ∀ w, e ≠ .value w) (hunion : ∀ ms, e ≠ .union ms)
    (hintersection : ∀ ms, e ≠ .intersection ms) :
    rule env (.value v) e =
      if v.kind == .undefined && e.isVoid then .fits else .just (.named v.widen) e := by
  have hcond : ((Ty.value v).isAny || e.isAny) = false := by
    rw [hany]
    rfl
  unfold rule
  rw [hcond, if_neg (by decide)]
  cases e with
  | moduleExports t => exact absurd rfl (hexports t)
  | value w => exact absurd rfl (hvalue w)
  | union ms => exact absurd rfl (hunion ms)
  | intersection ms => exact absurd rfl (hintersection ms)
  | _ => rfl

theorem failsWithin_differs {a e : Ty} (h : rule env a e = .differs) (n : Nat) :
    FailsWithin (rule env) (n + 1) a e := by
  intro hholds
  rw [h] at hholds
  exact hholds

theorem not_failsWithin_fits {a e : Ty} (h : rule env a e = .fits) (n : Nat) :
    ¬ FailsWithin (rule env) n a e := by
  cases n with
  | zero => exact id
  | succ n =>
    refine not_not.mpr ?_
    rw [h]
    trivial

theorem failsWithin_just {a e b f : Ty} (h : rule env a e = .just b f) (n : Nat) :
    FailsWithin (rule env) (n + 1) a e ↔ FailsWithin (rule env) n b f := by
  rw [FailsWithin, h]
  simp [Rule.just, Rule.Holds]

theorem failsWithin_any {a e : Ty} {choices : List (Ty × Ty)} (h : rule env a e = .any choices)
    (n : Nat) : FailsWithin (rule env) (n + 1) a e ↔
      ∀ p ∈ choices, FailsWithin (rule env) n p.1 p.2 := by
  rw [FailsWithin, h]
  simp [Rule.Holds]

theorem rule_union {a : Ty} {ms : List Ty} (hany : a.isAny = false)
    (hexports : ∀ t, a ≠ .moduleExports t) (hunion : ∀ ms, a ≠ .union ms) :
    rule env a (.union ms) = .any (ms.map (a, ·)) := by
  have hcond : (a.isAny || (Ty.union ms).isAny) = false := by
    rw [hany]
    rfl
  unfold rule
  rw [hcond, if_neg (by decide)]
  cases a with
  | moduleExports t => exact absurd rfl (hexports t)
  | union ms => exact absurd rfl (hunion ms)
  | _ => rfl

theorem widen_word (hk : k = .null ∨ k = .undefined) :
    Value.widen ⟨k.word, k⟩ = ⟨k.word, false⟩ := by
  rcases hk with rfl | rfl
  · rfl
  · rfl

/-- A word as a value fails at most one step after its class, if it fails at all. -/
theorem value_fails_after_class (hk : k = .null ∨ k = .undefined) {e : Ty} (he : Legible e)
    (hfree : IntersectionFree e) : ∀ n r,
      FailsWithin (rule env) n (.value ⟨k.word, k⟩) e →
      FailsWithin (rule env) r (.named ⟨k.word, false⟩) e →
      FailsWithin (rule env) (r + 1) (.value ⟨k.word, k⟩) e := by
  induction e using Ty.children_induction with
  | step e ih =>
    intro n r hvalue hclass
    obtain ⟨n, rfl⟩ : ∃ m, n = m + 1 :=
      Nat.exists_eq_succ_of_ne_zero fun hzero => by rw [hzero] at hvalue; exact hvalue
    obtain ⟨r, rfl⟩ : ∃ m, r = m + 1 :=
      Nat.exists_eq_succ_of_ne_zero fun hzero => by rw [hzero] at hclass; exact hclass
    by_cases hany : e.isAny = true
    · have hrule : rule env (.value ⟨k.word, k⟩) e = .fits := by
        unfold rule
        rw [hany, Bool.or_true, if_pos rfl]
      exact absurd hvalue (not_failsWithin_fits hrule _)
    · rw [Bool.not_eq_true] at hany
      by_cases hunion : ∃ ms, e = .union ms
      · obtain ⟨ms, rfl⟩ := hunion
        have hv : rule env (.value ⟨k.word, k⟩) (.union ms) = .any (ms.map (_, ·)) :=
          rule_union rfl (by simp) (by simp)
        have hclassAny : (Ty.named ⟨k.word, false⟩).isAny = false := rfl
        have hc : rule env (.named ⟨k.word, false⟩) (.union ms) = .any (ms.map (_, ·)) :=
          rule_union hclassAny (by simp) (by simp)
        rw [failsWithin_any hv] at hvalue ⊢
        rw [failsWithin_any hc] at hclass
        intro p hp
        obtain ⟨m, hm, rfl⟩ := List.mem_map.mp hp
        exact ih m hm (he.child hm) (hfree.child hm) n r (hvalue _ (List.mem_map_of_mem hm))
          (hclass _ (List.mem_map_of_mem hm))
      · by_cases hliteral : ∃ w, e = .value w
        · obtain ⟨w, rfl⟩ := hliteral
          have hrule : rule env (.value ⟨k.word, k⟩) (.value w) =
              if (⟨k.word, k⟩ : Value) == w then .fits else .differs := rfl
          split at hrule
          · exact absurd hvalue (not_failsWithin_fits hrule _)
          · exact failsWithin_differs hrule _
        · have hrule : rule env (.value ⟨k.word, k⟩) e = _ := rule_value hany
            (fun t ht => by subst ht; exact he.node) (fun w hw => hliteral ⟨w, hw⟩)
            (fun ms hms => hunion ⟨ms, hms⟩) fun ms hms => by
              subst hms
              exact hfree ms (Ty.mem_parts_self _)
          split at hrule
          · exact absurd hvalue (not_failsWithin_fits hrule _)
          · rw [widen_word hk] at hrule
            exact (failsWithin_just hrule _).mpr hclass

/-- Values are widened, and never resolved. -/
theorem rule_value_ne_expand {v : Value} {e b f : Ty} : rule env (.value v) e ≠ .expand b f := by
  unfold rule
  split
  · exact Rule.noConfusion
  · cases e <;> dsimp only [Rule.just] <;> first
      | exact Rule.noConfusion
      | (split <;> exact Rule.noConfusion)

/-- From a word as a value only comparisons of the word and of its class arise. -/
theorem value_asks (hk : k = .null ∨ k = .undefined) {e b f : Ty} {given after : Assumed}
    (h : (rule env (.value ⟨k.word, k⟩) e).Asks given b f after) :
    (b = .value ⟨k.word, k⟩ ∨ b = .named ⟨k.word, false⟩) ∧ after = given := by
  rcases asks_cases h with ⟨hpart, rfl⟩ | ⟨hexpand, -⟩
  · refine ⟨?_, rfl⟩
    cases hpart with
    | actual hb => cases hb
    | expected _ => exact .inl rfl
    | both hb _ => cases hb
    | swapped _ hf => cases hf
    | widened hv =>
      cases hv
      exact .inr (by rw [widen_word hk])
    | actualOriginal ha => cases ha
    | expectedOriginal _ => exact .inl rfl
  · exact absurd hexpand rule_value_ne_expand

theorem value_ne_true (henv : LegibleEnv env) (hk : k = .null ∨ k = .undefined)
    (hplain : env.plainAlias? k.word = none) (depth : Nat) : ∀ (n : Nat) (e : Ty) (given : Assumed),
      Legible e → FailsWithin (rule env) (n + 1) (.value ⟨k.word, k⟩) e →
      (∀ f, Legible f → (k.word, f.source) ∈ given →
        ¬ FailsWithin (rule env) (n - 1) (.named ⟨k.word, false⟩) f) →
      decision env depth (.value ⟨k.word, k⟩) e given ≠ some true := by
  induction depth with
  | zero =>
    intro n e given _ _ _ htrue
    cases htrue
  | succ depth ih =>
    intro n e given he hfails hgiven
    have hcomparable : Comparable (.value ⟨k.word, k⟩) e := ⟨.inl (legible_word hk), he⟩
    rw [decision_succ]
    refine decide_ne_true (P := fun b f => ¬ FailsWithin (rule env) n b f) hfails ?_ ?_
    · intro b f after hasks hbf
      have hf : Legible f := (hcomparable.asks henv hasks).expected
      obtain ⟨m, hm, hfirst, -⟩ := FailsWithin.first (not_not.mp hbf)
      obtain ⟨hb, rfl⟩ := value_asks hk hasks
      rcases hb with rfl | rfl
      · exact ih m f after hf hfirst fun f' hf' hmem hm' => hgiven f' hf' hmem (hm'.mono (by omega))
      · exact class_ne_true henv hk hplain depth m f after hf hfirst fun f' hf' hmem hm' =>
          hgiven f' hf' hmem (hm'.mono (by omega))
    · exact fun b f hexpand => absurd hexpand rule_value_ne_expand

end Words

variable {env : Env}

/-- A word that is found to fit under assumptions about other types is compatible. -/
theorem word_compatible (henv : LegibleEnv env) {depth : Nat} {a e : Ty} {given : Assumed}
    (hword : Word env a) (he : Legible e) (hclean : Clean env given)
    (h : decision env depth a e given = some true) : Compatible (rule env) a e := by
  refine compatible_iff.mpr fun n hn => ?_
  obtain ⟨m, -, hfirst, -⟩ := hn.first
  cases hword with
  | value hk hplain =>
    exact value_ne_true henv hk hplain depth m e given he hfirst
      (fun f _ hmem => absurd hmem (hclean _ (.value hk hplain) _)) h
  | cls hk hplain =>
    exact class_ne_true henv hk hplain depth m e given he hfirst
      (fun f _ hmem => absurd hmem (hclean _ (.cls hk hplain) _)) h

/-- A word that is found to fit while it is itself assumed to is compatible. -/
theorem assumed_word_compatible (henv : LegibleEnv env) {k : ValueKind}
    (hk : k = .null ∨ k = .undefined) (hplain : env.plainAlias? k.word = none) {depth : Nat} {e : Ty}
    {given : Assumed} (he : Legible e) (hfree : IntersectionFree e) (hclean : Clean env given)
    (h : decision env depth (.value ⟨k.word, k⟩) e (key (.value ⟨k.word, k⟩) e :: given) = some true) :
    Compatible (rule env) (.value ⟨k.word, k⟩) e := by
  refine compatible_iff.mpr fun n hn => ?_
  obtain ⟨m, -, hfirst, hsooner⟩ := hn.first
  refine value_ne_true henv hk hplain depth m e _ he hfirst (fun f hf hmem hclass => ?_) h
  rcases List.mem_cons.mp hmem with hkey | hmem
  · obtain rfl := source_injective hf he (congrArg Prod.snd hkey)
    cases m with
    | zero => exact hclass
    | succ m => exact hsooner (value_fails_after_class hk he hfree _ _ hfirst hclass)
  · exact hclean _ (.value hk hplain) _ hmem

theorem leaf_compatible (henv : PlainEnv env) {depth : Nat} {a e : Ty} {given : Assumed}
    (hpair : PlainPair a e) (hleaf : Leaf env a e) (hclean : Clean env given)
    (h : decision env depth a e given = some true) : Compatible (rule env) a e := by
  by_cases hword : Word env a
  · exact word_compatible henv.legible hword hpair.comparable.expected hclean h
  · obtain ⟨b, f, hrule, hb⟩ := hleaf.resolve_left hword
    obtain ⟨rfl, rfl⟩ := expand_eq hrule
    cases depth with
    | zero => cases h
    | succ depth =>
      have hkey : key (env.resolve a) (env.resolve e) ∉ given := hclean _ hb _
      rw [decision_succ, hrule, decide_expand, if_neg hkey] at h
      rw [compatible_iff_holds, hrule]
      have he := resolveWithin_legible henv.legible Env.resolutionLimit hpair.comparable.expected
      have hfree := resolve_intersectionFree henv (.inl hpair.comparable.expected) hpair.expected
      rcases resolve_legible henv.legible hpair.comparable.actual with hlegible | ⟨-, -, hself⟩
      · generalize env.resolve a = b at hb h hlegible ⊢
        cases hb with
        | value hk hplain => exact assumed_word_compatible henv.legible hk hplain he hfree hclean h
        | @cls k hk hplain =>
          have hvalue : Ty.value ⟨k.word, k⟩ = _ := source_injective (legible_word hk) hlegible rfl
          cases hvalue
      · rw [hself] at hb
        exact absurd hb hword

/-- Without parameters and intersections comparisons are exact for their own rules. -/
theorem rule_exact (henv : PlainEnv env) : Exact env (rule env) PlainPair where
  legible := henv.legible
  comparable _ _ h := h.comparable
  closed _ _ _ _ _ _ h hasks := h.asks henv hasks
  rule _ _ _ _ := rfl
  fits _ _ _ _ h hleaf hclean htrue := leaf_compatible henv h hleaf hclean htrue
  differs _ _ _ given _ _ _ hfalse hcompatible :=
    decision_ne_false _ hcompatible given hfalse

end Subtype
end Countersign
