/-
# Fitting by shape

What it takes for two types to fit, by the shapes of both: how names are resolved where this comes to
an end, which rule applies to which shapes, and what each rule says about fitting.

Key definitions: `KeepsBuiltins`, `Direct`, `Undivided`.
Key theorems: `settled_eq_false`, `resolve_step`, `rule_expand`, `fits_resolve`, `fits_of_renamed`.
-/
import Countersign.Proofs.Subtype.Leaves

namespace Countersign
namespace Subtype

open Signature

/-! ### Names that come to an end -/

section Names

variable {env : Env}

theorem circles_same {target : Ty} : ∀ (limit : Nat) (stored : Bool) (t : Ty),
    env.circles target limit stored t = true → (env.resolveWithin limit t == target) = true
  | 0, stored, t, h => by
    rw [Env.circles, Bool.and_eq_true] at h
    exact h.2
  | limit + 1, stored, t, h => by
    rw [Env.circles] at h
    rw [Env.resolveWithin]
    split at h
    · cases h
    · rename_i u hu
      exact circles_same limit _ u h

theorem sameAll_length : ∀ ts us : List Ty, Ty.sameAll ts us = true → ts.length = us.length
  | [], [], _ => rfl
  | [], _ :: _, h => by cases h
  | _ :: _, [], h => by cases h
  | t :: ts, u :: us, h => by
    rw [Ty.sameAll, Bool.and_eq_true] at h
    rw [List.length_cons, List.length_cons, sameAll_length ts us h.2]

theorem literalName_of_same {t u : Ty} (h : Ty.same t u = true) : t.literalName = u.literalName := by
  cases t <;> cases u <;> first
    | rfl
    | cases h
    | simp_all [Ty.same, Ty.literalName]

/-- Whether a step applies depends on what equal types have in common. -/
theorem step?_isSome_of_same {t u : Ty} (h : Ty.same t u = true) :
    (env.step? t).isSome = (env.step? u).isSome := by
  cases t with
  | generic b as =>
    cases u with
    | generic c bs =>
      rw [Ty.same, Bool.and_eq_true] at h
      have hname := literalName_of_same h.1
      have hlength := sameAll_length as bs h.2
      simp only [Env.step?, Env.genericAlias?, hname, hlength, Option.isSome_map]
    | _ => cases h
  | named c => cases u <;> first | cases h | simp_all [Ty.same]
  | renamed n s => cases u <;> first | cases h | simp_all [Ty.same, Env.step?]
  | _ => cases u <;> first | rfl | cases h

/-- A type that a step applies to is not settled if its resolution comes to an end. -/
theorem settled_eq_false {t u : Ty} (hstep : env.step? t = some u)
    (hends : env.step? (env.resolve t) = none) : env.settled t = false := by
  rw [Env.settled, hstep, Option.isNone_some, Bool.false_or]
  by_contra hcircles
  rw [Bool.not_eq_false] at hcircles
  have hsame : (env.step? (env.resolve t)).isSome = (env.step? t).isSome :=
    step?_isSome_of_same (circles_same _ _ _ hcircles)
  rw [hends, hstep] at hsame
  cases hsame

/-- One step does not change where a resolution ends. -/
theorem resolve_step {t u : Ty} (hstep : env.step? t = some u)
    (hends : env.step? (env.resolve t) = none) : env.resolve u = env.resolve t := by
  have hmore : ∀ (limit : Nat) (v : Ty), env.step? (env.resolveWithin limit v) = none →
      env.resolveWithin (limit + 1) v = env.resolveWithin limit v := by
    intro limit
    induction limit with
    | zero =>
      intro v hv
      simp only [Env.resolveWithin] at hv ⊢
      rw [hv]
    | succ limit ih =>
      intro v hv
      rw [Env.resolveWithin] at hv ⊢
      rw [Env.resolveWithin]
      split
      · rfl
      · rename_i w hw
        rw [hw] at hv
        exact ih w hv
  have hresolve : env.resolve t = env.resolveWithin 63 u := by
    rw [Env.resolve, Env.resolutionLimit, Env.resolveWithin, hstep]
  rw [hresolve] at hends ⊢
  exact hmore 63 u hends

theorem resolve_of_step? {t u v : Ty} (h : env.step? t = some v) (h' : env.step? u = some v) :
    env.resolve t = env.resolve u := by
  rw [Env.resolve, Env.resolve, Env.resolutionLimit, Env.resolveWithin, Env.resolveWithin, h, h']

/-- No named type has the name of a built-in class. -/
def KeepsBuiltins (env : Env) : Prop := ∀ a ∈ env.aliases, isBuiltinClass a.1 = false

theorem KeepsBuiltins.plainAlias? (h : KeepsBuiltins env) {name : String} {t : Ty}
    (hname : env.plainAlias? name = some t) : isBuiltinClass name = false := by
  obtain ⟨a, ha, -⟩ := Option.bind_eq_some_iff.mp hname
  exact h _ (mem_of_lookup ha)

/-- A renamed class leads where the class does. -/
theorem step?_original (h : KeepsBuiltins env) {n s : ClassName} (hlegible : Legible (.renamed n s)) :
    env.step? (.renamed n s) = env.step? (.named s) := by
  have hs : s = .resolve s.name := hlegible.node.2.2.1
  rw [Env.step?, Env.step?]
  split
  · rename_i hbuiltin
    cases hplain : env.plainAlias? s.name with
    | none => rfl
    | some t =>
      rw [hs, ClassName.resolve, h.plainAlias? hplain] at hbuiltin
      cases hbuiltin
  · rfl

end Names

/-! ### Rules by shape -/

/-- Neither a value, nor renamed, nor a wrapper or a connective. -/
def Direct : Ty → Prop
  | .named _ | .function _ _ _ | .object _ | .generic _ _ | .tuple _ => True
  | _ => False

/-- Neither a union nor an intersection. -/
def Undivided : Ty → Prop
  | .union _ | .intersection _ => False
  | _ => True

instance : DecidablePred Direct := fun t => by
  cases t <;> simp only [Direct] <;> infer_instance

instance : DecidablePred Undivided := fun t => by
  cases t <;> simp only [Undivided] <;> infer_instance

section Shapes

variable {env : Env} {a e : Ty}

theorem rule_of_any (h : (a.isAny || e.isAny) = true) : rule env a e = .fits := by
  unfold rule
  rw [if_pos h]

theorem rule_of_union {ms : List Ty} (hany : e.isAny = false)
    (hexports : ∀ t, e ≠ .moduleExports t) :
    rule env (.union ms) e = .all (ms.map fun m => some (m, e)) := by
  have hcond : ((Ty.union ms).isAny || e.isAny) = false := hany
  unfold rule
  rw [hcond, if_neg (by decide)]
  cases e with
  | moduleExports t => exact absurd rfl (hexports t)
  | _ => rfl

theorem rule_intersection {ms : List Ty} (hany : a.isAny = false)
    (hexports : ∀ t, a ≠ .moduleExports t) (hunion : ∀ us, a ≠ .union us) :
    rule env a (.intersection ms) = .all (ms.map fun m => some (a, m)) := by
  have hcond : (a.isAny || (Ty.intersection ms).isAny) = false := by
    rw [hany]
    rfl
  unfold rule
  rw [hcond, if_neg (by decide)]
  cases a with
  | moduleExports t => exact absurd rfl (hexports t)
  | union us => exact absurd rfl (hunion us)
  | _ => rfl

theorem rule_of_intersection {ms : List Ty} (hany : e.isAny = false)
    (hexports : ∀ t, e ≠ .moduleExports t) (he : Undivided e) :
    rule env (.intersection ms) e = .any (ms.map (·, e)) := by
  have hcond : ((Ty.intersection ms).isAny || e.isAny) = false := hany
  unfold rule
  rw [hcond, if_neg (by decide)]
  cases e with
  | moduleExports t => exact absurd rfl (hexports t)
  | union us => exact absurd he id
  | intersection us => exact absurd he id
  | _ => rfl

theorem rule_of_renamed {n s : ClassName} (hany : e.isAny = false)
    (hexports : ∀ t, e ≠ .moduleExports t) (he : Undivided e) :
    rule env (.renamed n s) e = .just (.named s) e := by
  have hcond : ((Ty.renamed n s).isAny || e.isAny) = false := hany
  unfold rule
  rw [hcond, if_neg (by decide)]
  cases e with
  | moduleExports t => exact absurd rfl (hexports t)
  | union us => exact absurd he id
  | intersection us => exact absurd he id
  | _ => rfl

theorem rule_renamed {n s : ClassName} (ha : Direct a) (hany : a.isAny = false) :
    rule env a (.renamed n s) = .just a (.named s) := by
  have hcond : (a.isAny || (Ty.renamed n s).isAny) = false := by
    rw [hany]
    rfl
  unfold rule
  rw [hcond, if_neg (by decide)]
  cases a <;> first | rfl | exact absurd ha id

theorem rule_direct (ha : Direct a) (he : Direct e ∨ ∃ v, e = .value v)
    (hany : (a.isAny || e.isAny) = false) (hne : ∀ c, a = .named c → e ≠ .named c) :
    rule env a e = resolvedRule env a e := by
  unfold rule
  rw [hany, if_neg (by decide)]
  rcases he with he | ⟨v, rfl⟩
  · cases a <;> cases e <;> first
      | rfl
      | exact absurd ha id
      | exact absurd he id
      | skip
    rename_i c d
    have hcd : (c == d) = false := beq_false_of_ne fun h => hne c rfl (congrArg Ty.named h.symm)
    dsimp only
    rw [hcd, if_neg (by decide)]
  · cases a <;> first | rfl | exact absurd ha id

theorem rule_expand (ha : Direct a) (he : Direct e ∨ ∃ v, e = .value v)
    (hany : (a.isAny || e.isAny) = false) (hne : ∀ c, a = .named c → e ≠ .named c)
    (hsettled : env.settled a = false ∨ env.settled e = false) :
    rule env a e = .expand (env.resolve a) (env.resolve e) := by
  rw [rule_direct ha he hany hne, resolvedRule, if_neg]
  rcases hsettled with h | h
  · rw [h, Bool.false_and]
    exact Bool.false_ne_true
  · rw [h, Bool.and_false]
    exact Bool.false_ne_true

end Shapes

/-! ### Fitting by shape -/

section Fits

variable {env : Env} {a e : Ty}

theorem fits_of_rule (h : rule env a e = .fits) : Fits env a e := by
  refine (fits_iff_holds ?_).mpr ?_
  · rintro ⟨-, b, f, hexpand, -⟩
    rw [h] at hexpand
    cases hexpand
  · rw [h]
    trivial

theorem fits_any_left (h : a.isAny = true) : Fits env a e :=
  fits_of_rule (rule_of_any (by rw [h]; rfl))

theorem fits_any_right (h : e.isAny = true) : Fits env a e :=
  fits_of_rule (rule_of_any (by rw [h, Bool.or_true]))

theorem fits_just {b f : Ty} (h : rule env a e = .just b f) : Fits env a e ↔ Fits env b f := by
  rw [fits_iff_holds, h]
  · simp [Rule.just, Rule.Holds]
  · rintro ⟨-, b', f', hexpand, -⟩
    rw [h] at hexpand
    cases hexpand

theorem fits_all {p : Ty → Ty × Ty} {ms : List Ty}
    (h : rule env a e = .all (ms.map fun m => some (p m))) :
    Fits env a e ↔ ∀ m ∈ ms, Fits env (p m).1 (p m).2 := by
  rw [fits_iff_holds, h]
  · simp only [Rule.Holds, List.forall_mem_map, Option.some.injEq, exists_eq_left']
  · rintro ⟨-, b', f', hexpand, -⟩
    rw [h] at hexpand
    cases hexpand

theorem fits_choice {p : Ty → Ty × Ty} {ms : List Ty} (h : rule env a e = .any (ms.map p)) :
    Fits env a e ↔ ∃ m ∈ ms, Fits env (p m).1 (p m).2 := by
  rw [fits_iff_holds, h]
  · simp [Rule.Holds]
  · rintro ⟨-, b', f', hexpand, -⟩
    rw [h] at hexpand
    cases hexpand

/-- Resolving names does not change what fits, unless the first leads to a word. -/
theorem fits_expand {b f : Ty} (h : rule env a e = .expand b f) (hword : ¬ Word env b) :
    Fits env a e ↔ Fits env b f := by
  rw [fits_iff_holds, h]
  · rfl
  · rintro ⟨-, b', f', hexpand, hb⟩
    rw [h] at hexpand
    cases hexpand
    exact hword hb

theorem exists_mem_of_union {ms : List Ty} (h : Legible (.union ms)) : ∃ m, m ∈ ms := by
  have hlength : 2 ≤ ms.length := h.node
  exact List.exists_mem_of_length_pos (by omega)

theorem exists_mem_of_intersection {ms : List Ty} (h : Legible (.intersection ms)) :
    ∃ m, m ∈ ms := by
  have hlength : 2 ≤ ms.length := h.node
  exact List.exists_mem_of_length_pos (by omega)

theorem Direct.ne_union (h : Direct a) (ms : List Ty) : a ≠ .union ms := by
  rintro rfl
  exact h

theorem Direct.ne_exports (h : Direct a) (t : Ty) : a ≠ .moduleExports t := by
  rintro rfl
  exact h

theorem legible_ne_exports (h : Legible e) (t : Ty) : e ≠ .moduleExports t := by
  rintro rfl
  exact h.node

theorem Direct.undivided (h : Direct a) : Undivided a := by
  cases a <;> first | exact trivial | exact absurd h id

theorem Direct.ne_value (h : Direct a) (v : Value) : a ≠ .value v := by
  rintro rfl
  exact h

/-- What is no union fits a union if it fits one of its members. -/
theorem fits_union_choice {ms : List Ty} (hexports : ∀ t, a ≠ .moduleExports t)
    (hunion : ∀ us, a ≠ .union us) (he : Legible (.union ms)) :
    Fits env a (.union ms) ↔ ∃ m ∈ ms, Fits env a m := by
  cases hany : a.isAny with
  | true =>
    obtain ⟨m, hm⟩ := exists_mem_of_union he
    exact ⟨fun _ => ⟨m, hm, fits_any_left hany⟩, fun _ => fits_any_left hany⟩
  | false => exact fits_choice (rule_union hany hexports hunion)

theorem fits_union_iff {ms : List Ty} (ha : Direct a) (he : Legible (.union ms)) :
    Fits env a (.union ms) ↔ ∃ m ∈ ms, Fits env a m :=
  fits_union_choice ha.ne_exports ha.ne_union he

/-- A union fits if all its members do. -/
theorem fits_of_union_iff {us : List Ty} (he : Legible e) :
    Fits env (.union us) e ↔ ∀ u ∈ us, Fits env u e := by
  cases hany : e.isAny with
  | true => exact ⟨fun _ _ _ => fits_any_right hany, fun _ => fits_any_right hany⟩
  | false => exact fits_all (rule_of_union hany (legible_ne_exports he))

/-- An intersection fits if one of its members does, where there is nothing to take apart. -/
theorem fits_of_intersection_iff {us : List Ty} (hus : Legible (.intersection us))
    (he : Legible e) (hundivided : Undivided e) :
    Fits env (.intersection us) e ↔ ∃ u ∈ us, Fits env u e := by
  cases hany : e.isAny with
  | true =>
    obtain ⟨u, hu⟩ := exists_mem_of_intersection hus
    exact ⟨fun _ => ⟨u, hu, fits_any_right hany⟩, fun _ => fits_any_right hany⟩
  | false => exact fits_choice (rule_of_intersection hany (legible_ne_exports he) hundivided)

/-- A value fits if its class does, except that `undefined` is a value of `void`. -/
theorem fits_of_value_iff {v : Value} (he : Legible e) (hundivided : Undivided e)
    (hvalue : ∀ w, e ≠ .value w) (hvoid : v.kind = .undefined → e.isVoid = false) :
    Fits env (.value v) e ↔ Fits env (.named v.widen) e := by
  cases hany : e.isAny with
  | true => exact ⟨fun _ => fits_any_right hany, fun _ => fits_any_right hany⟩
  | false =>
    refine fits_just ?_
    rw [rule_value hany (legible_ne_exports he) hvalue
      (fun ms hms => by subst hms; exact hundivided) fun ms hms => by subst hms; exact hundivided,
      if_neg]
    rw [Bool.and_eq_true, beq_iff_eq]
    rintro ⟨hkind, hisVoid⟩
    rw [hvoid hkind] at hisVoid
    cases hisVoid

theorem fits_intersection_iff {ms : List Ty} (ha : Direct a) :
    Fits env a (.intersection ms) ↔ ∀ m ∈ ms, Fits env a m := by
  cases hany : a.isAny with
  | true => exact ⟨fun _ _ _ => fits_any_left hany, fun _ => fits_any_left hany⟩
  | false => exact fits_all (rule_intersection hany ha.ne_exports ha.ne_union)

theorem fits_renamed_iff {n s : ClassName} (ha : Direct a) :
    Fits env a (.renamed n s) ↔ Fits env a (.named s) := by
  cases hany : a.isAny with
  | true => exact ⟨fun _ => fits_any_left hany, fun _ => fits_any_left hany⟩
  | false => exact fits_just (rule_renamed ha hany)

/-- No step applies to a built-in class. -/
theorem isBuiltin_of_step? {t u : Ty} (h : env.step? t = some u) (name : String) :
    t.isBuiltin name = false := by
  cases t with
  | named c =>
    rw [Env.step?] at h
    split at h
    · cases h
    · rename_i hbuiltin
      rw [Ty.isBuiltin, ClassName.isBuiltin, Bool.eq_false_iff.mpr hbuiltin, Bool.false_and]
  | _ => rfl

theorem isAny_of_step? {t u : Ty} (h : env.step? t = some u) : t.isAny = false :=
  isBuiltin_of_step? h "Any"

/-- A type that stands for itself is no hidden word. -/
theorem not_hidden_of_step?_none (hstep : env.step? a = none) : ¬ Hidden env a e := by
  rintro ⟨hword, b, f, hexpand, hb⟩
  obtain ⟨rfl, -⟩ := expand_eq hexpand
  rw [resolve_of_step?_none hstep] at hb
  exact hword hb

/-- **A type that stands for itself fits a name if it fits what the name stands for.** -/
theorem fits_resolve (ha : Direct a) (hstep : env.step? a = none) (he : Direct e)
    (hends : env.step? (env.resolve e) = none) : Fits env a e ↔ Fits env a (env.resolve e) := by
  cases hstep' : env.step? e with
  | none => rw [resolve_of_step?_none hstep']
  | some t =>
    cases hany : a.isAny with
    | true => exact ⟨fun _ => fits_any_left hany, fun _ => fits_any_left hany⟩
    | false =>
      have hne : ∀ c, a = .named c → e ≠ .named c := by
        rintro c rfl rfl
        rw [hstep] at hstep'
        cases hstep'
      have hrule : rule env a e = .expand (env.resolve a) (env.resolve e) :=
        rule_expand ha (.inl he) (by rw [hany, isAny_of_step? hstep']; rfl) hne
          (.inr (settled_eq_false hstep' hends))
      rw [resolve_of_step?_none hstep] at hrule
      rw [fits_iff_holds (not_hidden_of_step?_none hstep), hrule]
      rfl

/-- Names that lead to a pair that fits at once fit. -/
theorem fits_of_expand {b f : Ty} (h : rule env a e = .expand b f) (hbf : rule env b f = .fits) :
    Fits env a e := by
  by_cases hhidden : Hidden env a e
  · refine (fits_iff_of_hidden hhidden).mpr ⟨2, ?_⟩
    rw [decision_succ, h, decide_expand, if_neg List.not_mem_nil, decision_succ, hbf]
    rfl
  · rw [fits_iff_holds hhidden, h]
    exact fits_of_rule hbf

theorem fits_self_named (c : ClassName) : Fits env (.named c) (.named c) := by
  refine fits_of_rule ?_
  unfold rule
  split
  · rfl
  · dsimp only
    rw [beq_self_eq_true, if_pos rfl]

/-- A renamed class fits what the class fits. -/
theorem fits_of_renamed {n s : ClassName} (he : Legible e) :
    Fits env (.renamed n s) e ↔ Fits env (.named s) e := by
  induction e using Ty.children_induction with
  | step e ih =>
    cases hany : e.isAny with
    | true => exact ⟨fun _ => fits_any_right hany, fun _ => fits_any_right hany⟩
    | false =>
      have hdirect : Direct (.named s) := trivial
      by_cases hundivided : Undivided e
      · exact fits_just (rule_of_renamed hany (legible_ne_exports he) hundivided)
      · cases e with
        | union ms =>
          rw [fits_choice (rule_union rfl (by simp) (by simp)), fits_union_iff hdirect he]
          exact exists_congr fun m => and_congr_right fun hm => ih m hm (he.child hm)
        | intersection ms =>
          rw [fits_all (rule_intersection rfl (by simp) (by simp)), fits_intersection_iff hdirect]
          exact forall₂_congr fun m hm => ih m hm (he.child hm)
        | _ => exact absurd trivial hundivided

theorem not_word_of_direct (ha : Direct a) (hlegible : Legible a) : ¬ Word env a := by
  rintro (⟨hk, -⟩ | ⟨hk, -⟩)
  · exact ha
  · cases source_injective (legible_word hk) hlegible rfl

end Fits

end Subtype
end Countersign
