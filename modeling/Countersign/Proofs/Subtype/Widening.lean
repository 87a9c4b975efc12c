/-
# What still fits once it is widened or put together

Where a literal value fits a type that does not spell it out, its class fits as well. A union fits
where all its members do, and an object where each wanted field is there and fits.

Key definitions: `SpellsOut`.
Key theorems: `isSubtype_widen`, `isSubtype_unionOf`, `isSubtype_object`, `Env.isSubtype_congr`,
`Env.isSubtype_eq`.
-/
import Countersign.Proofs.Env.Names
import Countersign.Proofs.Subtype.Shapes
import Countersign.Proofs.Subtype.Words
import Countersign.Proofs.Ty.Parts

namespace Countersign

/-! ### Comparisons only look at the named types -/

namespace Env

variable {env env' : Env}

theorem check_congr (h : env.alias? = env'.alias?) (depth : Nat) :
    Subtype.check env depth = Subtype.check env' depth := by
  induction depth with
  | zero => rfl
  | succ depth ih =>
    funext a e
    simp only [Subtype.check, Subtype.compareStep, Subtype.compareResolved, ih, settled_congr h,
      resolve_eq h]

/-- Whether a type fits depends on what the names stand for, and on how large that is. -/
theorem isSubtype_eq (h : env.alias? = env'.alias?) (hsize : env.aliasSize = env'.aliasSize)
    (a e : Ty) : env.isSubtype a e = env'.isSubtype a e := by
  have hdepth : env.comparisonDepth a e = env'.comparisonDepth a e := by
    rw [comparisonDepth, comparisonDepth, hsize]
  rw [isSubtype, isSubtype, hdepth, check_congr h]

/-- Whether a type fits depends on the named types only. -/
theorem isSubtype_congr (h : env.aliases = env'.aliases) (a e : Ty) :
    env.isSubtype a e = env'.isSubtype a e := by
  have hsize : env.aliasSize = env'.aliasSize := by rw [aliasSize, aliasSize, h]
  exact isSubtype_eq (alias?_congr h) hsize a e

theorem size_lt_comparisonDepth (env : Env) (a e : Ty) : e.size < env.comparisonDepth a e := by
  unfold comparisonDepth
  dsimp only
  nlinarith

/-- Larger types are compared more deeply. -/
theorem comparisonDepth_lt {a e a' e' : Ty} (h : a.size + e.size < a'.size + e'.size) :
    env.comparisonDepth a e + e'.size < env.comparisonDepth a' e' := by
  unfold comparisonDepth
  dsimp only
  generalize hn : 2 * (env.aliasSize + a.size + e.size) + 8 = n
  generalize hn' : 2 * (env.aliasSize + a'.size + e'.size) + 8 = n'
  have hlt : n + 2 ≤ n' := by omega
  have he' : e'.size < n' := by omega
  have hsquare : n * n + 1 ≤ n' * n' + 1 := by nlinarith
  calc (n * n + 1) * (2 * n) + e'.size
      ≤ (n' * n' + 1) * (2 * n) + e'.size :=
        Nat.add_le_add_right (Nat.mul_le_mul_right _ hsquare) _
    _ < (n' * n' + 1) * (2 * n) + (n' * n' + 1) * 4 := by nlinarith
    _ = (n' * n' + 1) * (2 * n + 4) := by ring
    _ ≤ (n' * n' + 1) * (2 * n') := Nat.mul_le_mul_left _ (by omega)

end Env

namespace Subtype

/-! ### Literal values -/

/-- The type names the literal value itself, alone or among others; `void` names `undefined`. -/
inductive SpellsOut (v : Value) : Ty → Prop
  | value : SpellsOut v (.value v)
  | void : v.kind = .undefined → SpellsOut v .void
  | union {ms : List Ty} {m : Ty} : m ∈ ms → SpellsOut v m → SpellsOut v (.union ms)
  | intersection {ms : List Ty} {m : Ty} : m ∈ ms → SpellsOut v m → SpellsOut v (.intersection ms)
  | moduleExports {t : Ty} : SpellsOut v t → SpellsOut v (.moduleExports t)

/-- No class spells out a value, unless the value is `undefined`. -/
theorem not_spellsOut_named {v : Value} (hkind : v.kind ≠ .undefined) (c : ClassName) :
    ¬ SpellsOut v (.named c) := by
  intro h
  generalize ht : Ty.named c = t at h
  cases h with
  | void hundefined => exact hkind hundefined
  | _ => cases ht

theorem eq_void_of_isVoid {t : Ty} (h : t.isVoid = true) : t = .void := by
  cases t with
  | named c =>
    obtain ⟨name, builtin⟩ := c
    simp [Ty.isVoid, Ty.isBuiltin, ClassName.isBuiltin] at h
    rw [h.1, h.2]
    rfl
  | _ => cases h

theorem widen_isAny (v : Value) : (Ty.named v.widen).isAny = false := by
  obtain ⟨text, kind⟩ := v
  cases kind <;> rfl

section Values

variable {env : Env} {v : Value}

/-- A class that stands for itself is no literal value. -/
theorem decision_class_value (h : env.step? (.named v.widen) = none) (w : Value) (depth : Nat)
    (given : Assumed) :
    decision env (depth + 1) (.named v.widen) (.value w) given = some false := by
  have hrule : rule env (.named v.widen) (.value w) = .differs := by
    have hany : ((Ty.named v.widen).isAny || (Ty.value w).isAny) = false := by
      rw [widen_isAny]
      rfl
    have hdirect : rule env (.named v.widen) (.value w) =
        resolvedRule env (.named v.widen) (.value w) :=
      rule_direct trivial (.inr ⟨w, rfl⟩) hany fun _ _ => nofun
    rw [hdirect, resolvedRule, Env.settled, h]
    rfl
  rw [decision_succ, hrule]
  rfl

/-- The exports wrapper of the wanted type is looked through. -/
theorem rule_exports {a t : Ty} (hany : a.isAny = false) (hexports : ∀ u, a ≠ .moduleExports u) :
    rule env a (.moduleExports t) = .just a t := by
  have hcond : (a.isAny || (Ty.moduleExports t).isAny) = false := by
    rw [hany]
    rfl
  unfold rule
  rw [hcond, if_neg (by decide)]
  cases a with
  | moduleExports u => exact absurd rfl (hexports u)
  | _ => rfl

theorem rule_value_value (w : Value) :
    rule env (.value v) (.value w) = if v == w then .fits else .differs := rfl

theorem extends_map {ask ask' : Ty → Option Bool} {ts : List Ty}
    (h : ∀ t ∈ ts, Extends (ask t) (ask' t)) :
    List.Forall₂ Extends (ts.map ask) (ts.map ask') := by
  rw [List.forall₂_map_left_iff, List.forall₂_map_right_iff]
  exact List.forall₂_same.mpr h

/-- What is decided about a literal value is decided the same about its class, unless the value is
spelled out. -/
theorem widen_extends (hstep : env.step? (.named v.widen) = none) (depth : Nat) :
    ∀ {t : Ty}, ¬ SpellsOut v t → ∀ given, Extends (decision env depth (.value v) t given)
      (decision env depth (.named v.widen) t given) := by
  induction depth with
  | zero => exact fun _ _ fits hfits => by cases hfits
  | succ depth ih =>
    intro t hspells given
    have hclass := widen_isAny v
    have hlooked : t.isAny = false → (∀ u, t ≠ .moduleExports u) → (∀ w, t ≠ .value w) →
        (∀ ms, t ≠ .union ms) → (∀ ms, t ≠ .intersection ms) →
        Extends ((rule env (.value v) t).decide (decision env depth) given)
          ((rule env (.named v.widen) t).decide (decision env depth) given) := by
      intro hany hexports hvalue hunion hintersection
      have hvoid : (v.kind == .undefined && t.isVoid) = false := by
        rw [Bool.eq_false_iff, ne_eq, Bool.and_eq_true, beq_iff_eq]
        rintro ⟨hkind, hvoid⟩
        exact hspells (eq_void_of_isVoid hvoid ▸ .void hkind)
      rw [rule_value hany hexports hvalue hunion hintersection, hvoid, if_neg (by decide),
        decide_just, ← decision_succ]
      exact decision_mono (Nat.le_succ depth) _ _ given
    rw [decision_succ, decision_succ]
    cases hany : t.isAny with
    | true =>
      have hboth : ∀ a : Ty, (a.isAny || t.isAny) = true := fun a => by rw [hany, Bool.or_true]
      rw [rule_of_any (hboth _), rule_of_any (hboth _)]
      exact fun _ => id
    | false =>
      cases t with
      | value w =>
        have hne : v ≠ w := fun h => hspells (h ▸ .value)
        have hdiffers := decision_class_value hstep w depth given
        rw [decision_succ] at hdiffers
        rw [hdiffers, rule_value_value, if_neg (by simpa using hne)]
        exact fun _ => id
      | union ms =>
        rw [rule_union rfl (by simp) (by simp), rule_union hclass (by simp) (by simp),
          Rule.decide, Rule.decide, List.map_map, List.map_map]
        exact extends_anyOf (extends_map fun m hm => ih (fun h => hspells (.union hm h)) given)
      | intersection ms =>
        rw [rule_intersection rfl (by simp) (by simp), rule_intersection hclass (by simp) (by simp),
          Rule.decide, Rule.decide, List.map_map, List.map_map]
        exact extends_allOf
          (extends_map fun m hm => ih (fun h => hspells (.intersection hm h)) given)
      | moduleExports u =>
        rw [rule_exports rfl (by simp), rule_exports hclass (by simp), decide_just, decide_just]
        exact ih (fun h => hspells (.moduleExports h)) given
      | _ => exact hlooked hany (by simp) (by simp) (by simp) (by simp)

/-- A literal value that fits and is not spelled out may be widened. -/
theorem isSubtype_widen {t : Ty} (hstep : env.step? (.named v.widen) = none)
    (hspells : ¬ SpellsOut v t) (h : env.isSubtype (.value v) t = .fits) :
    env.isSubtype (.named v.widen) t = .fits := by
  have hextends := widen_extends hstep (env.comparisonDepth (.value v) t) hspells [] true
  exact Verdict.decision_eq_true.mp (hextends (Verdict.decision_eq_true.mpr h))

end Values

/-! ### Unions and objects -/

section Parts

variable {env : Env} {given : Assumed}

theorem decision_of_any {a t : Ty} (h : (a.isAny || t.isAny) = true) (depth : Nat) :
    decision env (depth + 1) a t given = some true := by
  rw [decision_succ, rule_of_any h]
  rfl

/-- What fits inside the exports wrapper fits without it. -/
theorem decision_unwrap {t : Ty} (depth : Nat) : ∀ {a : Ty},
    decision env depth a (.moduleExports t) given = some true →
      decision env depth a t given = some true := by
  induction depth with
  | zero => exact fun h => by cases h
  | succ depth ih =>
    intro a h
    cases hany : a.isAny || t.isAny with
    | true => exact decision_of_any hany depth
    | false =>
      obtain ⟨ha, ht⟩ := Bool.or_eq_false_iff.mp hany
      rw [decision_succ] at h
      by_cases hexports : ∃ b, a = .moduleExports b
      · obtain ⟨b, rfl⟩ := hexports
        have hrule : ∀ e : Ty, e.isAny = false → rule env (.moduleExports b) e = .just b e := by
          intro e he
          have hcond : ((Ty.moduleExports b).isAny || e.isAny) = false := he
          rw [rule, hcond, if_neg (by decide)]
        rw [hrule _ rfl, decide_just] at h
        rw [decision_succ, hrule t ht, decide_just]
        exact ih h
      · rw [rule_exports ha fun b hb => hexports ⟨b, hb⟩, decide_just] at h
        exact decision_mono (Nat.le_succ depth) _ _ given true h

/-- A union fits where all its members do; the exports wrappers are looked through first. -/
theorem decision_union {ms : List Ty} {depth : Nat} (t : Ty)
    (h : ∀ m ∈ ms, decision env depth m t given = some true) :
    decision env (depth + t.size + 1) (.union ms) t given = some true := by
  induction t using Ty.children_induction with
  | step t ih =>
    cases hany : t.isAny with
    | true => exact decision_of_any (by rw [hany, Bool.or_true]) _
    | false =>
      by_cases hexports : ∃ u, t = .moduleExports u
      · obtain ⟨u, rfl⟩ := hexports
        have hwithin := ih u List.mem_cons_self fun m hm => decision_unwrap depth (h m hm)
        have hsize : depth + (Ty.moduleExports u).size = depth + u.size + 1 := by
          rw [Ty.size]
          omega
        rw [decision_succ, rule_exports rfl (by simp), decide_just, hsize]
        exact hwithin
      · rw [decision_succ, rule_of_union hany fun u hu => hexports ⟨u, hu⟩, Rule.decide,
          List.map_map]
        refine allOf_eq_true.mpr fun o ho => ?_
        obtain ⟨m, hm, rfl⟩ := List.mem_map.mp ho
        exact decision_mono (Nat.le_add_right depth t.size) m t given true (h m hm)

/-- A union fits where all its members do. -/
theorem isSubtype_union {ms : List Ty} {t : Ty} (h : ∀ m ∈ ms, env.isSubtype m t = .fits) :
    env.isSubtype (.union ms) t = .fits := by
  obtain ⟨depth, hdepth⟩ := Nat.exists_eq_add_of_lt (env.size_lt_comparisonDepth (.union ms) t)
  rw [Nat.add_comm t.size] at hdepth
  refine isSubtype_of_decision hdepth.ge (decision_union t fun m hm => ?_)
  have hsize : m.size < (Ty.union ms).size := Ty.size_lt_of_mem_children hm
  have hlt : env.comparisonDepth m t + t.size < env.comparisonDepth (.union ms) t :=
    env.comparisonDepth_lt (by omega)
  exact decision_mono (by omega) m t [] true (Verdict.decision_eq_true.mpr (h m hm))

theorem isSubtype_unionOf {ms : List Ty} {t : Ty} (h : ∀ m ∈ ms, env.isSubtype m t = .fits) :
    env.isSubtype (.unionOf ms) t = .fits := by
  rcases ms with _ | ⟨m, _ | _⟩
  · exact isSubtype_union h
  · exact h m List.mem_cons_self
  · exact isSubtype_union h

/-- An object fits where each wanted field is there and fits. -/
theorem isSubtype_object {fs gs : List (String × Ty)}
    (h : ∀ g ∈ gs, ∃ t, fs.lookup g.1 = some t ∧ env.isSubtype t g.2 = .fits) :
    env.isSubtype (.object fs) (.object gs) = .fits := by
  have hrule : rule env (.object fs) (.object gs) =
      .all (gs.map fun g => (fs.lookup g.1).map (·, g.2)) := rfl
  obtain ⟨depth, hdepth⟩ := Nat.exists_eq_add_of_lt
    (env.size_lt_comparisonDepth (.object fs) (.object gs))
  refine isSubtype_of_decision hdepth.ge ?_
  rw [decision_succ, hrule, Rule.decide, List.map_map]
  refine allOf_eq_true.mpr fun o ho => ?_
  obtain ⟨g, hg, rfl⟩ := List.mem_map.mp ho
  obtain ⟨t, hlookup, hfits⟩ := h g hg
  have hactual : t.size < (Ty.object fs).size := Ty.size_lt_of_mem_children
    (List.mem_map_of_mem (f := (·.2)) (mem_of_lookup hlookup))
  have hexpected : g.2.size < (Ty.object gs).size :=
    Ty.size_lt_of_mem_children (List.mem_map_of_mem (f := (·.2)) hg)
  have hlt : env.comparisonDepth t g.2 < env.comparisonDepth (.object fs) (.object gs) :=
    Nat.lt_of_le_of_lt (Nat.le_add_right _ _) (env.comparisonDepth_lt (by omega))
  rw [Function.comp_apply, hlookup]
  exact decision_mono (by omega) t g.2 [] true (Verdict.decision_eq_true.mpr hfits)

end Parts

end Subtype
end Countersign
