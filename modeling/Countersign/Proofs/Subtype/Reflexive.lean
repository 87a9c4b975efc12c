/-
# Every type fits itself

A type that was read fits itself, whatever the named types are, where none of them has parameters
and no intersection has a union among its members.

A comparison of a type with itself does not stay on the diagonal. A member of a union is compared
with the whole union, and through it with unions inside; an intersection is compared with each of
its members, and through them with the members of intersections inside. The relation that is
consistent with the rules therefore holds between a union and whatever it offers at any depth
(`Offered`), and between an intersection and whatever it demands at any depth (`Demanded`).

In between a member is compared with others that it has nothing to do with, under whatever names
mean. These comparisons may fail but they come to an end, so none of them keeps the right one from
being reached.

Key definitions: `Offered`, `Demanded`, `Separated`, `Mirrors`.
Key theorems: `isSubtype_decided`, `mirrors_consistent`, `isSubtype_refl`.
-/
import Countersign.Proofs.Subtype.Coinductive
import Countersign.Proofs.Subtype.Shapes
import Countersign.Proofs.Ty.Leaves

namespace Countersign

namespace Subtype

open Signature

/-! ### Comparisons end without parameters -/

section Decided

variable {env : Env} {a₀ e₀ : Ty}

theorem alias_mem_met {name : String} {a : Alias} (h : env.alias? name = some a) :
    a.type ∈ met env a₀ e₀ := by
  refine met_of_node (List.mem_flatMap.mpr ⟨a.type, ?_, a.type.mem_parts_self⟩)
  exact List.mem_append_left _ (List.mem_map_of_mem (f := (·.2.type)) (mem_of_lookup h))

theorem plainAlias?_mem_met {name : String} {u : Ty} (h : env.plainAlias? name = some u) :
    u ∈ met env a₀ e₀ := by
  obtain ⟨a, ha, hbody⟩ := Option.bind_eq_some_iff.mp h
  split at hbody
  · cases hbody
    exact alias_mem_met ha
  · cases hbody

/-- A step from a type that can be met leads to one, whatever it was read from or made of. -/
theorem step?_mem_met (henv : ∀ a ∈ env.aliases, a.2.params = []) {t u : Ty}
    (ht : t ∈ met env a₀ e₀) (h : env.step? t = some u) : u ∈ met env a₀ e₀ := by
  cases t with
  | named c =>
    rw [Env.step?] at h
    split at h
    · cases h
    · exact plainAlias?_mem_met h
  | renamed n s => exact plainAlias?_mem_met h
  | generic b as =>
    obtain ⟨a, ha, rfl⟩ := Option.map_eq_some_iff.mp h
    obtain ⟨a', ha', hlength⟩ := Option.bind_eq_some_iff.mp ha
    obtain ⟨name, -, hlookup⟩ := Option.bind_eq_some_iff.mp ha'
    split at hlength
    · cases hlength
      rw [henv _ (mem_of_lookup hlookup), Ty.substitute_nil]
      exact alias_mem_met hlookup
    · cases hlength
  | moduleExports t =>
    cases h
    exact child_mem_met ht (List.mem_singleton_self _)
  | _ => cases h

theorem resolveWithin_mem_met (henv : ∀ a ∈ env.aliases, a.2.params = []) : ∀ (limit : Nat) {t : Ty},
    t ∈ met env a₀ e₀ → env.resolveWithin limit t ∈ met env a₀ e₀
  | 0, _, ht => ht
  | limit + 1, t, ht => by
    rw [Env.resolveWithin]
    split
    · exact ht
    · rename_i u hu
      exact resolveWithin_mem_met henv limit (step?_mem_met henv ht hu)

/-- **Comparisons come to an end where no name has parameters**, for all types whatsoever. -/
theorem isSubtype_decided (henv : ∀ a ∈ env.aliases, a.2.params = []) (a e : Ty) :
    env.isSubtype a e ≠ .undecided := by
  refine isSubtype_ne_undecided_of_met (Q := fun b f => b ∈ met env a e ∧ f ∈ met env a e) ?_
    (fun _ _ h => h) (mem_met_start env a e)
  rintro b f c g given after ⟨hb, hf⟩ hasks
  rcases asks_cases hasks with ⟨hpart, -⟩ | ⟨-, rfl, rfl, -, -⟩
  · exact part_met hb hf hpart
  · exact ⟨resolveWithin_mem_met henv _ hb, resolveWithin_mem_met henv _ hf⟩

end Decided

/-! ### What unions offer and intersections demand -/

/-- The type is the union or one of its members, of their members if they are unions, and so on. -/
inductive Offered (a : Ty) : Ty → Prop
  | self : Offered a a
  | member {m : Ty} {us : List Ty} : m ∈ us → Offered a m → Offered a (.union us)

/-- The type is the intersection or one of its members, of their members if they are intersections,
and so on. -/
inductive Demanded (e : Ty) : Ty → Prop
  | self : Demanded e e
  | member {m : Ty} {ms : List Ty} : m ∈ ms → Demanded e m → Demanded e (.intersection ms)

/-- What a union that is offered has as a member is offered. -/
theorem Offered.of_union {us : List Ty} {m e : Ty} (h : Offered (.union us) e) (hm : m ∈ us) :
    Offered m e := by
  induction h with
  | self => exact .member hm .self
  | member hmem _ ih => exact .member hmem ih

/-- What an intersection that is demanded has as a member is demanded. -/
theorem Demanded.of_intersection {ms : List Ty} {m a : Ty} (h : Demanded (.intersection ms) a)
    (hm : m ∈ ms) : Demanded m a := by
  induction h with
  | self => exact .member hm .self
  | member hmem _ ih => exact .member hmem ih

/-- No union stands directly in an intersection. -/
def Separated (t : Ty) : Prop :=
  ∀ ms, .intersection ms ∈ t.parts → ∀ m ∈ ms, ∀ us, m ≠ .union us

/-- Whether no member of an intersection is a union; of other types it asks nothing. -/
def nodeSeparated : Ty → Bool
  | .intersection ms => ms.all fun m => match m with
    | .union _ => false
    | _ => true
  | _ => true

theorem separated_iff {t : Ty} : Separated t ↔ ∀ u ∈ t.parts, nodeSeparated u = true := by
  constructor
  · intro h u hu
    cases u with
    | intersection ms =>
      refine List.all_eq_true.mpr fun m hm => ?_
      cases m with
      | union us => exact absurd rfl (h ms hu _ hm us)
      | _ => rfl
    | _ => rfl
  · rintro h ms hms m hm us rfl
    exact absurd (List.all_eq_true.mp (h _ hms) _ hm) Bool.false_ne_true

instance (t : Ty) : Decidable (Separated t) := decidable_of_iff _ separated_iff.symm

/-- A type that was read and has no union directly in an intersection. -/
structure Orderly (t : Ty) : Prop where
  written : Written t
  separated : Separated t

theorem Orderly.child {t u : Ty} (h : Orderly t) (hu : u ∈ t.children) : Orderly u where
  written := (written_iff.mp h.written).2 u hu
  separated := fun ms hms => h.separated ms (Ty.parts_subset_of_mem_children hu hms)

theorem Orderly.node {t : Ty} (h : Orderly t) : NodeWritten t := (written_iff.mp h.written).1

theorem Orderly.ne_exports {t : Ty} (h : Orderly t) (u : Ty) : t ≠ .moduleExports u := by
  rintro rfl
  exact h.node

theorem Orderly.original {n s : ClassName} (h : Orderly (.renamed n s)) : Orderly (.named s) where
  written := written_iff.mpr ⟨h.node.2.2, nofun⟩
  separated := fun ms hms => by simp [Ty.parts] at hms

theorem Offered.orderly {a e : Ty} (h : Offered a e) (he : Orderly e) : Orderly a := by
  induction h with
  | self => exact he
  | member hm _ ih => exact ih (he.child hm)

theorem Demanded.orderly {a e : Ty} (h : Demanded e a) (ha : Orderly a) : Orderly e := by
  induction h with
  | self => exact ha
  | member hm _ ih => exact ih (ha.child hm)

/-- What an intersection demands is no union. -/
theorem Demanded.ne_union {e m : Ty} {ms us : List Ty} (ha : Orderly (.intersection ms)) (hm : m ∈ ms)
    (h : Demanded e m) : e ≠ .union us := by
  induction h generalizing ms with
  | self => exact ha.separated ms (Ty.mem_parts_self _) _ hm us
  | member hmem _ ih => exact ih (ha.child hm) hmem

/-! ### The relation -/

/-- The pairs that the comparison of a type with itself comes through on the way to success. -/
inductive Mirrors : Ty → Ty → Prop
  | offered {a e : Ty} : Offered a e → Orderly e → Mirrors a e
  | demanded {a e : Ty} : Demanded e a → Orderly a → Mirrors a e
  /-- A renamed class is looked through on one side before it is on the other. -/
  | renamed {n s : ClassName} : Orderly (.renamed n s) → Mirrors (.named s) (.renamed n s)

theorem Mirrors.refl {t : Ty} (h : Orderly t) : Mirrors t t := .offered .self h

theorem holds_of_any {env : Env} {R : Ty → Ty → Prop} {a e : Ty} (h : (a.isAny || e.isAny) = true) :
    (rule env a e).Holds R := by
  rw [rule_of_any h]
  trivial

/-- A list beside itself pairs each item with itself. -/
theorem mem_zip_self {α : Type} {xs : List α} {p : α × α} (h : p ∈ xs.zip xs) :
    p.1 ∈ xs ∧ p.2 = p.1 := by
  rw [List.zip_eq_zipWith, List.zipWith_self] at h
  obtain ⟨x, hx, rfl⟩ := List.mem_map.mp h
  exact ⟨hx, rfl⟩

/-- A function asks for its own parts beside themselves. -/
theorem mem_functionParts_self {f : FunctionTy} {p : Ty × Ty} (h : p ∈ functionParts f f) :
    p.1 ∈ (Ty.function f.params f.result f.receiver).children ∧ p.2 = p.1 := by
  rw [functionParts, List.mem_append, List.mem_append] at h
  rw [Ty.children, List.mem_append, List.mem_cons]
  rcases h with (h | h) | h
  · obtain ⟨ps, r, _ | t⟩ := f
    · cases h
    · obtain rfl := List.mem_singleton.mp h
      exact ⟨.inr (.inr (List.mem_singleton_self t)), rfl⟩
  · obtain ⟨q, hq, rfl⟩ := List.mem_map.mp h
    obtain ⟨hmem, hsame⟩ := mem_zip_self hq
    rw [hsame]
    exact ⟨.inl (List.mem_map_of_mem hmem), rfl⟩
  · split at h
    · cases h
    · obtain rfl := List.mem_singleton.mp h
      exact ⟨.inr (.inl rfl), rfl⟩

/-- Parts that fit themselves fit together. -/
theorem holds_all_self {t : Ty} (ht : Orderly t) {pairs : List (Ty × Ty)}
    (h : ∀ p ∈ pairs, p.1 ∈ t.children ∧ p.2 = p.1) : (Rule.all (pairs.map some)).Holds Mirrors := by
  intro part hpart
  obtain ⟨p, hp, rfl⟩ := List.mem_map.mp hpart
  obtain ⟨hchild, hsame⟩ := h p hp
  refine ⟨p, rfl, ?_⟩
  rw [hsame]
  exact .refl (ht.child hchild)

/-- A type with parts fits itself by its outermost node. -/
theorem structureRule_self {t : Ty} (ht : Orderly t) (hdirect : Direct t) (hname : ∀ c, t ≠ .named c) :
    (structureRule t t).Holds Mirrors := by
  cases t with
  | object fs =>
    intro part hpart
    obtain ⟨f, hf, rfl⟩ := List.mem_map.mp hpart
    refine ⟨(f.2, f.2), ?_, .refl (ht.child (List.mem_map_of_mem hf))⟩
    rw [Ty.lookup_of_mem ht.node hf, Option.map_some]
  | function ps r receiver =>
    rw [structureRule, if_pos (beq_self_eq_true _)]
    exact holds_all_self ht fun p hp => mem_functionParts_self hp
  | generic b as =>
    rw [structureRule, beq_self_eq_true, beq_self_eq_true, if_pos (by decide)]
    refine holds_all_self ht fun p hp => ?_
    exact ⟨List.mem_cons_of_mem _ (mem_zip_self hp).1, (mem_zip_self hp).2⟩
  | tuple us =>
    rw [structureRule, if_pos (beq_self_eq_true _)]
    exact holds_all_self ht fun p hp => mem_zip_self hp
  | named c => exact absurd rfl (hname c)
  | _ => exact absurd hdirect id

/-- Without parameters a type with parts stands for itself. -/
theorem step?_of_parts {env : Env} (henv : ∀ a ∈ env.aliases, a.2.params = []) {t : Ty}
    (ht : Orderly t) (hdirect : Direct t) (hname : ∀ c, t ≠ .named c) : env.step? t = none := by
  cases t with
  | generic b as =>
    rw [Env.step?, Env.genericAlias?, Option.map_eq_none_iff, Option.bind_eq_none_iff]
    intro a ha
    obtain ⟨name, -, hlookup⟩ := Option.bind_eq_some_iff.mp ha
    have hnone : a.params = [] := henv _ (mem_of_lookup hlookup)
    have hsome : 0 < as.length := List.length_pos_iff.mpr ht.node
    rw [hnone, List.length_nil, if_neg]
    rw [beq_iff_eq]
    omega
  | named c => exact absurd rfl (hname c)
  | _ => first | rfl | exact absurd hdirect id

variable {env : Env}

/-- A type fits itself by its rule where neither a connective nor a renamed class is taken apart. -/
theorem holds_direct_self (henv : ∀ a ∈ env.aliases, a.2.params = []) {t : Ty} (ht : Orderly t)
    (hdirect : Direct t) : (rule env t t).Holds Mirrors := by
  by_cases hname : ∃ c, t = .named c
  · obtain ⟨c, rfl⟩ := hname
    rw [rule]
    split
    · trivial
    · rw [if_pos (beq_self_eq_true c)]
      trivial
  · have hname' : ∀ c, t ≠ .named c := fun c hc => hname ⟨c, hc⟩
    have hany : (t.isAny || t.isAny) = false := by
      cases t <;> first | rfl | exact absurd rfl (hname' _)
    have hsettled : env.settled t = true := by
      rw [Env.settled, step?_of_parts henv ht hdirect hname']
      rfl
    rw [rule_direct hdirect (.inl hdirect) hany fun c hc => absurd hc (hname' c), resolvedRule,
      hsettled, if_pos (by decide)]
    exact structureRule_self ht hdirect hname'

/-- A single part that fits is all that is asked for. -/
theorem holds_just {R : Ty → Ty → Prop} {a e : Ty} (h : R a e) : (Rule.just a e).Holds R := by
  intro part hpart
  obtain rfl := List.mem_singleton.mp hpart
  exact ⟨(a, e), rfl, h⟩

theorem holds_self (henv : ∀ a ∈ env.aliases, a.2.params = []) {t : Ty} (ht : Orderly t) :
    (rule env t t).Holds Mirrors := by
  cases t with
  | value v =>
    have hrule : rule env (.value v) (.value v) = if v == v then .fits else .differs := rfl
    rw [hrule, if_pos (beq_self_eq_true v)]
    trivial
  | renamed n s =>
    rw [rule_of_renamed rfl ht.ne_exports trivial]
    exact holds_just (.renamed ht)
  | union ms =>
    rw [rule_of_union rfl ht.ne_exports]
    intro part hpart
    obtain ⟨m, hm, rfl⟩ := List.mem_map.mp hpart
    exact ⟨(m, .union ms), rfl, .offered (.member hm .self) ht⟩
  | intersection ms =>
    rw [rule_intersection rfl ht.ne_exports nofun]
    intro part hpart
    obtain ⟨m, hm, rfl⟩ := List.mem_map.mp hpart
    exact ⟨(.intersection ms, m), rfl, .demanded (.member hm .self) ht⟩
  | moduleExports t => exact absurd rfl (ht.ne_exports t)
  | _ => exact holds_direct_self henv ht trivial

/-- A type that is offered fits the union by its rule. -/
theorem holds_offered (henv : ∀ a ∈ env.aliases, a.2.params = []) {a e : Ty} (h : Offered a e)
    (he : Orderly e) : (rule env a e).Holds Mirrors := by
  have ha : Orderly a := h.orderly he
  cases h with
  | self => exact holds_self henv he
  | @member m us hm hoffered =>
    by_cases hunion : ∃ vs, a = .union vs
    · obtain ⟨vs, rfl⟩ := hunion
      rw [rule_of_union rfl he.ne_exports]
      intro part hpart
      obtain ⟨v, hv, rfl⟩ := List.mem_map.mp hpart
      exact ⟨(v, .union us), rfl, .offered (.member hm (hoffered.of_union hv)) he⟩
    · cases hany : a.isAny with
      | true => exact holds_of_any (by rw [hany, Bool.true_or])
      | false =>
        rw [rule_union hany ha.ne_exports fun vs hvs => hunion ⟨vs, hvs⟩]
        exact ⟨(a, m), List.mem_map_of_mem hm, .offered hoffered (he.child hm)⟩

/-- An intersection fits what it demands by its rule. -/
theorem holds_demanded (henv : ∀ a ∈ env.aliases, a.2.params = []) {a e : Ty} (h : Demanded e a)
    (ha : Orderly a) : (rule env a e).Holds Mirrors := by
  have he : Orderly e := h.orderly ha
  cases h with
  | self => exact holds_self henv ha
  | @member m ms hm hdemanded =>
    by_cases hmeet : ∃ vs, e = .intersection vs
    · obtain ⟨vs, rfl⟩ := hmeet
      rw [rule_intersection rfl ha.ne_exports nofun]
      intro part hpart
      obtain ⟨v, hv, rfl⟩ := List.mem_map.mp hpart
      exact ⟨(.intersection ms, v), rfl, .demanded (.member hm (hdemanded.of_intersection hv)) ha⟩
    · -- A union here would be tried member by member before the intersection is taken apart.
      have hundivided : Undivided e := by
        cases e with
        | union us => exact absurd rfl (hdemanded.ne_union ha hm)
        | intersection vs => exact absurd ⟨vs, rfl⟩ hmeet
        | _ => trivial
      cases hany : e.isAny with
      | true => exact holds_of_any (by rw [hany, Bool.or_true])
      | false =>
        rw [rule_of_intersection hany he.ne_exports hundivided]
        exact ⟨(m, e), List.mem_map_of_mem hm, .demanded hdemanded (ha.child hm)⟩

/-- **The pairs that a type's comparison with itself comes through are consistent with the rules.** -/
theorem mirrors_consistent (henv : ∀ a ∈ env.aliases, a.2.params = []) :
    Consistent (rule env) Mirrors := by
  intro a e h
  cases h with
  | offered hoffered he => exact holds_offered henv hoffered he
  | demanded hdemanded ha => exact holds_demanded henv hdemanded ha
  | @renamed n s hrenamed =>
    cases hany : (Ty.named s).isAny with
    | true => exact holds_of_any (by rw [hany, Bool.true_or])
    | false =>
      rw [rule_renamed (show Direct (.named s) from trivial) hany]
      exact holds_just (.refl hrenamed.original)

/-- **Every type that was read fits itself**, whatever the named types are, where none of them has
parameters and no intersection has a union among its members. -/
theorem isSubtype_refl {text : String} {t : Ty} (henv : ∀ a ∈ env.aliases, a.2.params = [])
    (hread : parseType text = .ok t) (hseparated : Separated t) : env.isSubtype t t = .fits := by
  have horderly : Orderly t := ⟨parseType_written hread, hseparated⟩
  have hcompatible : Compatible (rule env) t t := ⟨Mirrors, mirrors_consistent henv, .refl horderly⟩
  have hnot := decision_ne_false (env.comparisonDepth t t) hcompatible []
  have hdecided := isSubtype_decided henv t t
  cases hverdict : env.isSubtype t t with
  | fits => rfl
  | differs m => exact absurd (congrArg Verdict.decision hverdict) hnot
  | undecided => exact absurd hverdict hdecided

/-- Lists of numbers, and names that stand for nothing but each other. -/
def circularEnv : Env :=
  { Env.initial with aliases := [("Node", ⟨[], nodeType⟩), ("Here", ⟨[], readAs "There"⟩),
      ("There", ⟨[], readAs "Here | Node"⟩)] }

/-- Unions in unions, intersections in intersections, and the rest around them. -/
def tangledText : String :=
  "\x7b head: Here | (null | (Node as N | 'end')), " ++
    "walk: (this: Node, Array<Node> & (There & \x7b id: Number \x7d)) => [Node, There | 1] \x7d"

theorem isSubtype_refl_tangled : ∃ t, parseType tangledText = .ok t ∧ Separated t ∧
    circularEnv.isSubtype t t = .fits := by
  have hread : (parseType tangledText).toOption.any (fun t => decide (Separated t)) = true := by
    decide +kernel
  have henv : ∀ a ∈ circularEnv.aliases, a.2.params = [] := by
    simp [circularEnv]
  obtain ⟨t, hparse, hdecided⟩ := ok_of_any hread
  have hseparated : Separated t := of_decide_eq_true hdecided
  exact ⟨t, hparse, hseparated, isSubtype_refl henv hparse hseparated⟩

/-- A union in an intersection is taken apart too early. -/
example : (check Env.initial 9 (readAs "(String | Number) & Date") (readAs "(String | Number) & Date")
    []).1.isFit = false := by decide +kernel

end Subtype
end Countersign
