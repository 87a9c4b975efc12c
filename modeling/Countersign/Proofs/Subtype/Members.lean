/-
# An intersection and its members

An intersection fits each of its members that fits itself and is no union, as long as the
comparisons that are tried before the right one come to an end; they do wherever no name has
parameters. A union that is expected is taken apart first: an intersection fits it if and only if it
fits one of its members, even where the union itself is a member of the intersection.

Key definitions: `Ends`, `Found`, `Layer`.
Key theorems: `found_iff_holds`, `found_of_member`, `intersection_fits_member`.
-/
import Countersign.Proofs.Subtype.Reflexive
import Countersign.Proofs.Subtype.Widening

namespace Countersign
namespace Subtype

open Signature

/-- The comparison of the types comes to an end. -/
def Ends (env : Env) (a e : Ty) : Prop := ∃ depth, (check env depth a e []).1 ≠ .undecided

/-- The comparison of the types finds that they fit. -/
def Found (env : Env) (a e : Ty) : Prop := ∃ depth, (check env depth a e []).1 = .fits

section Found

variable {env : Env} {a e : Ty}

theorem found_iff : Found env a e ↔ ∃ depth, decision env depth a e [] = some true :=
  exists_congr fun _ => Verdict.decision_eq_true.symm

theorem ends_iff : Ends env a e ↔ ∃ depth, decision env depth a e [] ≠ none :=
  exists_congr fun _ => (not_congr Verdict.decision_eq_none).symm

theorem Found.ends (h : Found env a e) : Ends env a e := by
  obtain ⟨depth, hfits⟩ := h
  exact ⟨depth, by rw [hfits]; decide⟩

/-- What was found to fit is not found to differ. -/
theorem Found.ne_false (h : Found env a e) (depth : Nat) :
    decision env depth a e [] ≠ some false := by
  obtain ⟨depth', hfits⟩ := found_iff.mp h
  exact fun hfalse => absurd (decision_unique hfalse hfits) (by decide)

/-- Comparisons that come to an end all do so at some depth. -/
theorem exists_depth {pairs : List (Ty × Ty)} (h : ∀ p ∈ pairs, Ends env p.1 p.2) :
    ∃ depth, ∀ p ∈ pairs, decision env depth p.1 p.2 [] ≠ none := by
  induction pairs with
  | nil => exact ⟨0, nofun⟩
  | cons p pairs ih =>
    obtain ⟨depth, hp⟩ := ends_iff.mp (h p List.mem_cons_self)
    obtain ⟨depth', hpairs⟩ := ih fun q hq => h q (List.mem_cons_of_mem _ hq)
    have hkeep : ∀ {d : Nat} (q : Ty × Ty), d ≤ max depth depth' →
        decision env d q.1 q.2 [] ≠ none →
          decision env (max depth depth') q.1 q.2 [] ≠ none := by
      intro d q hd hq
      obtain ⟨fits, hfits⟩ := Option.ne_none_iff_exists'.mp hq
      rw [decision_mono hd q.1 q.2 [] fits hfits]
      exact Option.some_ne_none fits
    refine ⟨max depth depth', fun q hq => ?_⟩
    rcases List.mem_cons.mp hq with rfl | hq
    · exact hkeep q (le_max_left _ _) hp
    · exact hkeep q (le_max_right _ _) (hpairs q hq)

/-- The pairs that a rule compares under no new assumption. -/
def Rule.pairs : Rule → List (Ty × Ty)
  | .all parts => parts.filterMap id
  | .any choices => choices
  | _ => []

theorem Rule.Asks.mem_pairs {r : Rule} {b f : Ty} {after : Assumed} (h : r.Asks [] b f after)
    (hexpand : ∀ b f, r ≠ .expand b f) : (b, f) ∈ r.pairs ∧ after = [] := by
  cases r with
  | all parts => exact ⟨List.mem_filterMap.mpr ⟨some (b, f), h.1, rfl⟩, h.2⟩
  | any choices => exact h
  | expand a e => exact absurd rfl (hexpand a e)
  | _ => exact absurd h id

/-- A comparison that resolves no name comes to an end if those it leads to do. -/
theorem ends_of_pairs (hexpand : ∀ b f, rule env a e ≠ .expand b f)
    (h : ∀ p ∈ (rule env a e).pairs, Ends env p.1 p.2) : Ends env a e := by
  obtain ⟨depth, hdepth⟩ := exists_depth h
  refine ends_iff.mpr ⟨depth + 1, ?_⟩
  rw [decision_succ]
  refine decide_ne_none fun b f after hasks => ?_
  obtain ⟨hmem, rfl⟩ := hasks.mem_pairs hexpand
  exact hdepth _ hmem

/-- Types are found to fit if and only if their rule says so of its parts, where this comes to an
end and no name is resolved. -/
theorem found_iff_holds (hexpand : ∀ b f, rule env a e ≠ .expand b f) :
    Found env a e ↔ Ends env a e ∧ (rule env a e).Holds (Found env) := by
  constructor
  · intro h
    refine ⟨h.ends, ?_⟩
    by_contra hnot
    obtain ⟨depth, hfits⟩ := found_iff.mp h
    cases depth with
    | zero => cases hfits
    | succ depth =>
      rw [decision_succ] at hfits
      refine decide_ne_true hnot (fun b f after hasks hlost hfound => ?_)
        (fun b f hrule => absurd hrule (hexpand b f)) hfits
      obtain ⟨-, rfl⟩ := hasks.mem_pairs hexpand
      exact hlost (found_iff.mpr ⟨depth, hfound⟩)
  · rintro ⟨hends, hholds⟩
    obtain ⟨depth, hdecided⟩ := ends_iff.mp hends
    cases depth with
    | zero => exact absurd rfl hdecided
    | succ depth =>
      have hne : decision env (depth + 1) a e [] ≠ some false := by
        rw [decision_succ]
        refine decide_ne_false hholds fun b f after hasks hfound => ?_
        obtain ⟨-, rfl⟩ := hasks.mem_pairs hexpand
        exact hfound.ne_false depth
      obtain ⟨fits, hfits⟩ := Option.ne_none_iff_exists'.mp hdecided
      cases fits with
      | false => exact absurd hfits hne
      | true => exact found_iff.mpr ⟨depth + 1, hfits⟩

theorem found_of_rule (h : rule env a e = .fits) : Found env a e := by
  refine found_iff.mpr ⟨1, ?_⟩
  rw [decision_succ, h]
  rfl

theorem found_of_any (h : (a.isAny || e.isAny) = true) : Found env a e :=
  found_of_rule (rule_of_any h)

/-- A comparison that is one other comparison finds what that finds. -/
theorem found_just {b f : Ty} (h : rule env a e = .just b f) : Found env a e ↔ Found env b f := by
  have hexpand : ∀ b f, rule env a e ≠ .expand b f := by
    rw [h]
    exact nofun
  have hholds : (rule env a e).Holds (Found env) ↔ Found env b f := by
    rw [h]
    simp [Rule.just, Rule.Holds]
  rw [found_iff_holds hexpand, hholds, and_iff_right_iff_imp]
  intro hfound
  refine ends_of_pairs hexpand fun p hp => ?_
  rw [h] at hp
  obtain rfl : p = (b, f) := by simpa [Rule.just, Rule.pairs] using hp
  exact hfound.ends

end Found

/-! ### Wrappers and layers -/

/-- The type inside any number of exports wrappers. -/
def bare : Ty → Ty
  | .moduleExports t => bare t
  | t => t

theorem bare_ne_exports (t u : Ty) : bare t ≠ .moduleExports u := by
  induction t using Ty.children_induction with
  | step t ih =>
    cases t with
    | moduleExports v => exact ih v (List.mem_singleton_self v)
    | _ => exact nofun

/-- The first type is the second, or is come to from it through wrappers, unions and
intersections. -/
inductive Layer (p : Ty) : Ty → Prop
  | self : Layer p p
  | exports {t : Ty} : Layer p t → Layer p (.moduleExports t)
  | union {u : Ty} {us : List Ty} : u ∈ us → Layer p u → Layer p (.union us)
  | intersection {u : Ty} {us : List Ty} : u ∈ us → Layer p u → Layer p (.intersection us)

theorem Layer.of_bare {p t : Ty} (h : Layer p (bare t)) : Layer p t := by
  induction t using Ty.children_induction with
  | step t ih =>
    cases t with
    | moduleExports u => exact .exports (ih u (List.mem_singleton_self u) h)
    | _ => exact h

section Members

variable {env : Env} {ms : List Ty} {m x : Ty}

/-- Wrappers of the actual type do not matter. -/
theorem found_bare : Found env m x ↔ Found env (bare m) x := by
  induction m using Ty.children_induction with
  | step m ih =>
    cases m with
    | moduleExports t =>
      cases hany : x.isAny with
      | true =>
        exact ⟨fun _ => found_of_any (by rw [hany, Bool.or_true]),
          fun _ => found_of_any (by rw [hany, Bool.or_true])⟩
      | false =>
        have hcond : ((Ty.moduleExports t).isAny || x.isAny) = false := hany
        have hrule : rule env (.moduleExports t) x = .just t x := by
          unfold rule
          rw [hcond, if_neg (by decide)]
        exact (found_just hrule).trans (ih t (List.mem_singleton_self t))
    | _ => exact Iff.rfl

theorem rule_intersection_exports (t : Ty) :
    rule env (.intersection ms) (.moduleExports t) = .just (.intersection ms) t := rfl

theorem rule_intersection_union (us : List Ty) :
    rule env (.intersection ms) (.union us) = .any (us.map (.intersection ms, ·)) := rfl

theorem rule_intersection_intersection (vs : List Ty) :
    rule env (.intersection ms) (.intersection vs) =
      .all (vs.map fun v => some (.intersection ms, v)) := rfl

/-- Wrappers of the expected type do not matter to an intersection. -/
theorem found_expected_bare :
    Found env (.intersection ms) x ↔ Found env (.intersection ms) (bare x) := by
  induction x using Ty.children_induction with
  | step x ih =>
    cases x with
    | moduleExports t =>
      exact (found_just (rule_intersection_exports t)).trans (ih t (List.mem_singleton_self t))
    | _ => exact Iff.rfl

/-- What an intersection is compared with is taken apart, and then its members are tried; no name
is resolved on the way. -/
theorem rule_intersection_ne_expand (b f : Ty) : rule env (.intersection ms) x ≠ .expand b f := by
  cases hany : x.isAny with
  | true =>
    rw [rule_of_any (by rw [hany, Bool.or_true])]
    exact nofun
  | false =>
    cases x with
    | moduleExports t =>
      rw [rule_intersection_exports]
      exact nofun
    | union us =>
      rw [rule_intersection_union]
      exact nofun
    | intersection vs =>
      rw [rule_intersection_intersection]
      exact nofun
    | _ =>
      rw [rule_of_intersection hany nofun trivial]
      exact nofun

/-- An intersection is compared to the end with what all its members are. -/
theorem ends_intersection (h : ∀ y ∈ ms, ∀ p, Layer p x → Ends env y p) :
    Ends env (.intersection ms) x := by
  induction x using Ty.children_induction with
  | step x ih =>
    refine ends_of_pairs rule_intersection_ne_expand fun p hp => ?_
    cases hany : x.isAny with
    | true =>
      rw [rule_of_any (by rw [hany, Bool.or_true])] at hp
      cases hp
    | false =>
      cases x with
      | moduleExports t =>
        rw [rule_intersection_exports] at hp
        obtain rfl : p = (.intersection ms, t) := by simpa [Rule.just, Rule.pairs] using hp
        exact ih t (List.mem_singleton_self t) fun y hy q hq => h y hy q (.exports hq)
      | union us =>
        rw [rule_intersection_union] at hp
        obtain ⟨u, hu, rfl⟩ := List.mem_map.mp hp
        exact ih u hu fun y hy q hq => h y hy q (.union hu hq)
      | intersection vs =>
        rw [rule_intersection_intersection] at hp
        obtain ⟨v, hv, rfl⟩ : ∃ v ∈ vs, (.intersection ms, v) = p := by
          simpa [Rule.pairs] using hp
        exact ih v hv fun y hy q hq => h y hy q (.intersection hv hq)
      | _ =>
        rw [rule_of_intersection hany (by simp) trivial] at hp
        obtain ⟨y, hy, rfl⟩ := List.mem_map.mp hp
        exact h y hy _ .self

/-- **An intersection fits what one of its members fits**, if that member is no union. -/
theorem found_of_member (hm : m ∈ ms) (hany : (bare m).isAny = false)
    (hunion : ∀ us, bare m ≠ .union us) (hfound : Found env (bare m) x)
    (h : ∀ y ∈ ms, ∀ p, Layer p x → Ends env y p) : Found env (.intersection ms) x := by
  have hexports := bare_ne_exports m
  induction x using Ty.children_induction with
  | step x ih =>
    cases hx : x.isAny with
    | true => exact found_of_any (by rw [hx, Bool.or_true])
    | false =>
      refine (found_iff_holds rule_intersection_ne_expand).mpr ⟨ends_intersection h, ?_⟩
      cases x with
      | moduleExports t =>
        have hrule : rule env (bare m) (.moduleExports t) = .just (bare m) t :=
          rule_exports hany hexports
        rw [rule_intersection_exports]
        refine holds_just (ih t (List.mem_singleton_self t) ((found_just hrule).mp hfound) ?_)
        exact fun y hy q hq => h y hy q (.exports hq)
      | union us =>
        have hrule : rule env (bare m) (.union us) = .any (us.map (bare m, ·)) :=
          rule_union hany hexports hunion
        rw [found_iff_holds (by rw [hrule]; exact nofun), hrule] at hfound
        obtain ⟨-, p, hp, hfits⟩ := hfound
        obtain ⟨u, hu, rfl⟩ := List.mem_map.mp hp
        rw [rule_intersection_union]
        refine ⟨(.intersection ms, u), List.mem_map_of_mem hu, ih u hu hfits ?_⟩
        exact fun y hy q hq => h y hy q (.union hu hq)
      | intersection vs =>
        have hrule : rule env (bare m) (.intersection vs) =
            .all (vs.map fun v => some (bare m, v)) := rule_intersection hany hexports hunion
        rw [found_iff_holds (by rw [hrule]; exact nofun), hrule] at hfound
        rw [rule_intersection_intersection]
        intro part hpart
        obtain ⟨v, hv, rfl⟩ := List.mem_map.mp hpart
        obtain ⟨q, hq, hfits⟩ := hfound.2 _ (List.mem_map_of_mem hv)
        cases hq
        refine ⟨(.intersection ms, v), rfl, ih v hv hfits ?_⟩
        exact fun y hy q hq => h y hy q (.intersection hv hq)
      | _ =>
        rw [rule_of_intersection hx nofun trivial]
        exact ⟨(m, _), List.mem_map_of_mem hm, found_bare.mpr hfound⟩

end Members

/-- **An intersection fits each of its members that fits itself and is no union**, and it fits a
member that is a union if and only if it fits a member of that union; in both cases if the members
of the intersection are compared to the end with what the member is made of, which they always are
where no name has parameters. -/
theorem intersection_fits_member {env : Env} {ms : List Ty} {m : Ty} (hm : m ∈ ms)
    (hself : Found env m m) (hends : (∀ a ∈ env.aliases, a.2.params = []) ∨
      ∀ y ∈ ms, ∀ p, Layer p m → Ends env y p) :
    ((∀ us, bare m ≠ .union us) → Found env (.intersection ms) m ∧
      ((∀ a ∈ env.aliases, a.2.params = []) → env.isSubtype (.intersection ms) m = .fits)) ∧
    ∀ us, bare m = .union us →
      (Found env (.intersection ms) m ↔ ∃ u ∈ us, Found env (.intersection ms) u) := by
  have hlayers : ∀ y ∈ ms, ∀ p, Layer p m → Ends env y p := by
    rcases hends with henv | hends
    · exact fun y _ p _ => ⟨_, isSubtype_decided henv y p⟩
    · exact hends
  constructor
  · intro hunion
    have hfound : Found env (.intersection ms) m := by
      cases hany : (bare m).isAny with
      | true => exact found_expected_bare.mpr (found_of_any (by rw [hany, Bool.or_true]))
      | false => exact found_of_member hm hany hunion (found_bare.mp hself) hlayers
    refine ⟨hfound, fun henv => ?_⟩
    have hdecided := isSubtype_decided henv (.intersection ms) m
    cases hverdict : env.isSubtype (.intersection ms) m with
    | fits => rfl
    | differs mismatch => exact absurd (congrArg Verdict.decision hverdict) (hfound.ne_false _)
    | undecided => exact absurd hverdict hdecided
  · intro us hus
    have hends' : Ends env (.intersection ms) (.union us) := by
      refine ends_intersection fun y hy p hp => hlayers y hy p (Layer.of_bare ?_)
      rw [hus]
      exact hp
    rw [found_expected_bare, hus, found_iff_holds rule_intersection_ne_expand,
      and_iff_right hends', rule_intersection_union]
    simp [Rule.Holds]

/-- Figures with a name and a colour, one of them by its name. -/
def labelEnv : Env :=
  { Env.initial with aliases := [("Circle", ⟨[], readAs "\x7b radius: Number \x7d"⟩)] }

/-- An intersection in an intersection. -/
def labelled : Ty := .intersection [.ofName "Circle", readAs "\x7b label: String \x7d"]

theorem intersection_fits_member_labelled :
    Found labelEnv labelled labelled ∧
      labelEnv.isSubtype (.intersection [.ofName "Date", labelled]) labelled = .fits := by
  have hself : Found labelEnv labelled labelled := ⟨9, by decide +kernel⟩
  have henv : ∀ a ∈ labelEnv.aliases, a.2.params = [] := by simp [labelEnv]
  have hmem : labelled ∈ [.ofName "Date", labelled] := List.mem_cons_of_mem _ List.mem_cons_self
  exact ⟨hself, ((intersection_fits_member hmem hself (.inl henv)).1 nofun).2 henv⟩

/-- A text or a number. -/
def textOrNumber : Ty := .union [.ofName "String", .ofName "Number"]

/-- An intersection does not fit a union that is one of its members and fits itself. -/
theorem union_member_refused :
    Env.initial.isSubtype textOrNumber textOrNumber = .fits ∧
      (Env.initial.isSubtype (.intersection [textOrNumber, .ofName "Date"]) textOrNumber).decision =
        some false := by
  have hself : decision Env.initial 5 textOrNumber textOrNumber [] = some true := by decide +kernel
  have hwhole : decision Env.initial 5 (.intersection [textOrNumber, .ofName "Date"]) textOrNumber
      [] = some false := by decide +kernel
  refine ⟨isSubtype_of_decision (by decide +kernel) hself, ?_⟩
  exact decision_mono (by decide +kernel) _ _ _ _ hwhole

end Subtype
end Countersign
