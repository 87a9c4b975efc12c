/-
# Names in the place of what they stand for

Whether a type fits a name is whether it fits the type that was given the name, as long as
comparisons come to the name before they take apart or widen anything that it hides. They do not
always do so. A value is widened before a name is resolved, so that it fits a name if its class fits
the type. And where the type is a union or an intersection, its members are compared one by one with
a name on the other side before that name is resolved.

Key definitions: `Named`, `Transparent`, `SameVerdict`.
Key theorems: `fits_of_resolved`, `Transparent.fits`, `check_alias`.
-/
import Countersign.Proofs.Subtype.Shapes
import Countersign.Proofs.Subtype.Coinductive

namespace Countersign
namespace Subtype

open Signature

/-! ### A name on the other side -/

section Resolved

variable {env : Env} {a t : Ty}

/-- A name fits a class or a value if what it stands for does. -/
theorem fits_direct_of_resolved (henv : LegibleEnv env) (ha : Direct a)
    (hlegible : Legible a ∨ WordClass a) (hstep : env.step? a = some t)
    (hends : env.step? (env.resolve a) = none) (hdirect : Direct (env.resolve a))
    (hself : Fits env (env.resolve a) (env.resolve a)) {e : Ty}
    (he : Direct e ∨ ∃ v, e = .value v) (hends' : env.step? (env.resolve e) = none) :
    Fits env a e ↔ Fits env (env.resolve a) e := by
  cases hany : e.isAny with
  | true => exact ⟨fun _ => fits_any_right hany, fun _ => fits_any_right hany⟩
  | false =>
    by_cases hsame : ∃ c, a = .named c ∧ e = .named c
    · obtain ⟨c, rfl, rfl⟩ := hsame
      rw [fits_resolve hdirect hends ha hends]
      exact ⟨fun _ => hself, fun _ => fits_self_named c⟩
    · have hlegible' : Legible (env.resolve a) := by
        rcases resolve_legible henv hlegible with h | ⟨-, hnone, -⟩
        · exact h
        · rw [hstep] at hnone
          cases hnone
      have hrule : rule env a e = .expand (env.resolve a) (env.resolve e) :=
        rule_expand ha he (by rw [hany, isAny_of_step? hstep]; rfl)
          (fun c hc hc' => hsame ⟨c, hc, hc'⟩) (.inl (settled_eq_false hstep hends))
      rw [fits_expand hrule (not_word_of_direct hdirect hlegible')]
      rcases he with he | ⟨v, rfl⟩
      · exact (fits_resolve hdirect hends he hends').symm
      · have hvalue : env.step? (.value v) = none := rfl
        rw [resolve_of_step?_none hvalue]

/-- **A name fits a type if what it stands for does**, if that is neither a value nor a connective
and fits itself, and no name in the type leads in a circle. -/
theorem fits_of_resolved (henv : LegibleEnv env) (hkeeps : KeepsBuiltins env) (ha : Direct a)
    (hlegible : Legible a ∨ WordClass a) (hstep : env.step? a = some t)
    (hends : env.step? (env.resolve a) = none) (hdirect : Direct (env.resolve a))
    (hself : Fits env (env.resolve a) (env.resolve a)) {e : Ty} (he : Legible e)
    (hparts : ∀ u ∈ e.parts, env.step? (env.resolve u) = none) :
    Fits env a e ↔ Fits env (env.resolve a) e := by
  induction e using Ty.children_induction with
  | step e ih =>
    have hmember : ∀ u ∈ e.children, Fits env a u ↔ Fits env (env.resolve a) u := fun u hu =>
      ih u hu (he.child hu) fun v hv => hparts v (Ty.parts_subset_of_mem_children hu hv)
    have hself' := hparts e e.mem_parts_self
    have hleaf : ∀ {e : Ty}, Direct e ∨ (∃ v, e = .value v) → env.step? (env.resolve e) = none →
        (Fits env a e ↔ Fits env (env.resolve a) e) :=
      fits_direct_of_resolved henv ha hlegible hstep hends hdirect hself
    cases e with
    | union ms =>
      rw [fits_union_iff ha he, fits_union_iff hdirect he]
      exact exists_congr fun m => and_congr_right fun hm => hmember m hm
    | intersection ms =>
      rw [fits_intersection_iff ha, fits_intersection_iff hdirect]
      exact forall₂_congr fun m hm => hmember m hm
    | renamed n s =>
      rw [fits_renamed_iff ha, fits_renamed_iff hdirect]
      refine hleaf (.inl trivial) ?_
      have horiginal := step?_original hkeeps he
      cases hnext : env.step? (.named s) with
      | none => rw [resolve_of_step?_none hnext, hnext]
      | some v =>
        rw [resolve_of_step? hnext (horiginal.trans hnext)]
        exact hself'
    | moduleExports t => exact absurd he.node id
    | value v => exact hleaf (.inr ⟨v, rfl⟩) hself'
    | _ => exact hleaf (.inl trivial) hself'

end Resolved

/-! ### Types that see through a name -/

/-- Comparing the type with itself finds that it fits. -/
def FitsItself (env : Env) (t : Ty) : Prop := ∃ depth, (check env depth t t []).1 = .fits

theorem FitsItself.fits {env : Env} {t : Ty} (h : FitsItself env t) (henv : LegibleEnv env)
    (ht : Legible t) : Fits env t t := by
  obtain ⟨depth, hfits⟩ := h
  exact (decision_iff_fits henv ⟨.inl ht, ht⟩ (Verdict.decision_eq_true.mpr hfits)).mp rfl

/-- The types that are compared with `name` as with the type `body` it was given. -/
inductive Transparent (env : Env) (name : String) (body : Ty) : Ty → Prop
  /-- A type that stands for itself. -/
  | settled {a : Ty} : Direct a → env.step? a = none → Transparent env name body a
  /-- Any name, where there is nothing to take apart in `body`. -/
  | expanded {a : Ty} : Direct a → env.step? (env.resolve a) = none → Undivided body →
      (∀ n s, body ≠ .renamed n s) →
      (a = .ofName name ∨ a = body → ∃ v, env.resolve a = .value v) → Transparent env name body a
  /-- A name that stands for neither a value nor a connective. -/
  | resolved {a : Ty} : Direct a → env.step? (env.resolve a) = none → Direct (env.resolve a) →
      FitsItself env (env.resolve a) → (∀ t ∈ body.parts, env.step? (env.resolve t) = none) →
      Transparent env name body a
  | renamed {n s : ClassName} : Transparent env name body (.named s) →
      Transparent env name body (.renamed n s)
  /-- A value, where it is widened for `body` as well. -/
  | value {v : Value} : Undivided body → (∀ w, body ≠ .value w) →
      (v.kind = .undefined → body.isVoid = false) → Transparent env name body (.named v.widen) →
      Transparent env name body (.value v)
  | union {ms : List Ty} : (∀ m ∈ ms, Transparent env name body m) →
      Transparent env name body (.union ms)
  | intersection {ms : List Ty} : Undivided body → (∀ m ∈ ms, Transparent env name body m) →
      Transparent env name body (.intersection ms)
  /-- An intersection, where one of its members and one of those of `body` are chosen. -/
  | choice {ms us : List Ty} : body = .union us → (∀ u ∈ us, Undivided u) → (∀ m ∈ ms, Direct m) →
      (∀ m ∈ ms, Transparent env name body m) → Transparent env name body (.intersection ms)

section Transparent

variable {env : Env} {name : String} {body : Ty}

/-- A name and the type it was given, which comes to an end. -/
structure Named (env : Env) (name : String) (body : Ty) : Prop where
  legible : LegibleEnv env
  name_legible : Legible (.ofName name)
  keepsBuiltins : KeepsBuiltins env
  given : env.plainAlias? name = some body
  ends : env.step? (env.resolve (.ofName name)) = none

theorem Named.step? (h : Named env name body) : env.step? (.ofName name) = some body := by
  have hbuiltin : (ClassName.resolve name).builtin = false := h.keepsBuiltins.plainAlias? h.given
  rw [Ty.ofName, Env.step?, hbuiltin, if_neg (by decide)]
  exact h.given

theorem Named.resolve_body (h : Named env name body) :
    env.resolve body = env.resolve (.ofName name) := resolve_step h.step? h.ends

theorem Named.body_legible (h : Named env name body) : Legible body :=
  plainAlias?_legible h.legible h.given

theorem Named.isAny (h : Named env name body) : (Ty.ofName name).isAny = false :=
  isAny_of_step? h.step?

theorem Named.isVoid (h : Named env name body) : (Ty.ofName name).isVoid = false := by
  have hbuiltin : isBuiltinClass name = false := h.keepsBuiltins.plainAlias? h.given
  simp [Ty.ofName, Ty.isVoid, Ty.isBuiltin, ClassName.isBuiltin, ClassName.resolve, hbuiltin]

/-- A type that stands for itself fits a name if and only if it fits what the name was given. -/
theorem Named.fits_settled (h : Named env name body) {a : Ty} (ha : Direct a)
    (hstep : env.step? a = none) : Fits env a (.ofName name) ↔ Fits env a body := by
  have hname : Direct (.ofName name) := trivial
  rw [fits_resolve ha hstep hname h.ends, ← h.resolve_body]
  have hends : env.step? (env.resolve body) = none := by
    rw [h.resolve_body]
    exact h.ends
  cases hnext : env.step? body with
  | none => rw [resolve_of_step?_none hnext]
  | some t =>
    have hlegible := h.body_legible
    cases body with
    | named c => exact (fits_resolve (e := .named c) ha hstep trivial hends).symm
    | generic b as => exact (fits_resolve (e := .generic b as) ha hstep trivial hends).symm
    | renamed n s =>
      have hsame := resolve_of_step? hnext ((step?_original h.keepsBuiltins hlegible).symm.trans hnext)
      rw [hsame] at hends ⊢
      rw [fits_renamed_iff ha]
      exact (fits_resolve (e := .named s) ha hstep trivial hends).symm
    | moduleExports u => exact absurd hlegible.node id
    | _ => cases hnext

/-- A name is the same name or is resolved, with whatever it is compared. -/
theorem rule_name {a t e : Ty} (ha : Direct a) (hstep : env.step? a = some t)
    (hends : env.step? (env.resolve a) = none) (he : Direct e ∨ ∃ v, e = .value v)
    (hany : e.isAny = false) : (a = e ∧ rule env a e = .fits) ∨
      rule env a e = .expand (env.resolve a) (env.resolve e) := by
  have hany' : (a.isAny || e.isAny) = false := by
    rw [isAny_of_step? hstep, hany]
    rfl
  by_cases hsame : ∃ c, a = .named c ∧ e = .named c
  · obtain ⟨c, rfl, rfl⟩ := hsame
    refine .inl ⟨rfl, ?_⟩
    unfold rule
    rw [hany', if_neg (by decide)]
    dsimp only
    rw [beq_self_eq_true, if_pos rfl]
  · exact .inr (rule_expand ha he hany' (fun c hc hc' => hsame ⟨c, hc, hc'⟩)
      (.inl (settled_eq_false hstep hends)))

theorem rule_value_self (v : Value) : rule env (.value v) (.value v) = .fits := by
  simp [rule, Ty.isAny, Ty.isBuiltin]

theorem Named.fits_expanded (h : Named env name body) {a : Ty} (ha : Direct a)
    (hends : env.step? (env.resolve a) = none) (hbody : Undivided body)
    (hrenamed : ∀ n s, body ≠ .renamed n s)
    (hvalue : a = .ofName name ∨ a = body → ∃ v, env.resolve a = .value v) :
    Fits env a (.ofName name) ↔ Fits env a body := by
  cases hstep : env.step? a with
  | none => exact h.fits_settled ha hstep
  | some t =>
    have hresolved := h.resolve_body
    have hname : Direct (.ofName name) ∨ ∃ v, Ty.ofName name = .value v := .inl trivial
    cases hany : body.isAny with
    | true =>
      refine ⟨fun _ => fits_any_right hany, fun _ => ?_⟩
      have hnext : env.step? body = none := by
        cases hnext : env.step? body with
        | none => rfl
        | some u =>
          rw [isAny_of_step? hnext] at hany
          cases hany
      rw [resolve_of_step?_none hnext] at hresolved
      rcases rule_name ha hstep hends hname h.isAny with ⟨-, hfits⟩ | hexpand
      · exact fits_of_rule hfits
      · refine fits_of_expand hexpand (rule_of_any ?_)
        rw [← hresolved, hany, Bool.or_true]
    | false =>
      have hshape : Direct body ∨ ∃ v, body = .value v := by
        have hlegible := h.body_legible
        cases body with
        | value v => exact .inr ⟨v, rfl⟩
        | renamed n s => exact absurd rfl (hrenamed n s)
        | moduleExports u => exact absurd hlegible.node id
        | union ms => exact absurd hbody id
        | intersection ms => exact absurd hbody id
        | _ => exact .inl trivial
      -- The same name on one side leads to the same value on the other.
      have hsame : ∀ {e : Ty}, a = .ofName name ∨ a = body → env.resolve e = env.resolve a →
          rule env a e = .expand (env.resolve a) (env.resolve e) → Fits env a e := by
        intro e hother hresolve hexpand
        obtain ⟨v, hv⟩ := hvalue hother
        rw [hresolve, hv] at hexpand
        exact fits_of_expand hexpand (rule_value_self v)
      rcases rule_name ha hstep hends hname h.isAny with ⟨rfl, hfits⟩ | hexpand
      · refine ⟨fun _ => ?_, fun _ => fits_of_rule hfits⟩
        rcases rule_name ha hstep hends hshape hany with ⟨-, hfits⟩ | hexpand
        · exact fits_of_rule hfits
        · exact hsame (.inl rfl) hresolved hexpand
      · rcases rule_name ha hstep hends hshape hany with ⟨rfl, hfits⟩ | hexpand'
        · exact ⟨fun _ => fits_of_rule hfits, fun _ => hsame (.inr rfl) hresolved.symm hexpand⟩
        · exact fits_congr (by rw [hexpand, hexpand', hresolved])

theorem Named.fits_resolved (h : Named env name body) {a : Ty} (ha : Direct a)
    (hlegible : Legible a ∨ WordClass a) (hends : env.step? (env.resolve a) = none)
    (hdirect : Direct (env.resolve a)) (hself : FitsItself env (env.resolve a))
    (hparts : ∀ t ∈ body.parts, env.step? (env.resolve t) = none) :
    Fits env a (.ofName name) ↔ Fits env a body := by
  cases hstep : env.step? a with
  | none => exact h.fits_settled ha hstep
  | some t =>
    have hlegible' : Legible (env.resolve a) := by
      rcases resolve_legible h.legible hlegible with hresolved | ⟨-, hnone, -⟩
      · exact hresolved
      · rw [hstep] at hnone
        cases hnone
    have hself' := hself.fits h.legible hlegible'
    have hname : Direct (.ofName name) ∨ ∃ v, Ty.ofName name = .value v := .inl trivial
    rw [fits_of_resolved h.legible h.keepsBuiltins ha hlegible hstep hends hdirect hself'
        h.body_legible hparts,
      fits_direct_of_resolved h.legible ha hlegible hstep hends hdirect hself' hname h.ends]
    exact h.fits_settled hdirect hends

theorem Named.fits_choice (h : Named env name body) {ms us : List Ty} (hbody : body = .union us)
    (hus : ∀ u ∈ us, Undivided u) (hdirect : ∀ m ∈ ms, Direct m) (hne : ∃ m, m ∈ ms)
    (hms : ∀ m ∈ ms, Fits env m (.ofName name) ↔ Fits env m body) :
    Fits env (.intersection ms) (.ofName name) ↔ Fits env (.intersection ms) body := by
  subst hbody
  have hlegible := h.body_legible
  have hmember : ∀ u ∈ us, Fits env (.intersection ms) u ↔ ∃ m ∈ ms, Fits env m u := by
    intro u hu
    cases hany : u.isAny with
    | true =>
      obtain ⟨m, hm⟩ := hne
      exact ⟨fun _ => ⟨m, hm, fits_any_right hany⟩, fun _ => fits_any_right hany⟩
    | false =>
      exact Subtype.fits_choice
        (rule_of_intersection hany (legible_ne_exports (hlegible.child hu)) (hus u hu))
  rw [Subtype.fits_choice (rule_of_intersection h.isAny (by simp [Ty.ofName]) trivial),
    Subtype.fits_choice (rule_union rfl (by simp) (by simp))]
  constructor
  · rintro ⟨m, hm, hfits⟩
    obtain ⟨u, hu, hfits'⟩ := (fits_union_iff (hdirect m hm) hlegible).mp ((hms m hm).mp hfits)
    exact ⟨u, hu, (hmember u hu).mpr ⟨m, hm, hfits'⟩⟩
  · rintro ⟨u, hu, hfits⟩
    obtain ⟨m, hm, hfits'⟩ := (hmember u hu).mp hfits
    exact ⟨m, hm, (hms m hm).mpr ((fits_union_iff (hdirect m hm) hlegible).mpr ⟨u, hu, hfits'⟩)⟩

/-- A value fits a name if its class does. -/
theorem Named.fits_value (h : Named env name body) (v : Value) :
    Fits env (.value v) (.ofName name) ↔ Fits env (.named v.widen) (.ofName name) := by
  refine fits_just ?_
  rw [rule_value h.isAny (by simp [Ty.ofName]) (by simp [Ty.ofName]) (by simp [Ty.ofName])
    (by simp [Ty.ofName]), h.isVoid, Bool.and_false, if_neg (by decide)]

theorem Legible.child_of {t u : Ty} (h : Legible t ∨ WordClass t) (hu : u ∈ t.children) :
    Legible u := by
  rcases h with h | h
  · exact h.child hu
  · rw [h.children] at hu
    cases hu

/-- **Types see through a name**: they fit it if and only if they fit what it was given. -/
theorem Transparent.fits (h : Named env name body) {a : Ty} (ha : Transparent env name body a)
    (hlegible : Legible a ∨ WordClass a) : Fits env a (.ofName name) ↔ Fits env a body := by
  induction ha with
  | settled hdirect hstep => exact h.fits_settled hdirect hstep
  | expanded hdirect hends hbody hrenamed hvalue =>
    exact h.fits_expanded hdirect hends hbody hrenamed hvalue
  | resolved hdirect hends hdirect' hself hparts =>
    exact h.fits_resolved hdirect hlegible hends hdirect' hself hparts
  | renamed _ ih =>
    have hlegible' := hlegible.resolve_right fun ⟨_, _, hword⟩ => nomatch hword
    have hname : Legible (.ofName name) := h.name_legible
    rw [fits_of_renamed hname, fits_of_renamed h.body_legible]
    exact ih (.inl (legible_original hlegible'))
  | @value v hbody hvalue hvoid _ ih =>
    rw [h.fits_value, ih (widen_legible v), fits_of_value_iff h.body_legible hbody hvalue hvoid]
  | @union ms _ ih =>
    rw [fits_of_union_iff h.name_legible, fits_of_union_iff h.body_legible]
    exact forall₂_congr fun m hm => ih m hm (.inl (Legible.child_of hlegible hm))
  | @intersection ms hbody _ ih =>
    have hlegible' := hlegible.resolve_right fun ⟨_, _, hword⟩ => nomatch hword
    have hname : Undivided (.ofName name) := trivial
    rw [fits_of_intersection_iff hlegible' h.name_legible hname,
      fits_of_intersection_iff hlegible' h.body_legible hbody]
    exact exists_congr fun m => and_congr_right fun hm =>
      ih m hm (.inl (Legible.child_of hlegible hm))
  | choice hbody hus hdirect _ ih =>
    have hlegible' := hlegible.resolve_right fun ⟨_, _, hword⟩ => nomatch hword
    exact h.fits_choice hbody hus hdirect (exists_mem_of_intersection hlegible') fun m hm =>
      ih m hm (.inl (Legible.child_of hlegible hm))

end Transparent

/-! ### Comparisons with a name -/

/-- A type that was read, with fields that need no quotes. -/
def Readable (t : Ty) : Prop := (∃ text, parseType text = .ok t) ∧ FieldsNamed t

theorem Readable.legible {t : Ty} (h : Readable t) : Legible t := by
  obtain ⟨⟨text, htext⟩, hnamed⟩ := h
  exact ⟨parseType_written htext, hnamed⟩

/-- Both comparisons find that the types fit, or neither does, if both come to an end. -/
def SameVerdict (env : Env) (a e b f : Ty) : Prop :=
  ∀ depth depth', (check env depth a e []).1 ≠ .undecided →
    (check env depth' b f []).1 ≠ .undecided →
      ((check env depth a e []).1 = .fits ↔ (check env depth' b f []).1 = .fits)

theorem check_fits_iff {env : Env} (henv : LegibleEnv env) {a e : Ty} (h : Comparable a e)
    {depth : Nat} (hdecided : (check env depth a e []).1 ≠ .undecided) :
    (check env depth a e []).1 = .fits ↔ Fits env a e := by
  obtain ⟨fits, hfits⟩ : ∃ fits, decision env depth a e [] = some fits :=
    Option.ne_none_iff_exists'.mp fun hnone => hdecided (Verdict.decision_eq_none.mp hnone)
  rw [← decision_iff_fits henv h hfits, ← Verdict.decision_eq_true]
  show decision env depth a e [] = some true ↔ _
  rw [hfits, Option.some_inj]

theorem sameVerdict_of_fits {env : Env} (henv : LegibleEnv env) {a e b f : Ty}
    (h : Comparable a e) (h' : Comparable b f) (hfits : Fits env a e ↔ Fits env b f) :
    SameVerdict env a e b f := by
  intro depth depth' hdecided hdecided'
  rw [check_fits_iff henv h hdecided, check_fits_iff henv h' hdecided', hfits]

/-- **Comparing a type with a name is comparing it with the type that was given the name**, if it
sees through the name; and comparing a value with a name is comparing its class with that type. -/
theorem check_alias {env : Env} {name : String} {body a : Ty}
    (henv : ∀ x ∈ env.aliases, Readable x.2.type ∧ isBuiltinClass x.1 = false)
    (hname : Readable (.ofName name)) (hgiven : env.plainAlias? name = some body)
    (hends : env.step? (env.resolve (.ofName name)) = none) (ha : Readable a) :
    (Transparent env name body a → SameVerdict env a (.ofName name) a body) ∧
      ∀ v, a = .value v → env.step? (.named v.widen) = none →
        SameVerdict env a (.ofName name) (.named v.widen) body := by
  have hlegible : LegibleEnv env := fun x hx => (henv x hx).1.legible
  have h : Named env name body :=
    ⟨hlegible, hname.legible, fun x hx => (henv x hx).2, hgiven, hends⟩
  have hpair : Comparable a (.ofName name) := ⟨.inl ha.legible, hname.legible⟩
  constructor
  · intro htransparent
    refine sameVerdict_of_fits hlegible hpair ⟨.inl ha.legible, h.body_legible⟩ ?_
    exact htransparent.fits h (.inl ha.legible)
  · rintro v rfl hstep
    refine sameVerdict_of_fits hlegible hpair ⟨widen_legible v, h.body_legible⟩ ?_
    rw [h.fits_value]
    exact h.fits_settled trivial hstep

theorem readable_readAs {text : String}
    (h : (parseType text).toOption.any (fun t => decide (FieldsNamed t)) = true) :
    Readable (readAs text) := by
  obtain ⟨t, hread, hnamed⟩ := ok_of_any h
  unfold readAs
  rw [hread]
  exact ⟨⟨text, hread⟩, of_decide_eq_true hnamed⟩

/-- A shape with a name of its own. -/
def circleType : Ty := readAs "\x7b radius: Number \x7d"

/-- One of two shapes, the first by its name. -/
def shapeType : Ty := readAs "Circle | \x7b width: Number, height: Number \x7d"

/-- A union by name, one of whose members has a name as well. -/
def shapeEnv : Env :=
  { Env.initial with aliases := [("Circle", ⟨[], circleType⟩), ("Shape", ⟨[], shapeType⟩)] }

theorem check_alias_shape :
    (check shapeEnv 12 (readAs "Circle") (.ofName "Shape") []).1 = .fits ∧
      (check shapeEnv 12 (readAs "Circle") shapeType []).1 = .fits := by
  have hcircle : Readable (readAs "Circle") := readable_readAs (by decide +kernel)
  have hname : Readable (.ofName "Shape") :=
    ⟨⟨"Shape", rfl⟩, by decide⟩
  have hcircleType : Readable circleType := readable_readAs (by decide +kernel)
  have hshapeType : Readable shapeType := readable_readAs (by decide +kernel)
  have henv : ∀ x ∈ shapeEnv.aliases, Readable x.2.type ∧ isBuiltinClass x.1 = false := by
    simp only [shapeEnv, List.forall_mem_cons]
    exact ⟨⟨hcircleType, by decide⟩, ⟨hshapeType, by decide⟩, by simp⟩
  have hends : ∀ t ∈ .ofName "Shape" :: readAs "Circle" :: shapeType.parts,
      (shapeEnv.step? (shapeEnv.resolve t)).isNone = true := by decide +kernel
  have hself : FitsItself shapeEnv (shapeEnv.resolve (readAs "Circle")) := ⟨12, by decide +kernel⟩
  have htransparent : Transparent shapeEnv "Shape" shapeType (readAs "Circle") := by
    refine .resolved (by decide +kernel) ?_ (by decide +kernel) hself ?_
    · exact Option.isNone_iff_eq_none.mp (hends _ (by simp))
    · exact fun t ht => Option.isNone_iff_eq_none.mp (hends t (by simp [ht]))
  have hgiven : shapeEnv.plainAlias? "Shape" = some shapeType := by
    simp [Env.plainAlias?, Env.alias?, shapeEnv, List.lookup_cons]
  have hfits : (check shapeEnv 12 (readAs "Circle") (.ofName "Shape") []).1 = .fits := by
    decide +kernel
  have hdecided : (check shapeEnv 12 (readAs "Circle") shapeType []).1 ≠ .undecided := by
    decide +kernel
  have hname' := Option.isNone_iff_eq_none.mp (hends _ List.mem_cons_self)
  refine ⟨hfits, ((check_alias henv hname hgiven hname' hcircle).1 htransparent 12 12 ?_ hdecided).mp
    hfits⟩
  rw [hfits]
  decide

/-- The values of a parameter. -/
def methodType : Ty := readAs "'GET' | 'POST'"

/-- A union of values by name. -/
def methodEnv : Env := { Env.initial with aliases := [("Method", ⟨[], methodType⟩)] }

/-- A value of a union does not fit the name that the union was given. -/
theorem method_not_transparent :
    methodEnv.plainAlias? "Method" = some methodType ∧
      methodEnv.step? (methodEnv.resolve (.ofName "Method")) = none ∧
      methodEnv.isSubtype (readAs "'GET'") methodType = .fits ∧
      (methodEnv.isSubtype (readAs "'GET'") (.ofName "Method")).decision = some false := by
  have hgiven : methodEnv.plainAlias? "Method" = some methodType := by
    simp [Env.plainAlias?, Env.alias?, methodEnv]
  have hends : (methodEnv.step? (methodEnv.resolve (.ofName "Method"))).isNone = true := by
    decide +kernel
  have hunion : decision methodEnv 6 (readAs "'GET'") methodType [] = some true := by
    decide +kernel
  have hunionDepth : 6 ≤ methodEnv.comparisonDepth (readAs "'GET'") methodType := by
    decide +kernel
  have hname : decision methodEnv 6 (readAs "'GET'") (.ofName "Method") [] = some false := by
    decide +kernel
  have hnameDepth : 6 ≤ methodEnv.comparisonDepth (readAs "'GET'") (.ofName "Method") := by
    decide +kernel
  exact ⟨hgiven, Option.isNone_iff_eq_none.mp hends, isSubtype_of_decision hunionDepth hunion,
    decision_mono hnameDepth _ _ _ _ hname⟩

end Subtype
end Countersign
