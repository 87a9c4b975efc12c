/-
# Names of what is compared

Whether a name fits a type is whether the type that was given the name does, as long as comparisons
come to the name before the other side is taken apart. They do not always do so. A union or an
intersection on the other side is taken apart before the name is resolved, so that a name for a union
has to fit one member of another union as a whole. And two names are resolved together: a name for a
value is compared by its value with what the other name stands for, where the value itself is widened
first.

Key definitions: `LooksThrough`, `Shown`.
Key theorems: `fits_leaf`, `LooksThrough.fits`, `Shown.fits`, `check_of_alias`.
-/
import Countersign.Proofs.Subtype.Aliases

namespace Countersign
namespace Subtype

open Signature

/-! ### What a name leads to -/

/-- Neither renamed nor a wrapper or a connective. -/
def Leafy (t : Ty) : Prop := Direct t ∨ ∃ v, t = .value v

/-- The rule says whether the types fit and asks for nothing. -/
def Rule.Final (r : Rule) : Prop := r = .fits ∨ r = .differs

theorem Rule.Final.ite (b : Bool) : (if b then Rule.fits else .differs).Final := by
  cases b
  · exact .inr rfl
  · exact .inl rfl

section Leaves

variable {env : Env}

/-- A class is compared at once with everything that stands for itself, if it does so too. -/
theorem rule_class_final {c : ClassName} (hstep : env.step? (.named c) = none) {f : Ty}
    (hf : Leafy f) (hstep' : env.step? f = none) : (rule env (.named c) f).Final := by
  cases hany : (Ty.named c).isAny || f.isAny with
  | true => exact .inl (rule_of_any hany)
  | false =>
    by_cases hsame : f = .named c
    · subst hsame
      unfold rule
      rw [hany, if_neg (by decide)]
      dsimp only
      rw [beq_self_eq_true, if_pos rfl]
      exact .inl rfl
    · have hne : ∀ d, Ty.named c = .named d → f ≠ .named d := by
        rintro d ⟨⟩
        exact hsame
      have hsettled : env.settled (.named c) && env.settled f := by
        simp [Env.settled, hstep, hstep']
      have hdirect : Direct (.named c) := trivial
      rw [rule_direct hdirect hf hany hne, resolvedRule, if_pos hsettled]
      cases f with
      | generic b as => exact Rule.Final.ite (sameContainer (.named c) b)
      | named d => exact Rule.Final.ite (fitsClass (.named c) (.named d))
      | _ => exact .inr rfl

/-- A word that can be written is a value. -/
theorem Word.exists_value {t : Ty} (h : Word env t) (ht : Legible t) :
    ∃ v, t = .value v ∧ (v.kind = .null ∨ v.kind = .undefined) := by
  cases h with
  | value hk _ => exact ⟨_, rfl, hk⟩
  | @cls k hk hplain =>
    have hdirect : Direct (.named ⟨k.word, false⟩) := trivial
    exact absurd (.cls hk hplain) (not_word_of_direct hdirect ht)

/-- The verdict on a word does not depend on what is assumed, where nothing is left to resolve. -/
theorem Word.decided {b f : Ty} (hb : Word env b) (hf : Leafy f) (hstep : env.step? f = none) :
    ∃ fits, ∀ given, decision env 2 b f given = some fits := by
  have hfinal : ∀ {r : Rule}, r.Final →
      ∃ fits, ∀ (ask : Ty → Ty → Assumed → Option Bool) given, r.decide ask given = some fits := by
    rintro r (rfl | rfl)
    · exact ⟨true, fun _ _ => rfl⟩
    · exact ⟨false, fun _ _ => rfl⟩
  have hclass : ∀ {k : ValueKind}, env.plainAlias? k.word = none →
      (rule env (.named ⟨k.word, false⟩) f).Final := by
    intro k hplain
    refine rule_class_final ?_ hf hstep
    rw [Env.step?, if_neg Bool.false_ne_true]
    exact hplain
  cases hb with
  | cls hk hplain =>
    obtain ⟨fits, hfits⟩ := hfinal (hclass hplain)
    exact ⟨fits, fun given => by rw [decision_succ]; exact hfits _ given⟩
  | @value k hk hplain =>
    by_cases hrule : (rule env (.value ⟨k.word, k⟩) f).Final
    · obtain ⟨fits, hfits⟩ := hfinal hrule
      exact ⟨fits, fun given => by rw [decision_succ]; exact hfits _ given⟩
    · -- The word is widened, and its class is compared at once.
      have hwidened : rule env (.value ⟨k.word, k⟩) f = .just (.named ⟨k.word, false⟩) f := by
        cases hany : f.isAny with
        | true =>
          refine absurd (.inl (rule_of_any ?_)) hrule
          rw [hany, Bool.or_true]
        | false =>
          have hshape : Direct f := by
            refine hf.resolve_right ?_
            rintro ⟨w, rfl⟩
            exact hrule (Rule.Final.ite _)
          have hvalue : rule env (.value ⟨k.word, k⟩) f = _ :=
            rule_value hany hshape.ne_exports hshape.ne_value hshape.ne_union fun ms hms => by
              subst hms
              exact hshape
          rw [widen_word hk] at hvalue
          split at hvalue
          · exact absurd (.inl hvalue) hrule
          · exact hvalue
      obtain ⟨fits, hfits⟩ := hfinal (hclass hplain)
      refine ⟨fits, fun given => ?_⟩
      rw [decision_succ, hwidened, decide_just, decision_succ]
      exact hfits _ given

/-- Resolving names does not change what fits, where nothing is left to resolve on the other side. -/
theorem fits_leaf (henv : LegibleEnv env) {a e b f : Ty} (hrule : rule env a e = .expand b f)
    (hb : Legible b) (hlegible : Legible f) (hf : Leafy f) (hstep : env.step? f = none) :
    Fits env a e ↔ Fits env b f := by
  by_cases hhidden : Hidden env a e
  · have hword : Word env b := by
      obtain ⟨-, b', f', hexpand, hword⟩ := hhidden
      rw [hrule] at hexpand
      cases hexpand
      exact hword
    obtain ⟨fits, hfits⟩ := hword.decided hf hstep
    have hdecided : decision env 3 a e [] = some fits := by
      rw [decision_succ, hrule, decide_expand, if_neg List.not_mem_nil]
      exact hfits _
    rw [fits_iff_of_hidden hhidden, ← decision_iff_fits henv ⟨.inl hb, hlegible⟩ (hfits [])]
    constructor
    · rintro ⟨depth, htrue⟩
      exact decision_unique hdecided htrue
    · rintro rfl
      exact ⟨3, hdecided⟩
  · rw [fits_iff_holds hhidden, hrule]
    rfl

/-- Whether types that are no words fit another depends on the rules for them. -/
theorem fits_congr_actual {a b e : Ty} (h : rule env a e = rule env b e) (ha : ¬ Word env a)
    (hb : ¬ Word env b) : Fits env a e ↔ Fits env b e := by
  have hhidden : Hidden env a e ↔ Hidden env b e := by
    rw [Hidden, Hidden, h]
    exact and_congr_left fun _ => iff_of_true ha hb
  by_cases hword : Hidden env a e
  · rw [fits_iff_of_hidden hword, fits_iff_of_hidden (hhidden.mp hword)]
    refine exists_congr fun depth => ?_
    cases depth with
    | zero => exact Iff.rfl
    | succ depth => rw [decision_succ, decision_succ, h]
  · rw [fits_iff_holds hword, fits_iff_holds (mt hhidden.mpr hword), h]

/-- Names that both lead to a type that fits itself fit. -/
theorem fits_of_same {a e t : Ty} (henv : LegibleEnv env) (hrule : rule env a e = .expand t t)
    (ht : Legible t) (hends : env.step? t = none) (hself : Fits env t t) : Fits env a e := by
  by_cases hword : Word env t
  · obtain ⟨v, hv, -⟩ := hword.exists_value ht
    exact (fits_leaf henv hrule ht ht (.inr ⟨v, hv⟩) hends).mpr hself
  · exact (fits_expand hrule hword).mpr hself

/-- A name fits what stands for itself if and only if what it stands for does. -/
theorem fits_name (henv : LegibleEnv env) {a t e : Ty} (ha : Direct a)
    (hstep : env.step? a = some t) (hends : env.step? (env.resolve a) = none)
    (hlegible : Legible (env.resolve a)) (he : Leafy e) (hlegible' : Legible e)
    (hstep' : env.step? e = none) : Fits env a e ↔ Fits env (env.resolve a) e := by
  cases hany : e.isAny with
  | true => exact ⟨fun _ => fits_any_right hany, fun _ => fits_any_right hany⟩
  | false =>
    rcases rule_name ha hstep hends he hany with ⟨rfl, -⟩ | hrule
    · rw [hstep] at hstep'
      cases hstep'
    · rw [resolve_of_step?_none hstep'] at hrule
      exact fits_leaf henv hrule hlegible hlegible' he hstep'

/-! ### Connectives and renamed classes on the other side -/

/-- Whatever fits an intersection fits all its members. -/
theorem fits_all_members {a : Ty} {ms : List Ty} (ha : Legible a) (he : Legible (.intersection ms)) :
    Fits env a (.intersection ms) ↔ ∀ m ∈ ms, Fits env a m := by
  induction a using Ty.children_induction with
  | step a ih =>
    cases hany : a.isAny with
    | true => exact ⟨fun _ _ _ => fits_any_left hany, fun _ => fits_any_left hany⟩
    | false =>
      by_cases hunion : ∃ us, a = .union us
      · obtain ⟨us, rfl⟩ := hunion
        rw [fits_of_union_iff he]
        have hmembers : ∀ m ∈ ms, Fits env (.union us) m ↔ ∀ u ∈ us, Fits env u m :=
          fun m hm => fits_of_union_iff (he.child hm)
        have hparts : ∀ u ∈ us, Fits env u (.intersection ms) ↔ ∀ m ∈ ms, Fits env u m :=
          fun u hu => ih u hu (ha.child hu)
        rw [forall₂_congr hmembers, forall₂_congr hparts]
        exact ⟨fun h m hm u hu => h u hu m hm, fun h u hu m hm => h m hm u hu⟩
      · exact fits_all (rule_intersection hany (legible_ne_exports ha)
          fun us hus => hunion ⟨us, hus⟩)

/-- Whatever fits a renamed class fits the class, unless it is `undefined` against `void`. -/
theorem fits_original_iff {a : Ty} {n s : ClassName} (ha : Legible a) (he : Legible (.renamed n s))
    (hvoid : (Ty.named s).isVoid = true → ∀ v, .value v ∈ a.parts → v.kind ≠ .undefined) :
    Fits env a (.renamed n s) ↔ Fits env a (.named s) := by
  have he' : Legible (.named s) := legible_original he
  induction a using Ty.children_induction with
  | step a ih =>
    have hchild : ∀ u ∈ a.children, Fits env u (.renamed n s) ↔ Fits env u (.named s) :=
      fun u hu => ih u hu (ha.child hu) fun hs v hv =>
        hvoid hs v (Ty.parts_subset_of_mem_children hu hv)
    have hrenamed : Undivided (.renamed n s) := trivial
    have hnamed : Undivided (.named s) := trivial
    cases a with
    | value v =>
      have hclass : Direct (.named v.widen) := trivial
      rw [fits_of_value_iff he hrenamed (by simp) fun _ => rfl,
        fits_of_value_iff he' hnamed (by simp), fits_renamed_iff hclass]
      intro hkind
      by_contra hs
      exact hvoid (Bool.not_eq_false _ ▸ hs) v (Ty.mem_parts_self _) hkind
    | renamed m r =>
      have hclass : Direct (.named r) := trivial
      rw [fits_of_renamed he, fits_of_renamed he', fits_renamed_iff hclass]
    | union us =>
      rw [fits_of_union_iff he, fits_of_union_iff he']
      exact forall₂_congr hchild
    | intersection us =>
      rw [fits_of_intersection_iff ha he hrenamed, fits_of_intersection_iff ha he' hnamed]
      exact exists_congr fun u => and_congr_right fun hu => hchild u hu
    | moduleExports t => exact absurd ha.node id
    | named c => exact fits_renamed_iff (a := .named c) trivial
    | function ps r t => exact fits_renamed_iff (a := .function ps r t) trivial
    | object fs => exact fits_renamed_iff (a := .object fs) trivial
    | generic b as => exact fits_renamed_iff (a := .generic b as) trivial
    | tuple is => exact fits_renamed_iff (a := .tuple is) trivial

end Leaves

/-! ### A name on the other side -/

/-- The types that are compared with the name `e` as with what it stands for. -/
inductive LooksThrough (env : Env) (e : Ty) : Ty → Prop
  /-- A type that stands for itself. -/
  | settled {t : Ty} : Direct t → env.step? t = none → LooksThrough env e t
  /-- A name that stands for neither a value nor a connective. -/
  | resolved {t : Ty} : Direct t → env.step? (env.resolve t) = none → Direct (env.resolve t) →
      FitsItself env (env.resolve t) →
      (∀ u ∈ (env.resolve e).parts, env.step? (env.resolve u) = none) → LooksThrough env e t
  /-- A value, where it is widened for what `e` stands for as well. -/
  | value {v : Value} : Direct (env.resolve e) →
      (v.kind = .undefined → (env.resolve e).isVoid = false) → env.step? (.named v.widen) = none →
      LooksThrough env e (.value v)
  | renamed {n s : ClassName} : LooksThrough env e (.named s) → LooksThrough env e (.renamed n s)
  | union {ms : List Ty} : (∀ m ∈ ms, LooksThrough env e m) → LooksThrough env e (.union ms)
  | intersection {ms : List Ty} : Undivided (env.resolve e) → (∀ m ∈ ms, LooksThrough env e m) →
      LooksThrough env e (.intersection ms)

section LooksThrough

variable {env : Env}

/-- **Types look through a name**: they fit it if and only if they fit what it stands for. -/
theorem LooksThrough.fits (henv : LegibleEnv env) (hkeeps : KeepsBuiltins env) {e : Ty}
    (he : Direct e) (hlegible : Legible e) (hends : env.step? (env.resolve e) = none) {t : Ty}
    (h : LooksThrough env e t) (ht : Legible t) : Fits env t e ↔ Fits env t (env.resolve e) := by
  cases hstep : env.step? e with
  | none => rw [resolve_of_step?_none hstep]
  | some e' =>
    have hresolved : Legible (env.resolve e) := resolveWithin_legible henv _ hlegible
    induction h with
    | settled hdirect hnone => exact fits_resolve hdirect hnone he hends
    | @resolved t hdirect hends' hdirect' hself hparts =>
      cases hstep' : env.step? t with
      | none => exact fits_resolve hdirect hstep' he hends
      | some t' =>
        have hresolved' : Legible (env.resolve t) := resolveWithin_legible henv _ ht
        have hself' := hself.fits henv hresolved'
        rw [fits_direct_of_resolved henv hdirect (.inl ht) hstep' hends' hdirect' hself' (.inl he)
            hends,
          fits_of_resolved henv hkeeps hdirect (.inl ht) hstep' hends' hdirect' hself' hresolved
            hparts]
        exact fits_resolve hdirect' hends' he hends
    | @value v hdirect hvoid hclass =>
      have hwide : Direct (.named v.widen) := trivial
      rw [fits_of_value_iff hlegible he.undivided he.ne_value fun _ => isBuiltin_of_step? hstep "void",
        fits_of_value_iff hresolved hdirect.undivided hdirect.ne_value hvoid]
      exact fits_resolve hwide hclass he hends
    | renamed _ ih =>
      rw [fits_of_renamed hlegible, fits_of_renamed hresolved]
      exact ih (legible_original ht)
    | union _ ih =>
      rw [fits_of_union_iff hlegible, fits_of_union_iff hresolved]
      exact forall₂_congr fun m hm => ih m hm (ht.child hm)
    | intersection hundivided _ ih =>
      rw [fits_of_intersection_iff ht hlegible he.undivided,
        fits_of_intersection_iff ht hresolved hundivided]
      exact exists_congr fun m => and_congr_right fun hm => ih m hm (ht.child hm)

end LooksThrough

/-! ### Types that are shown what a name stands for -/

/-- A class by its own name, and a renamed class by the name it had. -/
def sameName (body e : Ty) : Prop := e = body ∨ ∃ n s, body = .renamed n s ∧ e = .named s

/-- The types with which `name` is compared as the type `body` it was given is. -/
inductive Shown (env : Env) (name : String) (body : Ty) : Ty → Prop
  /-- A type that stands for itself. -/
  | settled {e : Ty} : Leafy e → env.step? e = none → Shown env name body e
  /-- A name, where `body` is a name as well or looks through it. -/
  | expanded {e : Ty} : Direct e → env.step? (env.resolve e) = none →
      ((env.step? body).isSome = true ∨ LooksThrough env e body) →
      (e = .ofName name ∨ sameName body e → FitsItself env (env.resolve e)) → Shown env name body e
  | renamed {n s : ClassName} : Shown env name body (.named s) →
      ((Ty.named s).isVoid = true → ∀ v, .value v ∈ body.parts → v.kind ≠ .undefined) →
      Shown env name body (.renamed n s)
  /-- A union, where `body` is not itself taken apart first. -/
  | union {ms : List Ty} : (∀ us, body ≠ .union us) → (∀ m ∈ ms, Shown env name body m) →
      Shown env name body (.union ms)
  | intersection {ms : List Ty} : (∀ m ∈ ms, Shown env name body m) →
      Shown env name body (.intersection ms)

section Shown

variable {env : Env} {name : String} {body : Ty}

theorem Named.resolve_legible (h : Named env name body) :
    Legible (env.resolve (.ofName name)) := resolveWithin_legible h.legible _ h.name_legible

/-- If a type that was given a name leads on, it does so by a name of its own. -/
theorem Named.name_of_body (h : Named env name body) {t : Ty} (hnext : env.step? body = some t) :
    ∃ b, sameName body b ∧ Direct b ∧ Legible b ∧ env.step? b = some t ∧
      env.resolve b = env.resolve (.ofName name) ∧
      ∀ {e}, Legible e → (Fits env body e ↔ Fits env b e) := by
  have hlegible := h.body_legible
  have hresolve := h.resolve_body
  cases body with
  | named c =>
    exact ⟨.named c, .inl rfl, trivial, hlegible, hnext, hresolve, fun _ => Iff.rfl⟩
  | generic b as =>
    exact ⟨.generic b as, .inl rfl, trivial, hlegible, hnext, hresolve, fun _ => Iff.rfl⟩
  | renamed n s =>
    have hstep : env.step? (.named s) = some t :=
      (step?_original h.keepsBuiltins hlegible).symm.trans hnext
    have hsame : env.resolve (.named s) = env.resolve (.ofName name) := by
      rw [← hresolve]
      exact resolve_of_step? hstep hnext
    exact ⟨.named s, .inr ⟨n, s, rfl, rfl⟩, trivial, legible_original hlegible, hstep, hsame,
      fun he => fits_of_renamed he⟩
  | moduleExports u => exact absurd hlegible.node id
  | _ => cases hnext

/-- A name fits what stands for itself if and only if the type it was given does. -/
theorem Named.fits_of_settled (h : Named env name body) {e : Ty} (he : Leafy e)
    (hlegible : Legible e) (hstep : env.step? e = none) :
    Fits env (.ofName name) e ↔ Fits env body e := by
  have hname : Direct (.ofName name) := trivial
  rw [fits_name h.legible hname h.step? h.ends h.resolve_legible he hlegible hstep]
  cases hnext : env.step? body with
  | none => rw [← h.resolve_body, resolve_of_step?_none hnext]
  | some t =>
    obtain ⟨b, -, hb, -, hstep', hresolve, hfits⟩ := h.name_of_body hnext
    rw [hfits hlegible, ← hresolve]
    refine (fits_name h.legible hb hstep' ?_ ?_ he hlegible hstep).symm
    · rw [hresolve]
      exact h.ends
    · rw [hresolve]
      exact h.resolve_legible

/-- A name fits another if and only if the type it was given does, where that leads on. -/
theorem Named.fits_of_leading (h : Named env name body) {t : Ty} (hnext : env.step? body = some t)
    {e : Ty} (he : Direct e) (hlegible : Legible e) (hany : e.isAny = false)
    (hself : e = .ofName name ∨ sameName body e → FitsItself env (env.resolve e)) :
    Fits env (.ofName name) e ↔ Fits env body e := by
  obtain ⟨b, hsame, hb, hblegible, hstep, hresolve, hfits⟩ := h.name_of_body hnext
  have hname : Direct (.ofName name) := trivial
  have hends : env.step? (env.resolve b) = none := by
    rw [hresolve]
    exact h.ends
  -- Either side may be the very name `e`; the other then leads to what `e` stands for.
  have hother : ∀ {a : Ty}, e = .ofName name ∨ sameName body e →
      env.resolve e = env.resolve (.ofName name) →
      rule env a e = .expand (env.resolve (.ofName name)) (env.resolve e) → Fits env a e := by
    intro a hwhich hresolve' hrule
    have hself' := hself hwhich
    rw [hresolve'] at hself' hrule
    exact fits_of_same h.legible hrule h.resolve_legible h.ends
      (hself'.fits h.legible h.resolve_legible)
  rw [hfits hlegible]
  rcases rule_name hname h.step? h.ends (.inl he) hany with ⟨rfl, hrule⟩ | hrule
  · refine iff_of_true (fits_of_rule hrule) ?_
    rcases rule_name hb hstep hends (.inl he) hany with ⟨-, hrule'⟩ | hrule'
    · exact fits_of_rule hrule'
    · rw [hresolve] at hrule'
      exact hother (.inl rfl) rfl hrule'
  · rcases rule_name hb hstep hends (.inl he) hany with ⟨rfl, hrule'⟩ | hrule'
    · exact iff_of_true (hother (.inr hsame) hresolve hrule) (fits_of_rule hrule')
    · rw [hresolve, ← hrule] at hrule'
      exact fits_congr_actual hrule'.symm (not_word_of_direct hname h.name_legible)
        (not_word_of_direct hb hblegible)

/-- A name fits another if and only if the type it was given does, where that looks through it. -/
theorem Named.fits_of_looking (h : Named env name body) (hnext : env.step? body = none) {e : Ty}
    (he : Direct e) (hlegible : Legible e) (hany : e.isAny = false)
    (hends : env.step? (env.resolve e) = none) (hlooks : LooksThrough env e body)
    (hself : e = .ofName name ∨ sameName body e → FitsItself env (env.resolve e)) :
    Fits env (.ofName name) e ↔ Fits env body e := by
  have hbody : env.resolve (.ofName name) = body := by
    rw [← h.resolve_body, resolve_of_step?_none hnext]
  have hname : Direct (.ofName name) := trivial
  rw [hlooks.fits h.legible h.keepsBuiltins he hlegible hends h.body_legible]
  rcases rule_name hname h.step? h.ends (.inl he) hany with ⟨rfl, hrule⟩ | hrule
  · have hself' := hself (.inl rfl)
    rw [hbody] at hself' ⊢
    exact iff_of_true (fits_of_rule hrule) (hself'.fits h.legible h.body_legible)
  · rw [hbody] at hrule
    by_cases hword : Word env body
    · -- A word looks through a name only where nothing is left to take apart.
      have hdirect : Direct (env.resolve e) := by
        obtain ⟨v, rfl, -⟩ := hword.exists_value h.body_legible
        cases hlooks with
        | settled hdirect _ => exact absurd hdirect id
        | resolved hdirect => exact absurd hdirect id
        | value hdirect _ _ => exact hdirect
      have hresolved : Legible (env.resolve e) := resolveWithin_legible h.legible _ hlegible
      exact fits_leaf h.legible hrule h.body_legible hresolved (.inl hdirect) hends
    · exact fits_expand hrule hword

/-- **A type is shown what a name stands for**: the name fits it if and only if the type that was
given the name does. -/
theorem Shown.fits (h : Named env name body) {e : Ty} (he : Shown env name body e)
    (hlegible : Legible e) : Fits env (.ofName name) e ↔ Fits env body e := by
  have hname : Direct (.ofName name) := trivial
  induction he with
  | settled hleafy hstep => exact h.fits_of_settled hleafy hlegible hstep
  | @expanded e hdirect hends hbody hself =>
    cases hstep : env.step? e with
    | none => exact h.fits_of_settled (.inl hdirect) hlegible hstep
    | some e' =>
      have hany := isAny_of_step? hstep
      cases hnext : env.step? body with
      | some t => exact h.fits_of_leading hnext hdirect hlegible hany hself
      | none =>
        rw [hnext] at hbody
        have hlooks := hbody.resolve_left Bool.false_ne_true
        exact h.fits_of_looking hnext hdirect hlegible hany hends hlooks hself
  | renamed _ hvoid ih =>
    rw [fits_renamed_iff hname, fits_original_iff h.body_legible hlegible hvoid]
    exact ih (legible_original hlegible)
  | union hunion _ ih =>
    rw [fits_union_iff hname hlegible, fits_union_choice (legible_ne_exports h.body_legible) hunion hlegible]
    exact exists_congr fun m => and_congr_right fun hm => ih m hm (hlegible.child hm)
  | intersection _ ih =>
    rw [fits_intersection_iff hname, fits_all_members h.body_legible hlegible]
    exact forall₂_congr fun m hm => ih m hm (hlegible.child hm)

/-- Two names that differ are compared by what they stand for. -/
theorem Named.fits_of_names (h : Named env name body)
    (hplain : ∀ v, env.resolve (.ofName name) = .value v → v.kind ≠ .null ∧ v.kind ≠ .undefined)
    {e : Ty} (he : Direct e) (hne : e ≠ .ofName name) :
    Fits env (.ofName name) e ↔ Fits env (env.resolve (.ofName name)) (env.resolve e) := by
  have hname : Direct (.ofName name) := trivial
  cases hany : e.isAny with
  | true =>
    have hself : env.resolve e = e := by
      refine resolve_of_step?_none ?_
      cases hstep : env.step? e with
      | none => rfl
      | some t =>
        rw [isAny_of_step? hstep] at hany
        cases hany
    rw [hself]
    exact iff_of_true (fits_any_right hany) (fits_any_right hany)
  | false =>
    rcases rule_name hname h.step? h.ends (.inl he) hany with ⟨hsame, -⟩ | hrule
    · exact absurd hsame.symm hne
    · refine fits_expand hrule fun hword => ?_
      obtain ⟨v, hv, hk⟩ := hword.exists_value h.resolve_legible
      exact hk.elim (hplain v hv).1 (hplain v hv).2

end Shown

/-! ### Comparisons of a name -/

/-- **Comparing a name with a type is comparing the type that was given the name with it**, if it is
shown what the name stands for; and two names are compared by what they stand for. -/
theorem check_of_alias {env : Env} {name : String} {body e : Ty}
    (henv : ∀ x ∈ env.aliases, Readable x.2.type ∧ isBuiltinClass x.1 = false)
    (hname : Readable (.ofName name)) (hgiven : env.plainAlias? name = some body)
    (hends : env.step? (env.resolve (.ofName name)) = none) (he : Readable e) :
    (Shown env name body e → SameVerdict env (.ofName name) e body e) ∧
      (Direct e → e ≠ .ofName name →
        (∀ v, env.resolve (.ofName name) = .value v → v.kind ≠ .null ∧ v.kind ≠ .undefined) →
        SameVerdict env (.ofName name) e (env.resolve (.ofName name)) (env.resolve e)) := by
  have hlegible : LegibleEnv env := fun x hx => (henv x hx).1.legible
  have h : Named env name body :=
    ⟨hlegible, hname.legible, fun x hx => (henv x hx).2, hgiven, hends⟩
  have hpair : Comparable (.ofName name) e := ⟨.inl hname.legible, he.legible⟩
  constructor
  · intro hshown
    refine sameVerdict_of_fits hlegible hpair ⟨.inl h.body_legible, he.legible⟩ ?_
    exact hshown.fits h he.legible
  · intro hdirect hne hplain
    have hresolved : Legible (env.resolve e) := resolveWithin_legible hlegible _ he.legible
    refine sameVerdict_of_fits hlegible hpair ⟨.inl h.resolve_legible, hresolved⟩ ?_
    exact h.fits_of_names hplain hdirect hne

/-- One of two figures, both by their names. -/
def figureType : Ty := readAs "Disc | Tile"

/-- What has an area. -/
def sizedType : Ty := readAs "\x7b area: Number \x7d"

/-- A union of names by name, and a name for what its members have in common. -/
def figureEnv : Env :=
  { Env.initial with
    aliases :=
      [("Disc", ⟨[], readAs "\x7b area: Number, radius: Number \x7d"⟩),
        ("Tile", ⟨[], readAs "\x7b area: Number, side: Number \x7d"⟩),
        ("Figure", ⟨[], figureType⟩), ("Sized", ⟨[], sizedType⟩)] }

theorem check_of_alias_figure :
    (check figureEnv 12 (.ofName "Figure") (readAs "Sized") []).1 = .fits ∧
      (check figureEnv 12 figureType (readAs "Sized") []).1 = .fits := by
  have hsized : Readable (readAs "Sized") := readable_readAs (by decide +kernel)
  have hfigure : Readable figureType := readable_readAs (by decide +kernel)
  have hname : Readable (.ofName "Figure") := ⟨⟨"Figure", rfl⟩, by decide⟩
  have henv : ∀ x ∈ figureEnv.aliases, Readable x.2.type ∧ isBuiltinClass x.1 = false := by
    simp only [figureEnv, List.forall_mem_cons]
    exact ⟨⟨readable_readAs (by decide +kernel), by decide⟩,
      ⟨readable_readAs (by decide +kernel), by decide⟩,
      ⟨readable_readAs (by decide +kernel), by decide⟩,
      ⟨readable_readAs (by decide +kernel), by decide⟩, by simp⟩
  have hends : ∀ t ∈ .ofName "Figure" :: readAs "Sized" :: figureType.parts ++
      (figureEnv.resolve (readAs "Sized")).parts,
      (figureEnv.step? (figureEnv.resolve t)).isNone = true := by decide +kernel
  have hends' : ∀ {t : Ty}, t ∈ .ofName "Figure" :: readAs "Sized" :: figureType.parts ++
      (figureEnv.resolve (readAs "Sized")).parts → figureEnv.step? (figureEnv.resolve t) = none :=
    fun ht => Option.isNone_iff_eq_none.mp (hends _ ht)
  have hgiven : figureEnv.plainAlias? "Figure" = some figureType := by
    simp [Env.plainAlias?, Env.alias?, figureEnv, List.lookup_cons]
  -- The members of the union are names of objects.
  have hmembers : ∀ m ∈ figureType.children, Direct m ∧ Direct (figureEnv.resolve m) ∧
      (check figureEnv 12 (figureEnv.resolve m) (figureEnv.resolve m) []).1 = .fits := by
    decide +kernel
  have hlooks : LooksThrough figureEnv (readAs "Sized") figureType := by
    have hrank : figureType.rank = 1 := by decide +kernel
    cases hms : figureType with
    | union ms =>
      rw [hms] at hmembers hends'
      refine .union fun m hm => ?_
      obtain ⟨hdirect, hdirect', hself⟩ := hmembers m hm
      have hpart : m ∈ (Ty.union ms).parts := Ty.parts_subset_of_mem_children hm m.mem_parts_self
      exact .resolved hdirect (hends' (by simp [hpart])) hdirect' ⟨12, hself⟩
        fun u hu => hends' (by simp [hu])
    | moduleExports u => exact absurd hms (legible_ne_exports hfigure.legible u)
    | _ => rw [hms] at hrank; cases hrank
  have hself : FitsItself figureEnv (figureEnv.resolve (readAs "Sized")) := ⟨12, by decide +kernel⟩
  have hshown : Shown figureEnv "Figure" figureType (readAs "Sized") :=
    .expanded (by decide +kernel) (hends' (by simp)) (.inr hlooks) fun _ => hself
  have hfits : (check figureEnv 12 (.ofName "Figure") (readAs "Sized") []).1 = .fits := by
    decide +kernel
  have hdecided : (check figureEnv 12 figureType (readAs "Sized") []).1 ≠ .undecided := by
    decide +kernel
  have hsame := (check_of_alias henv hname hgiven (hends' (by simp)) hsized).1 hshown 12 12
  exact ⟨hfits, (hsame (by rw [hfits]; decide) hdecided).mp hfits⟩

/-- One of two results. -/
def resultType : Ty := readAs "Number | String"

/-- A union by name. -/
def resultEnv : Env := { Env.initial with aliases := [("Result", ⟨[], resultType⟩)] }

/-- A value by name, and a union of values by name. -/
def verbEnv : Env :=
  { Env.initial with
    aliases := [("Verb", ⟨[], readAs "'GET'"⟩), ("Method", ⟨[], readAs "'GET' | 'POST'"⟩)] }

/-- A name for a union does not fit the union, and a name for a value fits where the value does
not. -/
theorem result_not_transparent :
    (resultEnv.plainAlias? "Result" = some resultType ∧
      resultEnv.step? (resultEnv.resolve (.ofName "Result")) = none ∧
      resultEnv.isSubtype resultType resultType = .fits ∧
      (resultEnv.isSubtype (.ofName "Result") resultType).decision = some false) ∧
    (verbEnv.plainAlias? "Verb" = some (readAs "'GET'") ∧
      verbEnv.step? (verbEnv.resolve (.ofName "Verb")) = none ∧
      verbEnv.isSubtype (.ofName "Verb") (.ofName "Method") = .fits ∧
      (verbEnv.isSubtype (readAs "'GET'") (.ofName "Method")).decision = some false) := by
  have hresult : resultEnv.plainAlias? "Result" = some resultType := by
    simp [Env.plainAlias?, Env.alias?, resultEnv]
  have hverb : verbEnv.plainAlias? "Verb" = some (readAs "'GET'") := by
    simp [Env.plainAlias?, Env.alias?, verbEnv]
  have hends : (resultEnv.step? (resultEnv.resolve (.ofName "Result"))).isNone = true ∧
      (verbEnv.step? (verbEnv.resolve (.ofName "Verb"))).isNone = true := by decide +kernel
  have hdepth : 8 ≤ resultEnv.comparisonDepth resultType resultType ∧
      8 ≤ resultEnv.comparisonDepth (.ofName "Result") resultType ∧
      8 ≤ verbEnv.comparisonDepth (.ofName "Verb") (.ofName "Method") ∧
      8 ≤ verbEnv.comparisonDepth (readAs "'GET'") (.ofName "Method") := by decide +kernel
  have hunion : decision resultEnv 8 resultType resultType [] = some true := by decide +kernel
  have hname : decision resultEnv 8 (.ofName "Result") resultType [] = some false := by
    decide +kernel
  have hnames : decision verbEnv 8 (.ofName "Verb") (.ofName "Method") [] = some true := by
    decide +kernel
  have hvalue : decision verbEnv 8 (readAs "'GET'") (.ofName "Method") [] = some false := by
    decide +kernel
  obtain ⟨hdepth₁, hdepth₂, hdepth₃, hdepth₄⟩ := hdepth
  exact ⟨⟨hresult, Option.isNone_iff_eq_none.mp hends.1, isSubtype_of_decision hdepth₁ hunion,
      decision_mono hdepth₂ _ _ _ _ hname⟩,
    hverb, Option.isNone_iff_eq_none.mp hends.2, isSubtype_of_decision hdepth₃ hnames,
    decision_mono hdepth₄ _ _ _ _ hvalue⟩

end Subtype
end Countersign
