/-
# Renamed classes

A class under another name is compared like the class itself, wherever it stands in a type, with two
exceptions. The other name is what counts in the base of a generic application. And `void` accepts
`undefined`, or any result of a function, only under its own name.

Alike types stand for alike types, so that what fits stays consistent with the rules under renamings.
What the text of a type decides needs care: a name that stands for `null` or `undefined` may fit by an
assumption about a text, and an application may lead in a circle back to its own text.

Key definitions: `Renamable`, `AlikeFits`.
Key theorems: `substitute_alike`, `resolveWithin_alike`, `AlikeFits.step`, `fits_of_alike`,
`check_renamed`.
-/
import Countersign.Proofs.Subtype.Alike
import Countersign.Proofs.Subtype.Aliases
import Countersign.Proofs.Subtype.Reflexive

namespace Countersign
namespace Subtype

open Signature

/-! ### What alike types stand for -/

/-- The named types under which renamings make no difference. -/
structure Renamable (env : Env) : Prop where
  readable : ∀ a ∈ env.aliases, Readable a.2.type ∧ isBuiltinClass a.1 = false
  /-- No parameter stands in the base of a generic application. -/
  bases : ∀ a ∈ env.aliases, ∀ b as, .generic b as ∈ a.2.type.parts → ∀ p ∈ a.2.params,
    .named (.user p) ∉ b.parts
  /-- An application that leads back to itself does so with all fields in the same order. -/
  circles : ∀ b as, as ≠ [] → env.settled (.generic b as) = true →
    env.resolve (.generic b as) = .generic b as
  /-- Where names have parameters, none stands for `null` or `undefined`. -/
  words : (∀ a ∈ env.aliases, a.2.params = []) ∨
    ∀ t, Direct t → Word env (env.resolve t) → Word env t

section Resolution

variable {env : Env}

theorem Renamable.legible (henv : Renamable env) : LegibleEnv env :=
  fun a ha => (henv.readable a ha).1.legible

theorem Renamable.keepsBuiltins (henv : Renamable env) : KeepsBuiltins env :=
  fun a ha => (henv.readable a ha).2

theorem alike_getD {t u : Option Ty} (h : Option.Rel Alike t u) (v : Ty) :
    Alike (t.getD v) (u.getD v) := by
  cases h with
  | none => exact .refl v
  | some htu => exact htu

theorem optionRel_cases {t u : Option Ty} (h : Option.Rel Alike t u) :
    t = none ∧ u = none ∨ ∃ v w, t = some v ∧ u = some w ∧ Alike v w := by
  cases h with
  | none => exact .inl ⟨rfl, rfl⟩
  | some hvw => exact .inr ⟨_, _, rfl, rfl, hvw⟩

theorem argument?_eq_none {params : List String} {name : String} (h : name ∉ params)
    (args : List Ty) : Ty.argument? params args name = none := by
  refine List.lookup_eq_none_iff.mpr fun p hp => ?_
  rw [bne_iff_ne]
  rintro rfl
  exact h (List.of_mem_zip hp).1

/-- A type is instantiated alike by alike arguments, if no parameter stands in a base. -/
theorem substitute_alike {params : List String} {args args' : List Ty}
    (hargs : List.Forall₂ Alike args args') {t : Ty}
    (hbases : ∀ b as, .generic b as ∈ t.parts → ∀ p ∈ params, .named (.user p) ∉ b.parts) :
    Alike (t.substitute params args) (t.substitute params args') := by
  induction t using Ty.children_induction with
  | step t ih =>
    have hchild : ∀ u ∈ t.children,
        (u.substitute params args).unrenamed = (u.substitute params args').unrenamed :=
      fun u hu => ih u hu fun b as hb => hbases b as (Ty.parts_subset_of_mem_children hu hb)
    have hmap : ∀ us : List Ty, us ⊆ t.children →
        Ty.unrenamedAll (Ty.substituteAll params args us) =
          Ty.unrenamedAll (Ty.substituteAll params args' us) := by
      intro us hus
      rw [unrenamedAll_eq, unrenamedAll_eq, Ty.substituteAll_eq, Ty.substituteAll_eq, List.map_map,
        List.map_map]
      exact List.map_congr_left fun u hu => hchild u (hus hu)
    unfold Alike
    cases t with
    | named c =>
      rw [Ty.substitute, Ty.substitute]
      split
      · rfl
      · have hzip : AlikeUnder (params.zip args) (params.zip args') :=
          forall₂_zip_zip (List.forall₂_refl params) hargs
        exact alike_getD (lookup_alike hzip c.name) (.named c)
    | value v => rfl
    | renamed n s => rfl
    | function ps r receiver =>
      have hparams : ∀ q ∈ ps, (q.2.substitute params args).unrenamed =
          (q.2.substitute params args').unrenamed :=
        fun q hq => hchild q.2 (List.mem_append_left _ (List.mem_map_of_mem (f := (·.2)) hq))
      have hresult := hchild r (List.mem_append_right _ List.mem_cons_self)
      have hreceiver : ∀ u ∈ receiver, (u.substitute params args).unrenamed =
          (u.substitute params args').unrenamed :=
        fun u hu => hchild u (List.mem_append_right _
          (List.mem_cons_of_mem _ (Option.mem_toList.mpr hu)))
      simp only [Ty.substitute_function, Ty.unrenamed, unrenamedParams_eq, unrenamedReceiver_eq,
        List.map_map, Option.map_map, hresult]
      congr 1
      · exact List.map_congr_left fun q hq => congrArg (Prod.mk q.1) (hparams q hq)
      · exact Option.map_congr hreceiver
    | object fs =>
      simp only [Ty.substitute_object, Ty.unrenamed, unrenamedFields_eq, List.map_map]
      refine congrArg Ty.object (List.map_congr_left fun f hf => ?_)
      exact congrArg (Prod.mk f.1) (hchild f.2 (List.mem_map_of_mem (f := (·.2)) hf))
    | union ms => simp only [Ty.substitute, Ty.unrenamed, hmap ms (List.Subset.refl ms)]
    | intersection ms => simp only [Ty.substitute, Ty.unrenamed, hmap ms (List.Subset.refl ms)]
    | generic b as =>
      have hbase : b.substitute params args = b.substitute params args' := by
        refine Ty.substitute_congr fun p hp => ?_
        have hnot : p ∉ params := fun hmem =>
          hbases b as (Ty.mem_parts_self _) p hmem hp
        rw [argument?_eq_none hnot, argument?_eq_none hnot]
      simp only [Ty.substitute, Ty.unrenamed, hbase, hmap as (List.subset_cons_self b as)]
    | tuple is => simp only [Ty.substitute, Ty.unrenamed, hmap is (List.Subset.refl is)]
    | moduleExports u =>
      simp only [Ty.substitute, Ty.unrenamed, hchild u (List.mem_singleton_self u)]

/-- An alias whose body has no room for arguments is instantiated by its body. -/
theorem substitute_of_shared {params : List String} {t : Ty}
    (h : Env.sharedPart params t = some true) (args : List Ty) : t.substitute params args = t := by
  cases t with
  | named c =>
    rw [Env.sharedPart, Option.some_inj, Bool.or_eq_true, Bool.not_eq_true'] at h
    rw [Ty.substitute]
    split
    · rfl
    · rename_i hbuiltin
      have hnot : c.name ∉ params := by
        simpa using h.resolve_left hbuiltin
      rw [argument?_eq_none hnot]
      rfl
  | value v => rfl
  | renamed n s => rfl
  | _ => cases h

theorem genericAlias?_mem {base : Ty} {args : List Ty} {a : Alias}
    (h : env.genericAlias? base args = some a) : ∃ name, (name, a) ∈ env.aliases := by
  obtain ⟨a', ha, hlength⟩ := Option.bind_eq_some_iff.mp h
  obtain ⟨name, -, hlookup⟩ := Option.bind_eq_some_iff.mp ha
  split at hlength
  · cases hlength
    exact ⟨name, mem_of_lookup hlookup⟩
  · cases hlength

theorem Calls.step? (hkeeps : KeepsBuiltins env) {c : ClassName} {t : Ty} (h : Calls c t)
    (ht : Legible t ∨ ∃ d, t = .named d) : env.step? t = env.step? (.named c) := by
  rcases h with rfl | ⟨n, rfl⟩
  · rfl
  · rcases ht with ht | ⟨d, hd⟩
    · exact step?_original hkeeps ht
    · cases hd

/-- A step of resolution leads from alike types to alike types. -/
theorem step?_alike (henv : Renamable env) {x b : Ty} (hx : Legible x ∨ ∃ c, x = .named c)
    (hb : Legible b ∨ ∃ c, b = .named c) (h : Alike x b) :
    Option.Rel Alike (env.step? x) (env.step? b) := by
  have hrefl : ∀ t, Option.Rel Alike (env.step? t) (env.step? t) := by
    intro t
    cases env.step? t with
    | none => exact .none
    | some u => exact .some (.refl u)
  rcases h.cases with hnode | ⟨c, -, hxc, hbc⟩
  · cases hnode with
    | named c => exact hrefl _
    | renamed n s => exact hrefl _
    | @generic d as bs has =>
      have hsame : env.genericAlias? d as = env.genericAlias? d bs := by
        rw [Env.genericAlias?, Env.genericAlias?, has.length_eq]
      rw [Env.step?, Env.step?, hsame]
      cases halias : env.genericAlias? d bs with
      | none => exact .none
      | some a =>
        obtain ⟨name, ha⟩ := genericAlias?_mem halias
        exact .some (substitute_alike has (henv.bases _ ha))
    | moduleExports htu => exact .some htu
    | _ => exact .none
  · rw [hxc.step? henv.keepsBuiltins hx, hbc.step? henv.keepsBuiltins hb]
    exact hrefl _

theorem resolveWithin_alike (henv : Renamable env) : ∀ (limit : Nat) {x b : Ty},
    (Legible x ∨ ∃ c, x = .named c) → (Legible b ∨ ∃ c, b = .named c) → Alike x b →
      Alike (env.resolveWithin limit x) (env.resolveWithin limit b)
  | 0, x, b, _, _, h => h
  | limit + 1, x, b, hx, hb, h => by
    rw [Env.resolveWithin, Env.resolveWithin]
    rcases optionRel_cases (step?_alike henv hx hb h) with ⟨hnone, hnone'⟩ | ⟨u, v, hu, hv, huv⟩
    · rw [hnone, hnone']
      exact h
    · rw [hu, hv]
      exact resolveWithin_alike henv limit (.inl (step?_legible henv.legible hx hu))
        (.inl (step?_legible henv.legible hb hv)) huv

/-- Where a step leads to a stored type, it does so from alike types. -/
theorem step?_eq_of_stored (henv : Renamable env) {x b u : Ty} {stored : Bool}
    (hx : Legible x ∨ ∃ c, x = .named c) (hb : Legible b ∨ ∃ c, b = .named c) (h : Alike x b)
    (hsame : stored = true → x = b) (hstep : env.step? b = some u)
    (hstored : env.stepIsStored stored b = true) : env.step? x = some u := by
  rcases h.cases with hnode | ⟨c, -, hxc, hbc⟩
  · cases hnode with
    | @generic d as bs has =>
      have halias : env.genericAlias? d as = env.genericAlias? d bs := by
        rw [Env.genericAlias?, Env.genericAlias?, has.length_eq]
      rw [Env.stepIsStored] at hstored
      rw [Env.step?] at hstep ⊢
      rw [halias]
      obtain ⟨a, ha, rfl⟩ := Option.map_eq_some_iff.mp hstep
      rw [ha, Option.bind_some] at hstored
      rw [ha, Option.map_some]
      split at hstored
      · rename_i hshared
        rw [substitute_of_shared hshared as, substitute_of_shared hshared bs]
      · cases hsame hstored
        rfl
      · cases hstored
    | moduleExports _ =>
      rcases hb with hb | ⟨c, hc⟩
      · exact absurd hb.node id
      · cases hc
    | _ => exact hstep
  · rw [hxc.step? henv.keepsBuiltins hx, ← hbc.step? henv.keepsBuiltins hb]
    exact hstep

/-- Types that are alike to one whose names lead in a circle lead where it does. -/
theorem resolveWithin_eq_of_circles (henv : Renamable env) {target : Ty} :
    ∀ (limit : Nat) {stored : Bool} {x b : Ty}, (Legible x ∨ ∃ c, x = .named c) →
      (Legible b ∨ ∃ c, b = .named c) → Alike x b → (stored = true → x = b) →
        env.circles target limit stored b = true →
          env.resolveWithin limit x = env.resolveWithin limit b
  | 0, stored, x, b, _, _, _, hsame, hcircles => by
    rw [Env.circles, Bool.and_eq_true] at hcircles
    exact hsame hcircles.1
  | limit + 1, stored, x, b, hx, hb, h, hsame, hcircles => by
    rw [Env.circles] at hcircles
    rw [Env.resolveWithin, Env.resolveWithin]
    rcases optionRel_cases (step?_alike henv hx hb h) with ⟨-, hnone⟩ | ⟨u, v, hu, hv, huv⟩
    · rw [hnone] at hcircles
      cases hcircles
    · rw [hv] at hcircles
      rw [hu, hv]
      refine resolveWithin_eq_of_circles henv limit (.inl (step?_legible henv.legible hx hu))
        (.inl (step?_legible henv.legible hb hv)) huv (fun hstored => ?_) hcircles
      have hx' := step?_eq_of_stored henv hx hb h hsame hv hstored
      rw [hu] at hx'
      exact Option.some.inj hx'

theorem eq_of_same {t u : Ty} (h : Ty.same t u = true) (hu : u.literalName.isSome = true) :
    t = u := by
  cases u with
  | named c =>
    cases t with
    | named d =>
      rw [Ty.same, beq_iff_eq] at h
      rw [h]
    | _ => cases h
  | renamed n s =>
    cases t with
    | renamed m c =>
      rw [Ty.same, Bool.and_eq_true, beq_iff_eq, beq_iff_eq] at h
      rw [h.1, h.2]
    | _ => cases h
  | _ => cases hu

/-- A type that resolution leaves where it is stands for itself. -/
theorem resolve_of_settled (henv : Renamable env) {t : Ty} (ht : Legible t ∨ ∃ c, t = .named c)
    (h : env.settled t = true) : env.resolve t = t := by
  cases hstep : env.step? t with
  | none => exact resolve_of_step?_none hstep
  | some u =>
    have hsame : Ty.same (env.resolve t) t = true := by
      rw [Env.settled, hstep, Option.isNone_some, Bool.false_or] at h
      exact circles_same _ _ _ h
    cases t with
    | named c => exact eq_of_same hsame rfl
    | renamed n s => exact eq_of_same hsame rfl
    | generic b as =>
      rcases ht with ht | ⟨c, hc⟩
      · exact henv.circles b as ht.node h
      · cases hc
    | moduleExports v =>
      rcases ht with ht | ⟨c, hc⟩
      · exact absurd ht.node id
      · cases hc
    | _ => cases hstep

/-- A type that is alike to one that resolution leaves where it is stands for that one, or is left
where it is as well. -/
theorem settled_alike (henv : Renamable env) {x b : Ty} (hx : Legible x ∨ ∃ c, x = .named c)
    (hb : Legible b ∨ ∃ c, b = .named c) (h : Alike x b) (hsettled : env.settled b = true) :
    env.settled x = true ∨ env.resolve x = b := by
  rcases optionRel_cases (step?_alike henv hx hb h) with ⟨hnone, -⟩ | ⟨u, v, -, hv, -⟩
  · exact .inl (by rw [Env.settled, hnone, Option.isNone_none, Bool.true_or])
  · refine .inr (Eq.trans ?_ (resolve_of_settled henv hb hsettled))
    rw [Env.settled, hv, Option.isNone_some, Bool.false_or] at hsettled
    exact resolveWithin_eq_of_circles henv Env.resolutionLimit hx hb h
      (fun hfalse => absurd hfalse Bool.false_ne_true) hsettled

end Resolution

/-! ### Alike types fit alike -/

section Fits

variable {env : Env} {x y b f : Ty}

/-- What is consistent with the rules, hidden words apart, fits. -/
theorem fits_coinduction {R : Ty → Ty → Prop}
    (h : ∀ b f, R b f → Fits env b f ∨ ¬ Hidden env b f ∧ (rule env b f).Holds R)
    (hbf : R b f) : Fits env b f := by
  refine ⟨fun b f => R b f ∨ Fits env b f, fun b f hor => ?_, .inl hbf⟩
  have hfits : Fits env b f → (leafSystem env b f).Holds fun b f => R b f ∨ Fits env b f :=
    fun hfits => (compatible_consistent _ b f hfits).mono fun _ _ h => .inr h
  rcases hor with hR | hold
  · rcases h b f hR with hold | ⟨hhidden, hholds⟩
    · exact hfits hold
    · rw [leafSystem, if_neg hhidden]
      exact hholds.mono fun _ _ h => .inl h
  · exact hfits hold

theorem Calls.fits {c : ClassName} (h : Calls c x) (hy : Legible y) :
    Fits env x y ↔ Fits env (.named c) y := by
  rcases h with rfl | ⟨n, rfl⟩
  · exact Iff.rfl
  · exact fits_of_renamed hy

/-- What fits a class fits it under another name, unless it is `void`. -/
theorem fits_expected_renamed {n s : ClassName} (hvoid : s.isBuiltin "void" = false)
    (hs : Legible (.renamed n s)) (hx : Legible x ∨ WordClass x) :
    Fits env x (.renamed n s) ↔ Fits env x (.named s) := by
  have hnamed := legible_original hs
  induction x using Ty.children_induction with
  | step x ih =>
    have hmember : ∀ m ∈ x.children, Fits env m (.renamed n s) ↔ Fits env m (.named s) :=
      fun m hm => ih m hm (.inl (Legible.child_of hx hm))
    cases x with
    | value v =>
      rw [fits_of_value_iff hs trivial nofun fun _ => rfl,
        fits_of_value_iff hnamed trivial nofun fun _ => hvoid]
      exact fits_renamed_iff trivial
    | renamed m c =>
      rw [fits_of_renamed hs, fits_of_renamed hnamed]
      exact fits_renamed_iff trivial
    | union ms =>
      rw [fits_of_union_iff hs, fits_of_union_iff hnamed]
      exact forall₂_congr hmember
    | intersection ms =>
      have hms := hx.resolve_right fun ⟨_, _, hword⟩ => nomatch hword
      rw [fits_of_intersection_iff hms hs trivial, fits_of_intersection_iff hms hnamed trivial]
      exact exists_congr fun m => and_congr_right (hmember m)
    | moduleExports t =>
      exact absurd (hx.resolve_right fun ⟨_, _, hword⟩ => nomatch hword).node id
    | _ => exact fits_renamed_iff trivial

theorem Calls.fits_expected {c : ClassName} (hvoid : c.isBuiltin "void" = false) (h : Calls c y)
    (hpair : Comparable x y) : Fits env x y ↔ Fits env x (.named c) := by
  rcases h with rfl | ⟨n, rfl⟩
  · exact Iff.rfl
  · exact fits_expected_renamed hvoid hpair.expected hpair.actual

/-- The types are alike to types that fit. -/
structure AlikeFits (env : Env) (b f : Ty) : Prop where
  comparable : Comparable b f
  alike : ∃ x y, Alike x b ∧ Alike y f ∧ Comparable x y ∧ Fits env x y

/-- Types are alike to types that fit and have the same outermost nodes, if to any. -/
theorem AlikeFits.sameNode (h : AlikeFits env b f) : ∃ x y, SameNode x b ∧ SameNode y f ∧
    Alike x b ∧ Alike y f ∧ Comparable x y ∧ Fits env x y := by
  obtain ⟨hbf, x, y, hxb, hyf, hxy, hfits⟩ := h
  -- One class under two names is replaced on the left first, and then on the right.
  obtain ⟨x, hnode, hxb, hxy, hfits⟩ : ∃ x, SameNode x b ∧ Alike x b ∧ Comparable x y ∧
      Fits env x y := by
    rcases hxb.cases with hnode | ⟨c, -, hx, hb⟩
    · exact ⟨x, hnode, hxb, hxy, hfits⟩
    · refine ⟨b, .refl b, .refl b, ⟨hbf.actual, hxy.expected⟩, ?_⟩
      exact (hb.fits hxy.expected).mpr ((hx.fits hxy.expected).mp hfits)
  rcases hyf.cases with hnode' | ⟨c, hvoid, hy, hf⟩
  · exact ⟨x, y, hnode, hnode', hxb, hyf, hxy, hfits⟩
  · have hxf : Comparable x f := ⟨hxy.actual, hbf.expected⟩
    refine ⟨x, f, hnode, .refl f, hxb, .refl f, hxf, ?_⟩
    exact (hf.fits_expected hvoid hxf).mpr ((hy.fits_expected hvoid hxy).mp hfits)

/-- Where rules ask for alike pairs, no names are resolved. -/
theorem Rule.Alike.not_hidden {r : Rule} (h : (rule env b f).Alike r ∨ r.Alike (rule env b f)) :
    ¬ Hidden env b f := by
  rintro ⟨-, c, g, hrule, -⟩
  rw [hrule] at h
  rcases h with h | h
  · cases h
  · cases h

/-- A pair whose rule asks for what is alike to what a pair that fits asks for. -/
theorem holds_of_alike (henv : LegibleEnv env) (hbf : Comparable b f) (hxy : Comparable x y)
    (h : (rule env x y).Alike (rule env b f)) (hfits : Fits env x y) :
    (rule env b f).Holds (AlikeFits env) := by
  have hholds := (fits_iff_holds (Rule.Alike.not_hidden (.inl h))).mp hfits
  have hparts : (rule env x y).Holds fun c g => Comparable c g ∧ Fits env c g :=
    hholds.mono_asks fun _ _ _ hasks hpart => ⟨hxy.asks henv hasks, hpart⟩
  exact (h.holds hparts).mono_asks fun _ _ _ hasks hpart => ⟨hbf.asks henv hasks, hpart⟩

/-- What types stand for fits if they do, unless the first is a hidden word. -/
theorem Resolving.fits_resolve (henv : Renamable env) (h : Resolving x y) (hxy : Comparable x y)
    (hhidden : ¬ Hidden env x y) (hfits : Fits env x y) :
    Fits env (env.resolve x) (env.resolve y) := by
  by_cases hsettled : (env.settled x && env.settled y) = true
  · rw [Bool.and_eq_true] at hsettled
    rw [resolve_of_settled henv hxy.named_or_legible hsettled.1,
      resolve_of_settled henv (.inl hxy.expected) hsettled.2]
    exact hfits
  · have hholds := (fits_iff_holds hhidden).mp hfits
    rw [h.rule, resolvedRule, if_neg hsettled] at hholds
    exact hholds

theorem SameNode.word_iff (h : SameNode x b) : Word env x ↔ Word env b := by
  cases h with
  | named c => exact Iff.rfl
  | value v => exact Iff.rfl
  | _ => exact ⟨nofun, nofun⟩

theorem Word.eq_of_alike {w u : Ty} (h : Word env w) (halike : Alike w u)
    (hu : Legible u ∨ ∃ c, u = .named c) : u = w := by
  rcases halike.cases with hnode | ⟨c, -, hw, hcalls⟩
  · cases hnode with
    | named c => rfl
    | value v => rfl
    | _ => cases h
  · obtain rfl : w = .named c := by
      rcases hw with rfl | ⟨n, rfl⟩
      · rfl
      · cases h
    rcases hcalls with rfl | ⟨n, rfl⟩
    · rfl
    · rcases hu with hu | ⟨d, hd⟩
      · exact absurd h (not_word_of_direct trivial (legible_original hu))
      · cases hd

/-- The class of a word does not fit a type with parts. -/
theorem rule_word_class {k : ValueKind} (hplain : env.plainAlias? k.word = none) (hy : Direct y)
    (hname : ∀ c, y ≠ .named c) (hstep : env.step? y = none) :
    rule env (.named ⟨k.word, false⟩) y = .differs := by
  have hany : ((Ty.named ⟨k.word, false⟩).isAny || y.isAny) = false := by
    cases y with
    | named c => exact absurd rfl (hname c)
    | _ => rfl
  have hsettled : env.settled (.named ⟨k.word, false⟩) = true := by
    have hnone : env.step? (.named ⟨k.word, false⟩) = none := hplain
    rw [Env.settled, hnone, Option.isNone_none, Bool.true_or]
  have hsettled' : env.settled y = true := by
    rw [Env.settled, hstep, Option.isNone_none, Bool.true_or]
  have hdirect : Direct (.named ⟨k.word, false⟩) := trivial
  rw [rule_direct hdirect (.inl hy) hany (fun c _ => hname c), resolvedRule, hsettled, hsettled',
    Bool.and_self, if_pos rfl]
  cases y with
  | named c => exact absurd rfl (hname c)
  | generic c as => rfl
  | _ => rfl

/-- A word does not fit a type with parts. -/
theorem Word.ne_true {w : Ty} (h : Word env w) (hy : Direct y) (hname : ∀ c, y ≠ .named c)
    (hstep : env.step? y = none) (depth : Nat) (given : Assumed) :
    decision env depth w y given ≠ some true := by
  have hclass : ∀ {k : ValueKind}, env.plainAlias? k.word = none → ∀ depth given,
      decision env depth (.named ⟨k.word, false⟩) y given ≠ some true := by
    intro k hplain depth given
    cases depth with
    | zero => exact nofun
    | succ depth =>
      rw [decision_succ, rule_word_class hplain hy hname hstep]
      exact nofun
  cases h with
  | cls _ hplain => exact hclass hplain depth given
  | @value k hk hplain =>
    cases depth with
    | zero => exact nofun
    | succ depth =>
      have hrule : rule env (.value ⟨k.word, k⟩) y = .just (.named ⟨k.word, false⟩) y := by
        rcases hk with rfl | rfl <;> cases y <;>
          first | rfl | exact absurd rfl (hname _) | exact absurd hy id
      rw [decision_succ, hrule, decide_just]
      exact hclass hplain depth given

theorem step?_generic (hparams : ∀ a ∈ env.aliases, a.2.params = []) {c : Ty} {as : List Ty}
    (hlegible : Legible (.generic c as)) : env.step? (.generic c as) = none := by
  have hne : as ≠ [] := hlegible.node
  rw [Env.step?, Option.map_eq_none_iff]
  refine Option.eq_none_iff_forall_ne_some.mpr fun a ha => ?_
  obtain ⟨name, hmem⟩ := genericAlias?_mem ha
  obtain ⟨a', -, hlength⟩ := Option.bind_eq_some_iff.mp ha
  split at hlength
  · rename_i hcount
    cases hlength
    rw [hparams _ hmem, beq_iff_eq, List.length_nil] at hcount
    exact hne (List.eq_nil_of_length_eq_zero hcount.symm)
  · cases hlength

/-- A hidden word fits what is alike to what it fits, where no name has parameters. -/
theorem Hidden.fits_of_sameNode (henv : Renamable env)
    (hparams : ∀ a ∈ env.aliases, a.2.params = []) (hbf : Comparable b f) (hxy : Comparable x y)
    (hx : SameNode x b) (hy : SameNode y f) (h : Resolving b f) (hhidden : Hidden env b f)
    (hfits : Fits env x y) : Fits env b f := by
  have hstep : env.step? b ≠ none := fun hnone => not_hidden_of_step?_none hnone hhidden
  -- Only a name stands for a word here, and it is the same on both sides.
  obtain rfl : x = b := by
    cases hx with
    | named c => rfl
    | generic d _ =>
      refine absurd (step?_generic hparams ?_) hstep
      exact hbf.actual.resolve_right fun ⟨_, _, hword⟩ => nomatch hword
    | _ => first | rfl | exact absurd rfl hstep | exact absurd h.actual id
  by_cases hname : (∃ c, f = .named c) ∨ ∃ v, f = .value v
  · obtain rfl : y = f := by
      rcases hname with ⟨c, rfl⟩ | ⟨v, rfl⟩
      · cases hy
        rfl
      · cases hy
        rfl
    exact hfits
  · -- A word does not fit a type with parts, whatever the parts are.
    obtain ⟨hnot, c, g, hrule, hword⟩ := hhidden
    obtain ⟨rfl, -⟩ := expand_eq hrule
    have hdirect : Direct f := h.expected.resolve_right fun hv => hname (.inr hv)
    have hy' : Direct y := hy.direct hdirect
    have hyname : ∀ c, y ≠ .named c := by
      rintro c rfl
      cases hy
      exact hname (.inl ⟨c, rfl⟩)
    have hstep' : env.step? y = none := by
      cases y with
      | named c => exact absurd rfl (hyname c)
      | generic d as => exact step?_generic hparams hxy.expected
      | _ => first | rfl | exact absurd hy' id
    have hsettled : env.settled x = false := by
      refine Bool.eq_false_iff.mpr fun hsettled => ?_
      rw [resolve_of_settled henv hxy.named_or_legible hsettled] at hword
      exact hnot hword
    have hexpand : rule env x y = .expand (env.resolve x) (env.resolve y) :=
      rule_expand h.actual (.inl hy') (h.sameNode hx hy).any (fun c _ => hyname c) (.inl hsettled)
    obtain ⟨depth, htrue⟩ := (fits_iff_of_hidden ⟨hnot, _, _, hexpand, hword⟩).mp hfits
    cases depth with
    | zero => cases htrue
    | succ depth =>
      rw [decision_succ, hexpand, decide_expand, if_neg List.not_mem_nil,
        resolve_of_step?_none hstep'] at htrue
      exact absurd htrue (hword.ne_true hy' hyname hstep' depth _)

theorem Comparable.resolve (henv : LegibleEnv env) (h : Comparable b f) :
    Comparable (env.resolve b) (env.resolve f) := by
  refine ⟨?_, resolveWithin_legible henv _ h.expected⟩
  rcases resolve_legible henv h.actual with hb | ⟨hword, -, hself⟩
  · exact .inl hb
  · exact .inr (hself.symm ▸ hword)

/-- What a type stands for has the node of a type that stands for itself, if the two are alike. -/
theorem SameNode.resolve (henv : Renamable env) (hx : Legible x ∨ ∃ c, x = .named c)
    (hb : Legible b ∨ ∃ c, b = .named c) (hnode : SameNode x b) (h : Alike x b)
    (hsettled : env.settled b = true) :
    SameNode (env.resolve x) b ∧ env.settled (env.resolve x) = true := by
  rcases settled_alike henv hx hb h hsettled with hself | hresolve
  · rw [resolve_of_settled henv hx hself]
    exact ⟨hnode, hself⟩
  · rw [hresolve]
    exact ⟨.refl b, hsettled⟩

/-- What is alike to types that fit fits by the rules, if what the rules ask for does. -/
theorem AlikeFits.step (henv : Renamable env) (h : AlikeFits env b f) :
    Fits env b f ∨ ¬ Hidden env b f ∧ (rule env b f).Holds (AlikeFits env) := by
  have hbf := h.comparable
  obtain ⟨x, y, hx, hy, hxb, hyf, hxy, hfits⟩ := h.sameNode
  have hrules : (rule env x y).Alike (rule env b f) ∨ Resolving b f := rule_alike hx hy hxb hyf
  rcases hrules with halike | hres
  · exact .inr ⟨Rule.Alike.not_hidden (.inr halike), holds_of_alike henv.legible hbf hxy halike hfits⟩
  · have hb := hbf.named_or_legible
    have hx' := hxy.named_or_legible
    have hres' := hres.sameNode hx hy
    by_cases hsettled : (env.settled b && env.settled f) = true
    · rw [Bool.and_eq_true] at hsettled
      obtain ⟨hnode, hself⟩ := hx.resolve henv hx' hb hxb hsettled.1
      obtain ⟨hnode', hself'⟩ := hy.resolve henv (.inl hxy.expected) (.inl hbf.expected) hyf hsettled.2
      have hnot : ¬ Hidden env x y := by
        rintro ⟨hnot, c, g, hrule, hword⟩
        obtain ⟨rfl, -⟩ := expand_eq hrule
        exact hnot (hx.word_iff.mpr (hnode.word_iff.mp hword))
      have halike : (rule env (env.resolve x) (env.resolve y)).Alike (rule env b f) := by
        rw [(hres.sameNode hnode hnode').rule, hres.rule, resolvedRule, resolvedRule, hself, hself',
          hsettled.1, hsettled.2]
        exact structureRule_alike hnode hnode'
      refine .inr ⟨Rule.Alike.not_hidden (.inr halike), ?_⟩
      exact holds_of_alike henv.legible hbf (hxy.resolve henv.legible) halike
        (hres'.fits_resolve henv hxy hnot hfits)
    · have hexpand : rule env b f = .expand (env.resolve b) (env.resolve f) := by
        rw [hres.rule, resolvedRule, if_neg hsettled]
      by_cases hhidden : Hidden env b f
      · refine .inl ?_
        rcases henv.words with hparams | hwords
        · exact hhidden.fits_of_sameNode henv hparams hbf hxy hx hy hres hfits
        · obtain ⟨hnot, c, g, hrule, hword⟩ := hhidden
          obtain ⟨rfl, -⟩ := expand_eq hrule
          exact absurd (hwords b hres.actual hword) hnot
      · have halike : Alike (env.resolve x) (env.resolve b) :=
          resolveWithin_alike henv _ hx' hb hxb
        have hnot : ¬ Hidden env x y := by
          rintro ⟨hnot, c, g, hrule, hword⟩
          obtain ⟨rfl, -⟩ := expand_eq hrule
          have hbword := hword.eq_of_alike halike (hbf.resolve henv.legible).named_or_legible
          refine hhidden ⟨fun hb => hnot (hx.word_iff.mpr hb), _, _, hexpand, ?_⟩
          rw [hbword]
          exact hword
        refine .inr ⟨hhidden, ?_⟩
        rw [hexpand]
        exact ⟨hbf.resolve henv.legible, env.resolve x, env.resolve y, halike,
          resolveWithin_alike henv _ (.inl hxy.expected) (.inl hbf.expected) hyf,
          hxy.resolve henv.legible, hres'.fits_resolve henv hxy hnot hfits⟩

end Fits

/-- **Renaming classes does not change what fits**. -/
theorem fits_of_alike {env : Env} (henv : Renamable env) {a e a' e' : Ty} (h : Comparable a e)
    (h' : Comparable a' e') (ha : Alike a a') (he : Alike e e') (hfits : Fits env a e) :
    Fits env a' e' :=
  fits_coinduction (R := AlikeFits env) (fun _ _ h => h.step henv) ⟨h', a, e, ha, he, h, hfits⟩

/-- **Renaming classes does not change verdicts**: types that are equal once renamings are undone,
except for a renamed `void` and a renamed base of a generic application, compare alike. Where no name
has parameters, both comparisons come to an end. -/
theorem check_renamed {env : Env} (henv : Renamable env) {a e a' e' : Ty} (ha : Readable a)
    (he : Readable e) (ha' : Readable a') (he' : Readable e') (haa : a.unrenamed = a'.unrenamed)
    (hee : e.unrenamed = e'.unrenamed) :
    SameVerdict env a e a' e' ∧ ((∀ x ∈ env.aliases, x.2.params = []) →
      env.isSubtype a e ≠ .undecided ∧ env.isSubtype a' e' ≠ .undecided ∧
        (env.isSubtype a e = .fits ↔ env.isSubtype a' e' = .fits)) := by
  have h : Comparable a e := ⟨.inl ha.legible, he.legible⟩
  have h' : Comparable a' e' := ⟨.inl ha'.legible, he'.legible⟩
  have hsame : SameVerdict env a e a' e' := by
    refine sameVerdict_of_fits henv.legible h h' ⟨?_, ?_⟩
    · exact fits_of_alike henv h h' haa hee
    · exact fits_of_alike henv h' h haa.symm hee.symm
  refine ⟨hsame, fun hparams => ?_⟩
  have hdecided := isSubtype_decided hparams a e
  have hdecided' := isSubtype_decided hparams a' e'
  exact ⟨hdecided, hdecided', hsame _ _ hdecided hdecided'⟩

theorem readable_of_legible {t : Ty} (h : Legible t) (hflat : Flat t) : Readable t :=
  ⟨⟨t.source, parseType_of_legible h hflat⟩, h.2⟩

theorem legible_generic {b : Ty} {as : List Ty} (hb : Legible b) (hne : as ≠ [])
    (has : ∀ t ∈ as, Legible t) : Legible (.generic b as) :=
  legible_iff.mpr ⟨hne, rfl, List.forall_mem_cons.mpr ⟨hb, has⟩⟩

theorem legible_union {ms : List Ty} (hlength : 2 ≤ ms.length) (hms : ∀ m ∈ ms, Legible m) :
    Legible (.union ms) :=
  legible_iff.mpr ⟨hlength, rfl, hms⟩

theorem legible_renamed {n s : String} (hn : IsName n) (hs : IsName s) :
    Legible (.renamed (.user n) (.resolve s)) :=
  legible_iff.mpr ⟨⟨rfl, hn.scans, rfl, hs.scans⟩, rfl, nofun⟩

/-- A name with a parameter, for what holds an item. -/
def boxEnv : Env :=
  { Env.initial with aliases := [("Box", ⟨["T"], .object [("item", .ofName "T")]⟩)] }

/-- What leads anywhere leads to an object. -/
theorem boxEnv_step {t u : Ty} (ht : Direct t) (h : boxEnv.step? t = some u) :
    ∃ fs, u = .object fs := by
  have hbox : ∀ {name : String} {a : Alias}, (name, a) ∈ boxEnv.aliases →
      a = ⟨["T"], .object [("item", .ofName "T")]⟩ := by
    intro name a ha
    exact (Prod.mk.inj (List.mem_singleton.mp ha)).2
  cases t with
  | named c =>
    rw [Env.step?] at h
    split at h
    · cases h
    · obtain ⟨a, ha, hplain⟩ := Option.bind_eq_some_iff.mp h
      rw [hbox (mem_of_lookup ha)] at hplain
      cases hplain
  | generic b as =>
    obtain ⟨a, ha, rfl⟩ := Option.map_eq_some_iff.mp h
    obtain ⟨name, hmem⟩ := genericAlias?_mem ha
    rw [hbox hmem, Ty.substitute_object]
    exact ⟨_, rfl⟩
  | moduleExports v => exact absurd ht id
  | _ => first | cases h | exact absurd ht id

theorem renamable_boxEnv : Renamable boxEnv where
  readable := by
    have hitem : Legible (.object [("item", .ofName "T")]) := by
      refine legible_iff.mpr ⟨List.nodup_singleton _, by decide +kernel, ?_⟩
      exact List.forall_mem_singleton.mpr (legible_ofName (by decide +kernel))
    exact List.forall_mem_singleton.mpr ⟨readable_of_legible hitem (by decide), by decide⟩
  bases := by
    refine List.forall_mem_singleton.mpr fun b as hmem => ?_
    simp [Ty.parts_eq, Ty.children, Ty.ofName] at hmem
  circles b as _ hsettled := by
    have hdirect : Direct (.generic b as) := trivial
    cases hstep : boxEnv.step? (.generic b as) with
    | none => exact resolve_of_step?_none hstep
    | some u =>
      obtain ⟨fs, rfl⟩ := boxEnv_step hdirect hstep
      have hends : boxEnv.step? (boxEnv.resolve (.generic b as)) = none := by
        rw [Env.resolve, Env.resolutionLimit, Env.resolveWithin, hstep]
        rfl
      rw [settled_eq_false hstep hends] at hsettled
      cases hsettled
  words := .inr fun t ht hword => by
    cases hstep : boxEnv.step? t with
    | none =>
      rw [resolve_of_step?_none hstep] at hword
      exact hword
    | some u =>
      obtain ⟨fs, rfl⟩ := boxEnv_step ht hstep
      rw [Env.resolve, Env.resolutionLimit, Env.resolveWithin, hstep] at hword
      cases hword

/-- A box with items of this type. -/
def boxOf (t : Ty) : Ty := .generic (.ofName "Box") [t]

/-- Another name for the numbers. -/
def countType : Ty := .renamed (.user "Count") (.resolve "Number")

theorem check_renamed_box :
    (check boxEnv 9 (boxOf (.ofName "Number")) (boxOf (.union [.ofName "Number", .ofName "Date"]))
      []).1 = .fits ∧
    (check boxEnv 9 (boxOf countType) (boxOf (.union [countType, .ofName "Date"])) []).1 = .fits := by
  have hnumber : Legible (.ofName "Number") := legible_ofName (by decide +kernel)
  have hdate : Legible (.ofName "Date") := legible_ofName (by decide +kernel)
  have hcount : Legible countType := legible_renamed (by decide +kernel) (by decide +kernel)
  have hbox : ∀ {t : Ty}, Legible t → Legible (boxOf t) := fun ht =>
    legible_generic (legible_ofName (by decide +kernel)) (List.cons_ne_nil _ _)
      (List.forall_mem_singleton.mpr ht)
  have hunion : ∀ {t : Ty}, Legible t → Legible (.union [t, .ofName "Date"]) := fun ht =>
    legible_union (Nat.le_refl 2) (List.forall_mem_cons.mpr ⟨ht, List.forall_mem_singleton.mpr hdate⟩)
  have hfits : (check boxEnv 9 (boxOf (.ofName "Number"))
      (boxOf (.union [.ofName "Number", .ofName "Date"])) []).1 = .fits := by decide +kernel
  have hdecided : (check boxEnv 9 (boxOf countType) (boxOf (.union [countType, .ofName "Date"]))
      []).1 ≠ .undecided := by decide +kernel
  have hsame := check_renamed renamable_boxEnv
    (readable_of_legible (hbox hnumber) (by decide))
    (readable_of_legible (hbox (hunion hnumber)) (by decide))
    (readable_of_legible (hbox hcount) (by decide))
    (readable_of_legible (hbox (hunion hcount)) (by decide)) rfl rfl
  refine ⟨hfits, (hsame.1 9 9 ?_ hdecided).mp hfits⟩
  rw [hfits]
  decide

/-- `void` accepts `undefined`, and an array another array, under the names they have only. -/
theorem renaming_not_transparent :
    Env.initial.isSubtype (readAs "undefined") (readAs "void") = .fits ∧
      (Env.initial.isSubtype (readAs "undefined") (readAs "void as Nothing")).decision =
        some false ∧
      Env.initial.isSubtype (readAs "Array<Number>") (readAs "Array<Number>") = .fits ∧
      (Env.initial.isSubtype (readAs "(Array as List)<Number>") (readAs "Array<Number>")).decision =
        some false := by
  have hvoid : decision Env.initial 2 (readAs "undefined") (readAs "void") [] = some true := by
    decide +kernel
  have hnothing : decision Env.initial 5 (readAs "undefined") (readAs "void as Nothing") [] =
      some false := by
    decide +kernel
  have harray : decision Env.initial 5 (readAs "Array<Number>") (readAs "Array<Number>") [] =
      some true := by
    decide +kernel
  have hlist : decision Env.initial 5 (readAs "(Array as List)<Number>") (readAs "Array<Number>") []
      = some false := by
    decide +kernel
  exact ⟨isSubtype_of_decision (by decide +kernel) hvoid,
    decision_mono (by decide +kernel) _ _ _ _ hnothing,
    isSubtype_of_decision (by decide +kernel) harray,
    decision_mono (by decide +kernel) _ _ _ _ hlist⟩

end Subtype
end Countersign
