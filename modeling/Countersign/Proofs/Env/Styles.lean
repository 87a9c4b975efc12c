/-
# Environments in other quotes

Two environments are related if the second holds the types of the first, with the strings of some
contents in the other quotes. They answer every question about a name with related types, resolve
related types to related types, and stay related when related types are bound in both.

Key definitions: `Ty.Restyled`, `BothEnd`, `Scope.Restyled`, `Env.Restyled`.
Key theorems: `Env.Restyled.resolve`, `Env.Restyled.settled`, `Env.Restyled.declare`,
`Env.Restyled.rebind?`, `Env.Restyled.withAlias`.
-/
import Countersign.Proofs.Subtype.Alike
import Countersign.Proofs.Ty.Styles
import Countersign.Verify

namespace Countersign

open Signature (textQuotes)
open Countersign.Subtype (forall₂_map)

variable {s : String → Bool} {k : String → Prop}

/-! ### Results that there may be -/

section Results

variable {α β γ δ : Type} {R : α → β → Prop} {S : γ → δ → Prop} {x : Option α} {y : Option β}

theorem rel_bind {f : α → Option γ} {g : β → Option δ} (h : Option.Rel R x y)
    (hfg : ∀ a b, R a b → Option.Rel S (f a) (g b)) : Option.Rel S (x.bind f) (y.bind g) := by
  cases h with
  | none => exact .none
  | some hab => exact hfg _ _ hab

theorem rel_map {f : α → γ} {g : β → δ} (h : Option.Rel R x y) (hfg : ∀ a b, R a b → S (f a) (g b)) :
    Option.Rel S (x.map f) (y.map g) := by
  cases h with
  | none => exact .none
  | some hab => exact .some (hfg _ _ hab)

theorem rel_imp {S : α → β → Prop} (h : Option.Rel R x y) (hRS : ∀ a b, R a b → S a b) :
    Option.Rel S x y := by
  cases h with
  | none => exact .none
  | some hab => exact .some (hRS _ _ hab)

theorem rel_or {x' : Option α} {y' : Option β} (h : Option.Rel R x y) (h' : Option.Rel R x' y') :
    Option.Rel R (x.or x') (y.or y') := by
  cases h with
  | none => exact h'
  | some hab => exact .some hab

theorem rel_isSome (h : Option.Rel R x y) : x.isSome = y.isSome := by
  cases h with
  | none => rfl
  | some _ => rfl

theorem rel_getD {R : α → α → Prop} {x y : Option α} {a b : α} (h : Option.Rel R x y) (hab : R a b) :
    R (x.getD a) (y.getD b) := by
  cases h with
  | none => exact hab
  | some h => exact h

theorem rel_head? {xs : List α} {ys : List β} (h : List.Forall₂ R xs ys) :
    Option.Rel R xs.head? ys.head? := by
  cases h with
  | nil => exact .none
  | cons hab _ => exact .some hab

theorem rel_tail {xs : List α} {ys : List β} (h : List.Forall₂ R xs ys) :
    List.Forall₂ R xs.tail ys.tail := by
  cases h with
  | nil => exact .nil
  | cons _ hrest => exact hrest

/-- What is found first in lists of related things. -/
theorem rel_findSome? {xs : List α} {ys : List β} {f : α → Option γ} {g : β → Option δ}
    (h : List.Forall₂ R xs ys) (hfg : ∀ a b, R a b → Option.Rel S (f a) (g b)) :
    Option.Rel S (xs.findSome? f) (ys.findSome? g) := by
  induction h with
  | nil => exact .none
  | @cons a b xs ys hab _ ih =>
    have hfound := hfg a b hab
    rw [List.findSome?_cons, List.findSome?_cons]
    generalize f a = x at hfound ⊢
    generalize g b = y at hfound ⊢
    cases hfound with
    | none => exact ih
    | some hxy => exact .some hxy

/-- What is given only under a condition. -/
theorem rel_ite {c : Prop} [Decidable c] (h : Option.Rel R x y) :
    Option.Rel R (if c then x else none) (if c then y else none) := by
  split
  · exact h
  · exact .none

end Results

/-! ### Related types -/

namespace Ty

/-- The second type is the first one with the strings of the contents `s` in the other quotes; in
the first one quotes stand around strings only, whose contents satisfy `k`. -/
structure Restyled (s : String → Bool) (k : String → Prop) (t u : Ty) : Prop where
  sober : t.Sober k
  eq : u = t.restyle s

/-- The same label stands before related types. -/
def RestyledUnder {α : Type} (s : String → Bool) (k : String → Prop) (p q : α × Ty) : Prop :=
  p.1 = q.1 ∧ Restyled s k p.2 q.2

theorem Sober.restyled {t : Ty} (h : t.Sober k) : Restyled s k t (t.restyle s) := ⟨h, rfl⟩

theorem restyled_any : Restyled s k any any := ⟨sober_any, rfl⟩

theorem restyled_named {c : ClassName} (h : textQuotes c.name = 0) :
    Restyled s k (.named c) (.named c) := ⟨sober_named h, rfl⟩

theorem restyled_all {ts : List Ty} (h : ∀ t ∈ ts, t.Sober k) :
    List.Forall₂ (Restyled s k) ts (ts.map (restyle s)) :=
  List.forall₂_map_right_iff.mpr (List.forall₂_same.mpr fun t ht => (h t ht).restyled)

/-- Lists of related types, as one list and what it becomes. -/
theorem restyled_all_iff {ts us : List Ty} :
    List.Forall₂ (Restyled s k) ts us ↔ (∀ t ∈ ts, t.Sober k) ∧ us = ts.map (restyle s) := by
  constructor
  · intro h
    induction h with
    | nil => exact ⟨nofun, rfl⟩
    | cons htu _ ih => exact ⟨List.forall_mem_cons.mpr ⟨htu.sober, ih.1⟩, congrArg₂ _ htu.eq ih.2⟩
  · rintro ⟨hsober, rfl⟩
    exact restyled_all hsober

theorem restyled_tuple {ts us : List Ty} (h : List.Forall₂ (Restyled s k) ts us) :
    Restyled s k (.tuple ts) (.tuple us) := by
  obtain ⟨hsober, rfl⟩ := restyled_all_iff.mp h
  exact ⟨sober_iff.mpr ⟨trivial, hsober⟩, (restyle_tuple s ts).symm⟩

theorem restyled_array {t u : Ty} (h : Restyled s k t u) :
    Restyled s k (.generic (.ofName "Array") [t]) (.generic (.ofName "Array") [u]) := by
  obtain ⟨hsober, rfl⟩ := h
  exact ⟨sober_array hsober, (restyle_generic s (ofName "Array") [t]).symm⟩

theorem restyled_under {α : Type} {ps : List (α × Ty)} (h : ∀ p ∈ ps, p.2.Sober k) :
    List.Forall₂ (RestyledUnder s k) ps (ps.map fun p => (p.1, p.2.restyle s)) :=
  List.forall₂_map_right_iff.mpr (List.forall₂_same.mpr fun p hp => ⟨rfl, (h p hp).restyled⟩)

theorem restyled_option {t : Option Ty} (h : ∀ u ∈ t, u.Sober k) :
    Option.Rel (Restyled s k) t (t.map (restyle s)) := by
  cases t with
  | none => exact .none
  | some u => exact .some (h u rfl).restyled

end Ty

open Ty (RestyledUnder)

/-- Related function types, taken apart. -/
structure FunctionTy.Restyled (s : String → Bool) (k : String → Prop) (f g : FunctionTy) : Prop where
  params : List.Forall₂ (RestyledUnder s k) f.params g.params
  result : f.result.Restyled s k g.result
  receiver : Option.Rel (Ty.Restyled s k) f.receiver g.receiver

namespace Ty
namespace Restyled

variable {t t' u u' : Ty}

theorem mono {k' : String → Prop} (h : Restyled s k t t') (hk : ∀ c, k c → k' c) :
    Restyled s k' t t' := ⟨h.sober.mono hk, h.eq⟩

theorem same {k' : String → Prop} (h : Restyled s k t t') (h' : Restyled s k' u u') :
    (t == u) = (t' == u') := by
  rw [h.eq, h'.eq]
  exact (same_restyle h.sober h'.sober).symm

theorem isBuiltin (h : Restyled s k t t') : t.isBuiltin = t'.isBuiltin := by
  rw [h.eq]
  exact funext fun name => (restyle_isBuiltin s t name).symm

theorem isAny (h : Restyled s k t t') : t.isAny = t'.isAny := congrFun h.isBuiltin "Any"

theorem isVoid (h : Restyled s k t t') : t.isVoid = t'.isVoid := congrFun h.isBuiltin "void"

theorem literalName (h : Restyled s k t t') : t.literalName = t'.literalName := by
  rw [h.eq, restyle_literalName]

theorem admitsUndefined (h : Restyled s k t t') : t.admitsUndefined = t'.admitsUndefined := by
  rw [h.eq, restyle_admitsUndefined]

theorem size (h : Restyled s k t t') : t.size = t'.size := by rw [h.eq, restyle_size]

theorem widen (h : Restyled s k t t') : Restyled s k t.widen t'.widen :=
  ⟨h.sober.widen, by rw [h.eq, restyle_widen]⟩

theorem asObject? (h : Restyled s k t t') :
    Option.Rel (List.Forall₂ (RestyledUnder s k)) t.asObject? t'.asObject? := by
  obtain ⟨hsober, rfl⟩ := h
  rw [restyle_asObject?]
  cases hfs : t.asObject? with
  | none => exact .none
  | some fs => exact .some (restyled_under fun f hf => ((hsober.asObject? hfs).field hf).2)

theorem asFunction? (h : Restyled s k t t') :
    Option.Rel (FunctionTy.Restyled s k) t.asFunction? t'.asFunction? := by
  obtain ⟨hsober, rfl⟩ := h
  induction t using children_induction with
  | step t ih =>
    cases t with
    | function ps r receiver =>
      have hchild : ∀ u ∈ (Ty.function ps r receiver).children, u.Sober k := fun u => hsober.child
      simp only [children, List.mem_append, List.mem_cons, Option.mem_toList] at hchild
      rw [restyle_function]
      refine .some ⟨restyled_under fun p hp => ?_, (hchild r (.inr (.inl rfl))).restyled, ?_⟩
      · exact hchild p.2 (.inl (List.mem_map_of_mem hp))
      · exact restyled_option fun u hu => hchild u (.inr (.inr hu))
    | moduleExports u =>
      have hu : u ∈ (moduleExports u).children := List.mem_singleton_self u
      rw [restyle_moduleExports]
      exact ih u hu (hsober.child hu)
    | _ => exact .none

end Restyled

theorem RestyledUnder.lookup {ps qs : List (String × Ty)}
    (h : List.Forall₂ (RestyledUnder s k) ps qs) (name : String) :
    Option.Rel (Restyled s k) (ps.lookup name) (qs.lookup name) := by
  induction h with
  | nil => exact .none
  | @cons p q ps qs hpq _ ih =>
    obtain ⟨label, t⟩ := p
    obtain ⟨label', u⟩ := q
    obtain ⟨rfl, htu⟩ := hpq
    rw [List.lookup_cons, List.lookup_cons]
    cases name == label with
    | true => exact .some htu
    | false => exact ih

end Ty

/-! ### Results that may fail -/

/-- Both fail with related errors, or both succeed with related results. -/
inductive BothEnd {ε α : Type} (E : ε → ε → Prop) (R : α → α → Prop) :
    Except ε α → Except ε α → Prop
  | ok {a a' : α} (h : R a a') : BothEnd E R (.ok a) (.ok a')
  | error {e e' : ε} (h : E e e') : BothEnd E R (.error e) (.error e')

theorem BothEnd.map {ε α β : Type} {E : ε → ε → Prop} {R : α → α → Prop} {S : β → β → Prop}
    {x x' : Except ε α} {f f' : α → β} (h : BothEnd E R x x')
    (hf : ∀ a a', R a a' → S (f a) (f' a')) : BothEnd E S (x.map f) (x'.map f') := by
  cases h with
  | ok ha => exact .ok (hf _ _ ha)
  | error he => exact .error he

/-! ### Related scopes -/

/-- The same name is bound on the same line, to related types. -/
structure Binding.Restyled (s : String → Bool) (k : String → Prop) (b c : Binding) : Prop where
  name : b.name = c.name
  type : b.type.Restyled s k c.type
  line : b.line = c.line

theorem Binding.restyled (name : String) {t u : Ty} (h : t.Restyled s k u) {line line' : Nat}
    (hline : line = line') : Binding.Restyled s k ⟨name, t, line⟩ ⟨name, u, line'⟩ := ⟨rfl, h, hline⟩

theorem Binding.Restyled.mono {k' : String → Prop} {b c : Binding} (h : b.Restyled s k c)
    (hk : ∀ c, k c → k' c) : b.Restyled s k' c := ⟨h.name, h.type.mono hk, h.line⟩

namespace Scope

/-- The scopes are of one kind and bind the same names to related types. -/
structure Restyled (s : String → Bool) (k : String → Prop) (c d : Scope) : Prop where
  kind : c.kind = d.kind
  receiver : Option.Rel (Ty.Restyled s k) c.receiver d.receiver
  bindings : List.Forall₂ (Binding.Restyled s k) c.bindings d.bindings

theorem restyled_ofKind (kind : ScopeKind) : Restyled s k (.ofKind kind) (.ofKind kind) :=
  ⟨rfl, .none, .nil⟩

theorem restyled_ofFunction {t u : Option Ty} (h : Option.Rel (Ty.Restyled s k) t u) :
    Restyled s k (.ofFunction t) (.ofFunction u) := ⟨rfl, h, .nil⟩

namespace Restyled

variable {c d : Scope} {b b' : Binding}

theorem mono {k' : String → Prop} (h : c.Restyled s k d) (hk : ∀ c, k c → k' c) :
    c.Restyled s k' d where
  kind := h.kind
  receiver := rel_imp h.receiver fun _ _ ht => ht.mono hk
  bindings := h.bindings.imp fun _ _ hb => hb.mono hk

theorem get? (h : c.Restyled s k d) (name : String) :
    Option.Rel (Binding.Restyled s k) (c.get? name) (d.get? name) := by
  have hbindings := h.bindings
  unfold Scope.get?
  generalize c.bindings = bs at hbindings ⊢
  generalize d.bindings = bs' at hbindings ⊢
  induction hbindings with
  | nil => exact .none
  | cons hb _ ih =>
    rw [List.find?_cons, List.find?_cons, hb.name]
    split
    · exact .some hb
    · exact ih

theorem set (h : c.Restyled s k d) (hb : b.Restyled s k b') :
    (c.set b).Restyled s k (d.set b') := by
  have hhas : c.has b.name = d.has b'.name := by
    unfold has
    rw [← hb.name]
    exact rel_isSome (h.get? b.name)
  unfold Scope.set
  rw [hhas]
  split
  · refine ⟨h.kind, h.receiver, forall₂_map h.bindings fun x y hxy => ?_⟩
    rw [hxy.name, hb.name]
    split
    · exact hb
    · exact hxy
  · exact ⟨h.kind, h.receiver, List.rel_append h.bindings (.cons hb .nil)⟩

theorem declare (h : c.Restyled s k d) (hb : b.Restyled s k b') :
    BothEnd (Binding.Restyled s k) (Restyled s k) (c.declare b) (d.declare b') := by
  have hget := h.get? b.name
  unfold Scope.declare
  rw [← hb.name]
  generalize c.get? b.name = found at hget ⊢
  generalize d.get? b.name = found' at hget ⊢
  cases hget with
  | none => exact .ok (h.set hb)
  | @some old old' hold =>
    dsimp only
    rw [hold.type.same hb.type]
    split
    · exact .ok h
    · exact .error hold

end Restyled
end Scope

/-! ### Related environments -/

/-- Named types with the same parameters that are related. -/
structure Alias.Restyled (s : String → Bool) (k : String → Prop) (a b : Alias) : Prop where
  params : a.params = b.params
  type : a.type.Restyled s k b.type

namespace Env

/-- Environments with related scopes and related named types. -/
structure Restyled (s : String → Bool) (k : String → Prop) (env env' : Env) : Prop where
  inner : List.Forall₂ (Scope.Restyled s k) env.inner env'.inner
  bottom : env.bottom.Restyled s k env'.bottom
  aliases : List.Forall₂ (fun p q => p.1 = q.1 ∧ p.2.Restyled s k q.2) env.aliases env'.aliases

namespace Restyled

variable {env env' : Env}

theorem mono {k' : String → Prop} (h : env.Restyled s k env') (hk : ∀ c, k c → k' c) :
    env.Restyled s k' env' where
  inner := h.inner.imp fun _ _ hc => hc.mono hk
  bottom := h.bottom.mono hk
  aliases := h.aliases.imp fun _ _ ha => ⟨ha.1, ha.2.params, ha.2.type.mono hk⟩

/-- Only the built-in values are known. -/
theorem initial : Env.initial.Restyled s k Env.initial := by
  refine ⟨.nil, ⟨rfl, .none, ?_⟩, .nil⟩
  have hglobals := Ty.restyled_under (s := s) (builtinGlobals_sober (k := k))
  rw [builtinGlobals_restyle] at hglobals
  exact forall₂_map hglobals fun _ _ hg => ⟨hg.1, hg.2, rfl⟩

theorem scopes (h : env.Restyled s k env') :
    List.Forall₂ (Scope.Restyled s k) env.scopes env'.scopes :=
  List.rel_append h.inner (.cons h.bottom .nil)

/-! #### Looking up -/

theorem lookup? (h : env.Restyled s k env') (name : String) :
    Option.Rel (Binding.Restyled s k) (env.lookup? name) (env'.lookup? name) :=
  rel_findSome? h.scopes fun _ _ hc => hc.get? name

/-- The innermost scopes of a kind are related, or there are none. -/
theorem find? (h : env.Restyled s k env') (kind : ScopeKind) :
    Option.Rel (Scope.Restyled s k) (env.scopes.find? (·.kind == kind))
      (env'.scopes.find? (·.kind == kind)) := by
  have hscopes := h.scopes
  generalize env.scopes = cs at hscopes ⊢
  generalize env'.scopes = cs' at hscopes ⊢
  induction hscopes with
  | nil => exact .none
  | cons hc _ ih =>
    rw [List.find?_cons, List.find?_cons, ← hc.kind]
    split
    · exact .some hc
    · exact ih

theorem lookupIn? (h : env.Restyled s k env') (kind : ScopeKind) (name : String) :
    Option.Rel (Binding.Restyled s k) (env.lookupIn? kind name) (env'.lookupIn? kind name) :=
  rel_bind (h.find? kind) fun _ _ hc => hc.get? name

theorem receiver? (h : env.Restyled s k env') :
    Option.Rel (Ty.Restyled s k) env.receiver? env'.receiver? :=
  rel_bind (h.find? .function) fun _ _ hc => hc.receiver

theorem current (h : env.Restyled s k env') : env.current.Restyled s k env'.current := by
  have hinner := h.inner
  unfold Env.current
  generalize env.inner = cs at hinner ⊢
  generalize env'.inner = cs' at hinner ⊢
  cases hinner with
  | nil => exact h.bottom
  | cons hc _ => exact hc

theorem lookupLocal? (h : env.Restyled s k env') (name : String) :
    Option.Rel (Binding.Restyled s k) (env.lookupLocal? name) (env'.lookupLocal? name) :=
  h.current.get? name

theorem alias? (h : env.Restyled s k env') (name : String) :
    Option.Rel (Alias.Restyled s k) (env.alias? name) (env'.alias? name) := by
  have haliases := h.aliases
  unfold Env.alias?
  generalize env.aliases = as at haliases ⊢
  generalize env'.aliases = as' at haliases ⊢
  induction haliases with
  | nil => exact .none
  | @cons p q ps qs hpq _ ih =>
    obtain ⟨label, a⟩ := p
    obtain ⟨label', b⟩ := q
    obtain ⟨rfl, hab⟩ := hpq
    rw [List.lookup_cons, List.lookup_cons]
    cases name == label with
    | true => exact .some hab
    | false => exact ih

theorem aliasSize (h : env.Restyled s k env') : env.aliasSize = env'.aliasSize := by
  have haliases := h.aliases
  unfold Env.aliasSize
  generalize env.aliases = as at haliases ⊢
  generalize env'.aliases = as' at haliases ⊢
  generalize 0 = n
  induction haliases generalizing n with
  | nil => rfl
  | cons hpq _ ih => rw [List.foldl_cons, List.foldl_cons, hpq.2.type.size, ih]

/-! #### Resolution -/

theorem plainAlias? (h : env.Restyled s k env') (name : String) :
    Option.Rel (Ty.Restyled s k) (env.plainAlias? name) (env'.plainAlias? name) :=
  rel_bind (h.alias? name) fun _ _ hab => by
    rw [hab.params]
    exact rel_ite (.some hab.type)

theorem genericAlias? (h : env.Restyled s k env') {base base' : Ty} {args args' : List Ty}
    (hbase : base.Restyled s k base') (hargs : List.Forall₂ (Ty.Restyled s k) args args') :
    Option.Rel (Alias.Restyled s k) (env.genericAlias? base args)
      (env'.genericAlias? base' args') := by
  have hnamed : Option.Rel (Alias.Restyled s k) (base.literalName.bind env.alias?)
      (base'.literalName.bind env'.alias?) := by
    rw [hbase.literalName]
    cases base'.literalName with
    | none => exact .none
    | some name => exact h.alias? name
  refine rel_bind hnamed fun _ _ hab => ?_
  rw [hab.params, hargs.length_eq]
  exact rel_ite (.some hab)

theorem generic_parts {b u : Ty} {as : List Ty} (h : (Ty.generic b as).Restyled s k u) :
    ∃ b', u = .generic b' (as.map (Ty.restyle s)) ∧ b.Restyled s k b' ∧
      List.Forall₂ (Ty.Restyled s k) as (as.map (Ty.restyle s)) := by
  obtain ⟨hsober, rfl⟩ := h
  refine ⟨_, Ty.restyle_generic s b as, (hsober.child List.mem_cons_self).restyled, ?_⟩
  exact Ty.restyled_all fun t ht => hsober.child (List.mem_cons_of_mem b ht)

theorem step? (h : env.Restyled s k env') {t u : Ty} (ht : t.Restyled s k u) :
    Option.Rel (Ty.Restyled s k) (env.step? t) (env'.step? u) := by
  cases t with
  | named c =>
    obtain ⟨-, rfl⟩ := ht
    show Option.Rel _ (if c.builtin then none else _) (if c.builtin then none else _)
    split
    · exact .none
    · exact h.plainAlias? c.name
  | renamed n m =>
    obtain ⟨-, rfl⟩ := ht
    exact h.plainAlias? m.name
  | generic b as =>
    obtain ⟨b', rfl, hb, has⟩ := generic_parts ht
    refine rel_map (h.genericAlias? hb has) fun x y hxy => ?_
    refine ⟨hxy.type.sober.substitute _ fun t hmem => ht.sober.child (List.mem_cons_of_mem b hmem), ?_⟩
    rw [Ty.restyle_substitute, ← hxy.type.eq, hxy.params]
  | moduleExports v =>
    obtain ⟨hsober, rfl⟩ := ht
    rw [Ty.restyle_moduleExports]
    exact .some (hsober.child (List.mem_singleton_self v)).restyled
  | _ =>
    obtain ⟨-, rfl⟩ := ht
    simp only [Ty.restyle_value, Ty.restyle_function, Ty.restyle_object, Ty.restyle_union,
      Ty.restyle_intersection, Ty.restyle_tuple, Env.step?]
    exact .none

theorem resolve (h : env.Restyled s k env') {t u : Ty} (ht : t.Restyled s k u) :
    (env.resolve t).Restyled s k (env'.resolve u) := by
  unfold Env.resolve
  induction resolutionLimit generalizing t u with
  | zero => exact ht
  | succ limit ih =>
    have hstep := h.step? ht
    unfold resolveWithin
    generalize env.step? t = next at hstep ⊢
    generalize env'.step? u = next' at hstep ⊢
    cases hstep with
    | none => exact ht
    | some hnext => exact ih hnext

theorem sharedPart {a b : Alias} (h : a.Restyled s k b) :
    Env.sharedPart a.params a.type = Env.sharedPart b.params b.type := by
  rw [h.params, h.type.eq]
  cases a.type <;> simp [Env.sharedPart]

theorem stepIsStored (h : env.Restyled s k env') {t u : Ty} (ht : t.Restyled s k u)
    (stored : Bool) : env.stepIsStored stored t = env'.stepIsStored stored u := by
  cases t with
  | generic b as =>
    obtain ⟨b', rfl, hb, has⟩ := generic_parts ht
    have halias := h.genericAlias? hb has
    rw [Env.stepIsStored, Env.stepIsStored]
    generalize env.genericAlias? b as = found at halias ⊢
    generalize env'.genericAlias? b' (as.map (Ty.restyle s)) = found' at halias ⊢
    cases halias with
    | none => rfl
    | some hab => rw [Option.bind_some, Option.bind_some, sharedPart hab]
  | _ =>
    rw [ht.eq]
    simp [Env.stepIsStored]

theorem circles (h : env.Restyled s k env') {target target' : Ty}
    (htarget : target.Restyled s k target') (limit : Nat) (stored : Bool) {t u : Ty}
    (ht : t.Restyled s k u) :
    env.circles target limit stored t = env'.circles target' limit stored u := by
  induction limit generalizing stored t u with
  | zero =>
    unfold Env.circles
    rw [ht.same htarget]
  | succ limit ih =>
    have hstep := h.step? ht
    unfold Env.circles
    rw [h.stepIsStored ht]
    generalize env.step? t = next at hstep ⊢
    generalize env'.step? u = next' at hstep ⊢
    cases hstep with
    | none => rfl
    | some hnext => exact ih _ hnext

theorem settled (h : env.Restyled s k env') {t u : Ty} (ht : t.Restyled s k u) :
    env.settled t = env'.settled u := by
  have hstep := h.step? ht
  have hnone : (env.step? t).isNone = (env'.step? u).isNone := by
    generalize env.step? t = next at hstep ⊢
    generalize env'.step? u = next' at hstep ⊢
    cases hstep <;> rfl
  unfold Env.settled
  rw [hnone, h.circles ht _ _ ht]

/-- The receivers in the declared type of a name are related, or there are none. -/
theorem receiverOf (h : env.Restyled s k env') (name : String) :
    Option.Rel (Ty.Restyled s k) (((env.lookup? name).bind (·.type.asFunction?)).bind (·.receiver))
      (((env'.lookup? name).bind (·.type.asFunction?)).bind (·.receiver)) :=
  rel_bind (rel_bind (h.lookup? name) fun _ _ hb => hb.type.asFunction?) fun _ _ hf => hf.receiver

theorem instanceType? (h : env.Restyled s k env') (ctor : String) :
    Option.Rel (Ty.Restyled s k) (env.instanceType? ctor) (env'.instanceType? ctor) := by
  have hreceiver := h.receiverOf ctor
  unfold Env.instanceType?
  generalize ((env.lookup? ctor).bind (·.type.asFunction?)).bind (·.receiver) = t at hreceiver ⊢
  generalize ((env'.lookup? ctor).bind (·.type.asFunction?)).bind (·.receiver) = t' at hreceiver ⊢
  cases hreceiver with
  | none => exact h.plainAlias? ctor
  | some ht => exact .some (h.resolve ht)

/-! #### Binding names -/

/-- Other scopes with the same named types. -/
theorem withScopes (h : env.Restyled s k env') {inner inner' : List Scope} {bottom bottom' : Scope}
    (hinner : List.Forall₂ (Scope.Restyled s k) inner inner') (hbottom : bottom.Restyled s k bottom') :
    Restyled s k ⟨inner, bottom, env.aliases⟩ ⟨inner', bottom', env'.aliases⟩ :=
  ⟨hinner, hbottom, h.aliases⟩

theorem push (h : env.Restyled s k env') {c c' : Scope} (hc : c.Restyled s k c') :
    (env.push c).Restyled s k (env'.push c') := h.withScopes (.cons hc h.inner) h.bottom

theorem pop (h : env.Restyled s k env') : env.pop.Restyled s k env'.pop := by
  obtain ⟨cs, bottom, aliases⟩ := env
  obtain ⟨cs', bottom', aliases'⟩ := env'
  cases h.inner with
  | nil => exact h
  | cons _ hrest => exact h.withScopes hrest h.bottom

theorem modifyFirst {p : Scope → Bool} {f f' : Scope → Except Binding Scope} {cs cs' : List Scope}
    (hp : ∀ {c c' : Scope}, c.Restyled s k c' → p c = p c')
    (hf : ∀ {c c' : Scope}, c.Restyled s k c' →
      BothEnd (Binding.Restyled s k) (Scope.Restyled s k) (f c) (f' c'))
    (h : List.Forall₂ (Scope.Restyled s k) cs cs') :
    Option.Rel (BothEnd (Binding.Restyled s k) (List.Forall₂ (Scope.Restyled s k)))
      (Env.modifyFirst p f cs) (Env.modifyFirst p f' cs') := by
  induction h with
  | nil => exact .none
  | cons hc hrest ih =>
    unfold Env.modifyFirst
    rw [← hp hc]
    split
    · exact .some ((hf hc).map fun _ _ hchanged => .cons hchanged hrest)
    · generalize Env.modifyFirst p f _ = x at ih ⊢
      generalize Env.modifyFirst p f' _ = x' at ih ⊢
      cases ih with
      | none => exact .none
      | some hmore => exact .some (hmore.map fun _ _ hchanged => .cons hc hchanged)

theorem modifyScope {p : Scope → Bool} {f f' : Scope → Except Binding Scope}
    (hp : ∀ {c c' : Scope}, c.Restyled s k c' → p c = p c')
    (hf : ∀ {c c' : Scope}, c.Restyled s k c' →
      BothEnd (Binding.Restyled s k) (Scope.Restyled s k) (f c) (f' c'))
    (h : env.Restyled s k env') :
    BothEnd (Binding.Restyled s k) (Restyled s k) (env.modifyScope p f)
      (env'.modifyScope p f') := by
  have hfirst := modifyFirst hp hf h.inner
  unfold Env.modifyScope
  generalize Env.modifyFirst p f env.inner = x at hfirst ⊢
  generalize Env.modifyFirst p f' env'.inner = x' at hfirst ⊢
  cases hfirst with
  | none => exact (hf h.bottom).map fun _ _ hbottom => h.withScopes h.inner hbottom
  | some hboth =>
    cases hboth with
    | ok hinner => exact .ok (h.withScopes hinner h.bottom)
    | error he => exact .error he

theorem declare (h : env.Restyled s k env') {b b' : Binding} (hb : b.Restyled s k b') :
    BothEnd (Binding.Restyled s k) (Restyled s k) (env.declare b) (env'.declare b') :=
  h.modifyScope (fun _ => rfl) (fun hc => hc.declare hb)

theorem declareVar (h : env.Restyled s k env') {b b' : Binding} (hb : b.Restyled s k b') :
    BothEnd (Binding.Restyled s k) (Restyled s k) (env.declareVar b) (env'.declareVar b') :=
  h.modifyScope (fun hc => by rw [hc.kind]) (fun hc => hc.declare hb)

/-- A binding is given another type. -/
theorem retype {b b' : Binding} (hb : b.Restyled s k b') {t t' : Ty} (ht : t.Restyled s k t') :
    Binding.Restyled s k { b with type := t } { b' with type := t' } := ⟨hb.name, ht, hb.line⟩

theorem retypeFirst (name : String) {t t' : Ty} (ht : t.Restyled s k t') {cs cs' : List Scope}
    (h : List.Forall₂ (Scope.Restyled s k) cs cs') :
    Option.Rel (List.Forall₂ (Scope.Restyled s k)) (Env.retypeFirst name t cs)
      (Env.retypeFirst name t' cs') := by
  induction h with
  | nil => exact .none
  | @cons c c' cs cs' hc hrest ih =>
    have hget := hc.get? name
    unfold Env.retypeFirst
    generalize c.get? name = found at hget ⊢
    generalize c'.get? name = found' at hget ⊢
    cases hget with
    | some hb => exact .some (.cons (hc.set (retype hb ht)) hrest)
    | none =>
      dsimp only
      generalize Env.retypeFirst name t cs = x at ih ⊢
      generalize Env.retypeFirst name t' cs' = x' at ih ⊢
      cases ih with
      | none => exact .none
      | some hmore => exact .some (.cons hc hmore)

theorem rebind? (h : env.Restyled s k env') (name : String) {t t' : Ty} (ht : t.Restyled s k t') :
    Option.Rel (Restyled s k) (env.rebind? name t) (env'.rebind? name t') := by
  have hfirst := retypeFirst name ht h.inner
  unfold Env.rebind?
  generalize Env.retypeFirst name t env.inner = x at hfirst ⊢
  generalize Env.retypeFirst name t' env'.inner = x' at hfirst ⊢
  cases hfirst with
  | some hinner => exact .some (h.withScopes hinner h.bottom)
  | none =>
    have hget := h.bottom.get? name
    dsimp only
    generalize env.bottom.get? name = found at hget ⊢
    generalize env'.bottom.get? name = found' at hget ⊢
    cases hget with
    | none => exact .none
    | some hb => exact .some (h.withScopes h.inner (h.bottom.set (retype hb ht)))

/-! #### Naming types -/

theorem withAlias (h : env.Restyled s k env') (name : String) {a b : Alias}
    (hab : a.Restyled s k b) : (env.withAlias name a).Restyled s k (env'.withAlias name b) := by
  have halias := h.alias? name
  unfold Env.withAlias Env.defineAlias
  generalize env.alias? name = found at halias ⊢
  generalize env'.alias? name = found' at halias ⊢
  cases halias with
  | none => exact ⟨h.inner, h.bottom, List.rel_append h.aliases (.cons ⟨rfl, hab⟩ .nil)⟩
  | @some old old' hold =>
    have hsame : (old == a) = (old' == b) :=
      congrArg₂ (· && ·) (by rw [hold.params, hab.params]) (hold.type.same hab.type)
    dsimp only
    rw [hsame]
    cases old' == b with
    | true => exact h
    | false => exact h

end Restyled
end Env
end Countersign
