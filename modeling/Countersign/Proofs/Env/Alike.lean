/-
# Environments that differ only in order

Names are looked up one by one, in scopes and in the table of named types. So it plays no part in
which order a scope binds its names or the table lists its types: environments that answer every
question about a name alike resolve the same types, find that the same types fit, and stay alike
when the same names are bound in both.

Key definitions: `BothDo`, `Scope.Alike`, `Env.Alike`.
Key theorems: `Env.Alike.isSubtype`, `Env.Alike.lookup?`, `Env.Alike.declareVar`,
`Env.Alike.rebind?`.
-/
import Countersign.Proofs.Subtype.Widening
import Countersign.Proofs.Env.Names

namespace Countersign

/-- Both fail in the same way, or both succeed with results that are related. -/
inductive BothDo {ε α : Type} (R : α → α → Prop) : Except ε α → Except ε α → Prop
  | ok {a a' : α} (h : R a a') : BothDo R (.ok a) (.ok a')
  | error (e : ε) : BothDo R (.error e) (.error e)

namespace BothDo

variable {ε α β : Type} {R : α → α → Prop} {S : β → β → Prop} {x x' : Except ε α}

theorem map {f f' : α → β} (h : BothDo R x x') (hf : ∀ a a', R a a' → S (f a) (f' a')) :
    BothDo S (x.map f) (x'.map f') := by
  cases h with
  | ok ha => exact .ok (hf _ _ ha)
  | error e => exact .error e

end BothDo

/-! ### Scopes -/

namespace Scope

variable {s s' : Scope}

/-- Scopes of the same kind that bind the same names in the same way. -/
structure Alike (s s' : Scope) : Prop where
  kind : s.kind = s'.kind
  receiver : s.receiver = s'.receiver
  get? : s.get? = s'.get?

/-- Looking for a name where every binding of the name of `b` was replaced by `b`. -/
theorem find?_replaced (b : Binding) (name : String) (bs : List Binding) :
    (bs.map fun c => if c.name == b.name then b else c).find? (·.name == name) =
      if b.name == name then (bs.find? (·.name == b.name)).map fun _ => b
      else bs.find? (·.name == name) := by
  induction bs with
  | nil => simp
  | cons c bs ih =>
    rw [List.map_cons, List.find?_cons, List.find?_cons, List.find?_cons]
    by_cases hc : c.name = b.name
    · rw [if_pos (beq_iff_eq.mpr hc), hc, beq_self_eq_true]
      by_cases hname : b.name = name
      · rw [if_pos (beq_iff_eq.mpr hname), beq_iff_eq.mpr hname]
        rfl
      · rw [if_neg (by simpa using hname), beq_eq_false_iff_ne.mpr hname, ih,
          if_neg (by simpa using hname)]
    · rw [if_neg (by simpa using hc), beq_eq_false_iff_ne.mpr hc]
      by_cases hname : c.name = name
      · have hne : b.name ≠ name := fun h => hc (hname.trans h.symm)
        rw [beq_iff_eq.mpr hname, if_neg (by simpa using hne)]
      · rw [beq_eq_false_iff_ne.mpr hname, ih]

theorem get?_set (s : Scope) (b : Binding) (name : String) :
    (s.set b).get? name = if b.name == name then some b else s.get? name := by
  unfold set
  by_cases hhas : s.has b.name = true
  · rw [if_pos hhas]
    obtain ⟨old, hold⟩ := Option.isSome_iff_exists.mp hhas
    unfold get? at hold ⊢
    rw [find?_replaced, hold]
    rfl
  · rw [if_neg hhas]
    have hfree : s.get? b.name = none := by simpa [has] using hhas
    unfold get? at hfree ⊢
    rw [List.find?_append]
    by_cases hname : b.name = name
    · subst hname
      simp [hfree]
    · simp [hname]

/-- Binding a name leaves the other names alone. -/
theorem get?_of_declare_ne {s s' : Scope} {b : Binding} {name : String} (hne : b.name ≠ name)
    (h : s.declare b = .ok s') : s'.get? name = s.get? name := by
  unfold declare at h
  split at h
  · cases h
    rw [get?_set, if_neg (by simpa using hne)]
  · split at h
    · cases h
      rfl
    · cases h

theorem Alike.refl (s : Scope) : Alike s s := ⟨rfl, rfl, rfl⟩

theorem Alike.set (h : Alike s s') (b : Binding) : Alike (s.set b) (s'.set b) := by
  have hshape : ∀ s : Scope, (s.set b).kind = s.kind ∧ (s.set b).receiver = s.receiver := by
    intro s
    unfold Scope.set
    split <;> exact ⟨rfl, rfl⟩
  refine ⟨?_, ?_, ?_⟩
  · rw [(hshape s).1, (hshape s').1, h.kind]
  · rw [(hshape s).2, (hshape s').2, h.receiver]
  · funext name
    rw [get?_set, get?_set, h.get?]

theorem Alike.declare (h : Alike s s') (b : Binding) :
    BothDo Alike (s.declare b) (s'.declare b) := by
  unfold Scope.declare
  rw [← h.get?]
  cases s.get? b.name with
  | none => exact .ok (h.set b)
  | some old =>
    by_cases hsame : (old.type == b.type) = true
    · simp only [hsame, if_true]
      exact .ok h
    · simp only [hsame]
      exact .error old

end Scope

/-! ### Environments -/

namespace Env

/-- Environments whose scopes and whose named types are alike. -/
structure Alike (env env' : Env) : Prop where
  inner : List.Forall₂ Scope.Alike env.inner env'.inner
  bottom : env.bottom.Alike env'.bottom
  alias? : env.alias? = env'.alias?
  aliasSize : env.aliasSize = env'.aliasSize

namespace Alike

variable {env env' : Env}

theorem scopes (h : Alike env env') : List.Forall₂ Scope.Alike env.scopes env'.scopes :=
  List.rel_append h.inner (.cons h.bottom .nil)

theorem resolve (h : Alike env env') : env.resolve = env'.resolve := resolve_eq h.alias?

theorem isSubtype (h : Alike env env') (a e : Ty) : env.isSubtype a e = env'.isSubtype a e :=
  isSubtype_eq h.alias? h.aliasSize a e

/-! #### Looking up -/

theorem lookup? (h : Alike env env') : env.lookup? = env'.lookup? := by
  funext name
  have hscopes := h.scopes
  unfold Env.lookup?
  generalize env.scopes = ss at hscopes ⊢
  generalize env'.scopes = ss' at hscopes ⊢
  induction hscopes with
  | nil => rfl
  | cons hs _ ih => rw [List.findSome?_cons, List.findSome?_cons, hs.get?, ih]

/-- The innermost scopes of a kind are alike, or there are none. -/
theorem find? (h : Alike env env') (kind : ScopeKind) :
    Option.Rel Scope.Alike (env.scopes.find? (·.kind == kind))
      (env'.scopes.find? (·.kind == kind)) := by
  have hscopes := h.scopes
  generalize env.scopes = ss at hscopes ⊢
  generalize env'.scopes = ss' at hscopes ⊢
  induction hscopes with
  | nil => exact .none
  | cons hs _ ih =>
    rw [List.find?_cons, List.find?_cons, ← hs.kind]
    split
    · exact .some hs
    · exact ih

theorem lookupIn? (h : Alike env env') (kind : ScopeKind) :
    env.lookupIn? kind = env'.lookupIn? kind := by
  funext name
  have hfound := h.find? kind
  unfold Env.lookupIn?
  generalize env.scopes.find? (·.kind == kind) = found at hfound ⊢
  generalize env'.scopes.find? (·.kind == kind) = found' at hfound ⊢
  cases hfound with
  | none => rfl
  | some hs => exact congrFun hs.get? name

theorem receiver? (h : Alike env env') : env.receiver? = env'.receiver? := by
  have hfound := h.find? .function
  unfold Env.receiver?
  generalize env.scopes.find? (·.kind == .function) = found at hfound ⊢
  generalize env'.scopes.find? (·.kind == .function) = found' at hfound ⊢
  cases hfound with
  | none => rfl
  | some hs => exact hs.receiver

theorem current (h : Alike env env') : env.current.Alike env'.current := by
  have hinner := h.inner
  unfold Env.current
  generalize env.inner = ss at hinner ⊢
  generalize env'.inner = ss' at hinner ⊢
  cases hinner with
  | nil => exact h.bottom
  | cons hs _ => exact hs

theorem lookupLocal? (h : Alike env env') : env.lookupLocal? = env'.lookupLocal? :=
  h.current.get?

theorem instanceType? (h : Alike env env') : env.instanceType? = env'.instanceType? := by
  funext ctor
  unfold Env.instanceType?
  rw [h.lookup?, h.resolve, plainAlias?_congr h.alias?]

/-! #### Binding names -/

/-- Other scopes with the same named types. -/
theorem withScopes (h : Alike env env') {inner inner' : List Scope} {bottom bottom' : Scope}
    (hinner : List.Forall₂ Scope.Alike inner inner') (hbottom : bottom.Alike bottom') :
    Alike ⟨inner, bottom, env.aliases⟩ ⟨inner', bottom', env'.aliases⟩ :=
  ⟨hinner, hbottom, h.alias?, h.aliasSize⟩

theorem push (h : Alike env env') (s : Scope) : Alike (env.push s) (env'.push s) :=
  h.withScopes (.cons (.refl s) h.inner) h.bottom

theorem pop (h : Alike env env') : Alike env.pop env'.pop := by
  obtain ⟨ss, bottom, aliases⟩ := env
  obtain ⟨ss', bottom', aliases'⟩ := env'
  cases h.inner with
  | nil => exact h
  | cons _ hrest => exact h.withScopes hrest h.bottom

theorem modifyFirst {p : Scope → Bool} {f : Scope → Except Binding Scope} {ss ss' : List Scope}
    (hp : ∀ {s s' : Scope}, s.Alike s' → p s = p s')
    (hf : ∀ {s s' : Scope}, s.Alike s' → BothDo Scope.Alike (f s) (f s'))
    (h : List.Forall₂ Scope.Alike ss ss') :
    Option.Rel (BothDo (List.Forall₂ Scope.Alike)) (Env.modifyFirst p f ss)
      (Env.modifyFirst p f ss') := by
  induction h with
  | nil => exact .none
  | cons hs hrest ih =>
    unfold Env.modifyFirst
    rw [← hp hs]
    split
    · exact .some ((hf hs).map fun _ _ hchanged => .cons hchanged hrest)
    · generalize Env.modifyFirst p f _ = x at ih ⊢
      generalize Env.modifyFirst p f _ = x' at ih ⊢
      cases ih with
      | none => exact .none
      | some hmore => exact .some (hmore.map fun _ _ hchanged => .cons hs hchanged)

theorem modifyScope {p : Scope → Bool} {f : Scope → Except Binding Scope}
    (hp : ∀ {s s' : Scope}, s.Alike s' → p s = p s')
    (hf : ∀ {s s' : Scope}, s.Alike s' → BothDo Scope.Alike (f s) (f s'))
    (h : Alike env env') : BothDo Alike (env.modifyScope p f) (env'.modifyScope p f) := by
  have hfirst := modifyFirst hp hf h.inner
  unfold Env.modifyScope
  generalize Env.modifyFirst p f env.inner = x at hfirst ⊢
  generalize Env.modifyFirst p f env'.inner = x' at hfirst ⊢
  cases hfirst with
  | none => exact (hf h.bottom).map fun _ _ hbottom => h.withScopes h.inner hbottom
  | some hboth =>
    cases hboth with
    | ok hinner => exact .ok (h.withScopes hinner h.bottom)
    | error e => exact .error e

theorem declare (h : Alike env env') (b : Binding) :
    BothDo Alike (env.declare b) (env'.declare b) :=
  h.modifyScope (fun _ => rfl) (fun hs => hs.declare b)

theorem declareVar (h : Alike env env') (b : Binding) :
    BothDo Alike (env.declareVar b) (env'.declareVar b) :=
  h.modifyScope (fun hs => by rw [hs.kind]) (fun hs => hs.declare b)

theorem retypeFirst (name : String) (t : Ty) {ss ss' : List Scope}
    (h : List.Forall₂ Scope.Alike ss ss') :
    Option.Rel (List.Forall₂ Scope.Alike) (Env.retypeFirst name t ss)
      (Env.retypeFirst name t ss') := by
  induction h with
  | nil => exact .none
  | @cons s s' ss ss' hs hrest ih =>
    unfold Env.retypeFirst
    rw [← hs.get?]
    cases s.get? name with
    | some b => exact .some (.cons (hs.set _) hrest)
    | none =>
      generalize Env.retypeFirst name t ss = x at ih ⊢
      generalize Env.retypeFirst name t ss' = x' at ih ⊢
      cases ih with
      | none => exact .none
      | some hmore => exact .some (.cons hs hmore)

theorem rebind? (h : Alike env env') (name : String) (t : Ty) :
    Option.Rel Alike (env.rebind? name t) (env'.rebind? name t) := by
  have hfirst := retypeFirst name t h.inner
  unfold Env.rebind?
  generalize Env.retypeFirst name t env.inner = x at hfirst ⊢
  generalize Env.retypeFirst name t env'.inner = x' at hfirst ⊢
  cases hfirst with
  | some hinner => exact .some (h.withScopes hinner h.bottom)
  | none =>
    rw [← h.bottom.get?]
    cases env.bottom.get? name with
    | none => exact .none
    | some b => exact .some (h.withScopes h.inner (h.bottom.set _))

end Alike
end Env
end Countersign
