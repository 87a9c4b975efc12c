/-
# Environments of tidy types

An environment is tidy if all types that it holds are: those of the names in its scopes, of the
receivers, and those that have names of their own. All that is found in a tidy environment or
resolved in it is tidy, and it stays tidy where tidy types are bound.

Key definitions: `Scope.Tidy`, `Env.Tidy`.
Key theorems: `Env.Tidy.modifyScope`, `Env.Tidy.rebind?`, `Env.Tidy.resolve`,
`Env.Tidy.instanceType?`.
-/
import Countersign.Proofs.Env.Covers
import Countersign.Proofs.Ty.Tidy

namespace Countersign

/-! ### Scopes -/

/-- The types of all names are tidy, and so is that of the receiver. -/
structure Scope.Tidy (s : Scope) : Prop where
  bindings : ∀ b ∈ s.bindings, b.type.Tidy
  receiver : ∀ t ∈ s.receiver, t.Tidy

namespace Scope.Tidy

variable {s s' : Scope} {b : Binding}

theorem ofKind (kind : ScopeKind) : (Scope.ofKind kind).Tidy := ⟨nofun, nofun⟩

theorem ofFunction {receiver : Option Ty} (h : ∀ t ∈ receiver, t.Tidy) :
    (Scope.ofFunction receiver).Tidy := ⟨nofun, h⟩

theorem get? (h : s.Tidy) {name : String} (hb : s.get? name = some b) : b.type.Tidy :=
  h.bindings b (List.mem_of_find?_eq_some hb)

theorem set (h : s.Tidy) (hb : b.type.Tidy) : (s.set b).Tidy := by
  unfold Scope.set
  split
  · refine ⟨fun c hc => ?_, h.receiver⟩
    obtain ⟨d, hd, rfl⟩ := List.mem_map.mp hc
    split
    · exact hb
    · exact h.bindings d hd
  · refine ⟨fun c hc => ?_, h.receiver⟩
    rcases List.mem_append.mp hc with hc | hc
    · exact h.bindings c hc
    · rwa [List.mem_singleton.mp hc]

theorem declare (h : s.Tidy) (hb : b.type.Tidy) (hs : s.declare b = .ok s') : s'.Tidy := by
  unfold Scope.declare at hs
  split at hs
  · cases hs
    exact h.set hb
  · split at hs
    · cases hs
      exact h
    · cases hs

end Scope.Tidy

/-! ### Environments -/

/-- All types in the scopes and all named types are tidy. -/
structure Env.Tidy (env : Env) : Prop where
  scopes : ∀ s ∈ env.scopes, s.Tidy
  aliases : ∀ a ∈ env.aliases, a.2.type.Tidy

namespace Env.Tidy

variable {env env' : Env} {b : Binding} {name : String} {t : Ty}

theorem initial : Env.initial.Tidy := by
  refine ⟨fun s hs => ?_, nofun⟩
  obtain rfl := List.mem_singleton.mp hs
  refine ⟨fun b hb => ?_, nofun⟩
  obtain ⟨g, hg, rfl⟩ := List.mem_map.mp hb
  exact builtinGlobals_tidy g hg

/-! ### Changes -/

theorem push (h : env.Tidy) {scope : Scope} (hscope : scope.Tidy) : (env.push scope).Tidy :=
  ⟨List.forall_mem_cons.mpr ⟨hscope, h.scopes⟩, h.aliases⟩

theorem pop (h : env.Tidy) : env.pop.Tidy := by
  refine ⟨?_, env.pop_aliases.symm ▸ h.aliases⟩
  obtain ⟨inner, bottom, aliases⟩ := env
  cases inner with
  | nil => exact h.scopes
  | cons s inner => exact fun u hu => h.scopes u (List.mem_cons_of_mem s hu)

/-- One scope was changed. -/
theorem change (h : env.Tidy) {s s' : Scope} (hchanges : Changes env.scopes s s' env'.scopes)
    (haliases : env'.aliases = env.aliases) (hs : s.Tidy → s'.Tidy) : env'.Tidy := by
  refine ⟨fun u hu => ?_, haliases.symm ▸ h.aliases⟩
  obtain ⟨before, after, hbefore, hafter⟩ := hchanges
  have hall := h.scopes
  rw [hbefore, List.forall_mem_append, List.forall_mem_cons] at hall
  rw [hafter] at hu
  rcases List.mem_append.mp hu with hu | hu
  · exact hall.1 u hu
  · rcases List.mem_cons.mp hu with rfl | hu
    · exact hs hall.2.1
    · exact hall.2.2 u hu

theorem modifyScope (h : env.Tidy) (hb : b.type.Tidy) {p : Scope → Bool}
    (henv : env.modifyScope p (·.declare b) = .ok env') : env'.Tidy := by
  obtain ⟨s, s', hs, hchanges⟩ := modifyScope_ok henv
  exact h.change hchanges (modifyScope_aliases henv) fun htidy => htidy.declare hb hs

theorem rebind? (h : env.Tidy) (ht : t.Tidy) (henv : env.rebind? name t = some env') :
    env'.Tidy := by
  obtain ⟨s, b, -, hchanges⟩ := rebind?_some henv
  exact h.change hchanges (rebind?_aliases henv) fun htidy => htidy.set ht

theorem defineAlias (h : env.Tidy) {a : Alias} (ha : a.type.Tidy)
    (henv : env.defineAlias name a = .ok env') : env'.Tidy := by
  unfold Env.defineAlias at henv
  split at henv
  · cases henv
    exact ⟨h.scopes, List.forall_mem_append.mpr ⟨h.aliases, List.forall_mem_singleton.mpr ha⟩⟩
  · split at henv
    · cases henv
      exact h
    · cases henv

/-! ### What is found -/

theorem lookup? (h : env.Tidy) (hb : env.lookup? name = some b) : b.type.Tidy := by
  obtain ⟨s, hs, hget⟩ := List.exists_of_findSome?_eq_some hb
  exact (h.scopes s hs).get? hget

theorem lookupIn? (h : env.Tidy) {kind : ScopeKind} (hb : env.lookupIn? kind name = some b) :
    b.type.Tidy := by
  obtain ⟨s, hs, hget⟩ := Option.bind_eq_some_iff.mp hb
  exact (h.scopes s (List.mem_of_find?_eq_some hs)).get? hget

theorem receiver? (h : env.Tidy) : ∀ t ∈ env.receiver?, t.Tidy := by
  intro t ht
  obtain ⟨s, hs, hreceiver⟩ := Option.bind_eq_some_iff.mp ht
  exact (h.scopes s (List.mem_of_find?_eq_some hs)).receiver t hreceiver

theorem alias? (h : env.Tidy) {a : Alias} (ha : env.alias? name = some a) : a.type.Tidy := by
  obtain ⟨before, after, haliases, -⟩ := List.lookup_eq_some_iff.mp ha
  exact h.aliases (name, a) (haliases ▸ List.mem_append_right _ List.mem_cons_self)

theorem plainAlias? (h : env.Tidy) (ht : env.plainAlias? name = some t) : t.Tidy := by
  obtain ⟨a, ha, hplain⟩ := Option.bind_eq_some_iff.mp ht
  split at hplain
  · cases hplain
    exact h.alias? ha
  · cases hplain

/-! ### Resolution -/

theorem step? (h : env.Tidy) {u : Ty} (ht : t.Tidy) (hu : env.step? t = some u) : u.Tidy := by
  cases t with
  | named c =>
    have hplain : (if c.builtin then none else env.plainAlias? c.name) = some u := hu
    split at hplain
    · cases hplain
    · exact h.plainAlias? hplain
  | renamed n s => exact h.plainAlias? hu
  | generic base args =>
    obtain ⟨a, ha, rfl⟩ := Option.map_eq_some_iff.mp hu
    obtain ⟨named, hnamed, harity⟩ := Option.bind_eq_some_iff.mp ha
    split at harity
    · cases harity
      obtain ⟨c, -, halias⟩ := Option.bind_eq_some_iff.mp hnamed
      exact (h.alias? halias).substitute a.params fun v hv => ht.child (List.mem_cons_of_mem _ hv)
    · cases harity
  | moduleExports v =>
    obtain rfl : v = u := Option.some.inj hu
    exact ht.child (List.mem_singleton_self v)
  | _ => cases hu

theorem resolve (h : env.Tidy) (ht : t.Tidy) : (env.resolve t).Tidy := by
  unfold Env.resolve
  induction resolutionLimit generalizing t with
  | zero => exact ht
  | succ limit ih =>
    unfold resolveWithin
    split
    · exact ht
    · rename_i u hu
      exact ih (h.step? ht hu)

/-- The type of what a constructor constructs. -/
theorem instanceType? (h : env.Tidy) (ht : env.instanceType? name = some t) : t.Tidy := by
  unfold Env.instanceType? at ht
  split at ht
  · rename_i receiver hreceiver
    cases ht
    obtain ⟨f, hf, hthis⟩ := Option.bind_eq_some_iff.mp hreceiver
    obtain ⟨b, hb, hfunction⟩ := Option.bind_eq_some_iff.mp hf
    exact h.resolve (((h.lookup? hb).asFunction? hfunction).receiver receiver hthis)
  · exact h.plainAlias? ht

end Env.Tidy
end Countersign
