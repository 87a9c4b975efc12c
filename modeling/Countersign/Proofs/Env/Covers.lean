/-
# Known names

A name is known if some scope in force binds it. Declarations add names and give known ones other
types; no operation on a scope takes a name away. So scope by scope an environment covers each one
that it came from, and it still does where a scope that was entered in between is left.

Key definitions: `Scope.Covers`, `Env.Covers`, `Env.Knows`.
Key theorems: `Env.Covers.modifyScope`, `Env.Covers.leave`, `Env.modifyScope_knows`,
`Env.knows_of_modifyScope`.
-/
import Countersign.Proofs.Env.Alike
import Countersign.Proofs.Env.Scopes

namespace Countersign

namespace Scope

variable {s t u : Scope}

/-- The second scope binds all names that the first one binds. -/
def Covers (s t : Scope) : Prop := ∀ name, s.has name = true → t.has name = true

theorem Covers.refl (s : Scope) : Covers s s := fun _ => id

theorem Covers.trans (h : Covers s t) (h' : Covers t u) : Covers s u :=
  fun name hname => h' name (h name hname)

theorem has_set (s : Scope) (b : Binding) (name : String) :
    (s.set b).has name = (b.name == name || s.has name) := by
  unfold has
  rw [get?_set]
  cases b.name == name <;> rfl

theorem Covers.set (s : Scope) (b : Binding) : Covers s (s.set b) := by
  intro name hname
  rw [has_set, hname, Bool.or_true]

theorem Covers.declare {b : Binding} (h : s.declare b = .ok t) : Covers s t := by
  unfold Scope.declare at h
  split at h
  · cases h
    exact .set s b
  · split at h
    · cases h
      exact .refl s
    · cases h

/-- A declared name is bound. -/
theorem has_of_declare {b : Binding} (h : s.declare b = .ok t) : t.has b.name = true := by
  unfold Scope.declare at h
  split at h
  · cases h
    rw [has_set, beq_self_eq_true, Bool.true_or]
  · rename_i old hold
    split at h
    · cases h
      rw [has, hold]
      rfl
    · cases h

end Scope

namespace Env

variable {env env' env'' : Env} {p : Scope → Bool} {ss ss' : List Scope}

/-- Scope by scope, the second environment binds all names that the first one binds. -/
def Covers (env env' : Env) : Prop := List.Forall₂ Scope.Covers env.scopes env'.scopes

/-- The name is bound in some scope. -/
def Knows (env : Env) (name : String) : Prop := (env.lookup? name).isSome = true

theorem knows_iff {name : String} : env.Knows name ↔ ∃ s ∈ env.scopes, s.has name = true :=
  List.findSome?_isSome_iff

theorem not_knows_iff {name : String} : ¬ env.Knows name ↔ env.lookup? name = none := by
  rw [Knows, Bool.not_eq_true, Option.isSome_eq_false_iff, Option.isNone_iff_eq_none]

theorem Knows.push {name : String} (h : env.Knows name) (scope : Scope) :
    (env.push scope).Knows name := by
  obtain ⟨s, hs, hname⟩ := knows_iff.mp h
  exact knows_iff.mpr ⟨s, List.mem_cons_of_mem _ hs, hname⟩

theorem Covers.refl (env : Env) : Covers env env := List.forall₂_same.mpr fun s _ => .refl s

theorem forall₂_covers_trans {ss'' : List Scope} (h : List.Forall₂ Scope.Covers ss ss')
    (h' : List.Forall₂ Scope.Covers ss' ss'') : List.Forall₂ Scope.Covers ss ss'' := by
  induction h generalizing ss'' with
  | nil => exact h'
  | cons hs _ ih =>
    cases h' with
    | cons hs' hrest' => exact .cons (hs.trans hs') (ih hrest')

theorem Covers.trans (h : Covers env env') (h' : Covers env' env'') : Covers env env'' :=
  forall₂_covers_trans h h'

theorem Covers.knows {name : String} (h : Covers env env') (hname : env.Knows name) :
    env'.Knows name := by
  rw [knows_iff] at hname ⊢
  obtain ⟨s, hs, hbound⟩ := hname
  obtain ⟨i, hi, rfl⟩ := List.getElem_of_mem hs
  have hi' : i < env'.scopes.length := h.length_eq ▸ hi
  exact ⟨env'.scopes[i], List.getElem_mem hi', (List.forall₂_iff_get.mp h).2 i hi hi' name hbound⟩

/-- Leaving a scope that was entered. -/
theorem Covers.leave {scope : Scope} (h : Covers (env.push scope) env') : Covers env env'.pop := by
  obtain ⟨inner, bottom, aliases⟩ := env'
  cases inner with
  | nil =>
    have hlength := List.Forall₂.length_eq h
    simp [scopes, push] at hlength
  | cons s inner =>
    cases h with
    | cons _ hrest => exact hrest

/-! ### Changes of one scope -/

/-- Other scopes after one of them was changed. -/
def Changes (ss : List Scope) (s s' : Scope) (ss' : List Scope) : Prop :=
  ∃ before after, ss = before ++ s :: after ∧ ss' = before ++ s' :: after

theorem Changes.append {s s' : Scope} (h : Changes ss s s' ss') (rest : List Scope) :
    Changes (ss ++ rest) s s' (ss' ++ rest) := by
  obtain ⟨before, after, rfl, rfl⟩ := h
  exact ⟨before, after ++ rest, by simp, by simp⟩

theorem Changes.cons {s s' : Scope} (h : Changes ss s s' ss') (first : Scope) :
    Changes (first :: ss) s s' (first :: ss') := by
  obtain ⟨before, after, rfl, rfl⟩ := h
  exact ⟨first :: before, after, rfl, rfl⟩

theorem Changes.covers {s s' : Scope} (h : Changes ss s s' ss') (hs : s.Covers s') :
    List.Forall₂ Scope.Covers ss ss' := by
  obtain ⟨before, after, rfl, rfl⟩ := h
  have hsame : ∀ us : List Scope, List.Forall₂ Scope.Covers us us :=
    fun us => List.forall₂_same.mpr fun u _ => .refl u
  exact List.rel_append (hsame before) (.cons hs (hsame after))

section Changing

variable {ε : Type} {f : Scope → Except ε Scope} {e : ε}

theorem modifyFirst_ok (h : modifyFirst p f ss = some (.ok ss')) :
    ∃ s s', f s = .ok s' ∧ Changes ss s s' ss' := by
  induction ss generalizing ss' with
  | nil => cases h
  | cons s rest ih =>
    unfold modifyFirst at h
    split at h
    · cases hs : f s with
      | error e =>
        rw [hs] at h
        cases h
      | ok s' =>
        rw [hs] at h
        cases h
        exact ⟨s, s', hs, [], rest, rfl, rfl⟩
    · obtain ⟨r, hr, hmap⟩ := Option.map_eq_some_iff.mp h
      cases r with
      | error e => cases hmap
      | ok rest' =>
        cases hmap
        obtain ⟨u, u', hu, hchanges⟩ := ih hr
        exact ⟨u, u', hu, hchanges.cons s⟩

theorem modifyFirst_error (h : modifyFirst p f ss = some (.error e)) :
    ∃ s ∈ ss, f s = .error e := by
  induction ss with
  | nil => cases h
  | cons s rest ih =>
    unfold modifyFirst at h
    split at h
    · cases hs : f s with
      | ok s' =>
        rw [hs] at h
        cases h
      | error e' =>
        rw [hs] at h
        cases h
        exact ⟨s, List.mem_cons_self, hs⟩
    · obtain ⟨r, hr, hmap⟩ := Option.map_eq_some_iff.mp h
      cases r with
      | ok rest' => cases hmap
      | error e' =>
        cases hmap
        obtain ⟨u, hu, hfailed⟩ := ih hr
        exact ⟨u, List.mem_cons_of_mem s hu, hfailed⟩

theorem modifyScope_ok (h : env.modifyScope p f = .ok env') :
    ∃ s s', f s = .ok s' ∧ Changes env.scopes s s' env'.scopes := by
  unfold Env.modifyScope at h
  split at h
  · rename_i inner hinner
    cases h
    obtain ⟨s, s', hs, hchanges⟩ := modifyFirst_ok hinner
    exact ⟨s, s', hs, hchanges.append [env.bottom]⟩
  · cases h
  · cases hbottom : f env.bottom with
    | error e =>
      rw [hbottom] at h
      cases h
    | ok bottom =>
      rw [hbottom] at h
      cases h
      exact ⟨env.bottom, bottom, hbottom, env.inner, [], rfl, rfl⟩

theorem modifyScope_error (h : env.modifyScope p f = .error e) :
    ∃ s ∈ env.scopes, f s = .error e := by
  unfold Env.modifyScope at h
  split at h
  · cases h
  · rename_i hinner
    cases h
    obtain ⟨s, hs, hfailed⟩ := modifyFirst_error hinner
    exact ⟨s, List.mem_append_left _ hs, hfailed⟩
  · cases hbottom : f env.bottom with
    | ok bottom =>
      rw [hbottom] at h
      cases h
    | error e' =>
      rw [hbottom] at h
      cases h
      exact ⟨env.bottom, List.mem_append_right _ (List.mem_singleton_self _), hbottom⟩

end Changing

theorem retypeFirst_some {name : String} {t : Ty} (h : retypeFirst name t ss = some ss') :
    ∃ s b, s.get? name = some b ∧ Changes ss s (s.set { b with type := t }) ss' := by
  induction ss generalizing ss' with
  | nil => cases h
  | cons s rest ih =>
    unfold retypeFirst at h
    split at h
    · rename_i b hb
      cases h
      exact ⟨s, b, hb, [], rest, rfl, rfl⟩
    · obtain ⟨rest', hrest, rfl⟩ := Option.map_eq_some_iff.mp h
      obtain ⟨u, b, hb, hchanges⟩ := ih hrest
      exact ⟨u, b, hb, hchanges.cons s⟩

theorem rebind?_some {name : String} {t : Ty} (h : env.rebind? name t = some env') :
    ∃ s b, s.get? name = some b ∧
      Changes env.scopes s (s.set { b with type := t }) env'.scopes := by
  unfold rebind? at h
  split at h
  · rename_i inner hinner
    cases h
    obtain ⟨s, b, hb, hchanges⟩ := retypeFirst_some hinner
    exact ⟨s, b, hb, hchanges.append [env.bottom]⟩
  · obtain ⟨b, hb, rfl⟩ := Option.map_eq_some_iff.mp h
    exact ⟨env.bottom, b, hb, env.inner, [], rfl, rfl⟩

/-! ### Declarations -/

variable {b old : Binding}

theorem Covers.modifyScope (h : env.modifyScope p (·.declare b) = .ok env') :
    Covers env env' := by
  obtain ⟨s, s', hs, hchanges⟩ := modifyScope_ok h
  exact hchanges.covers (.declare hs)

theorem Covers.rebind? {name : String} {t : Ty} (h : env.rebind? name t = some env') :
    Covers env env' := by
  obtain ⟨s, b, -, hchanges⟩ := rebind?_some h
  exact hchanges.covers (.set s _)

/-- A name is known after it was declared. -/
theorem modifyScope_knows (h : env.modifyScope p (·.declare b) = .ok env') :
    env'.Knows b.name := by
  obtain ⟨s, s', hs, before, after, -, hscopes⟩ := modifyScope_ok h
  refine knows_iff.mpr ⟨s', ?_, Scope.has_of_declare hs⟩
  rw [hscopes]
  exact List.mem_append_right _ List.mem_cons_self

/-- A declaration only fails if the name is known. -/
theorem knows_of_modifyScope (h : env.modifyScope p (·.declare b) = .error old) :
    env.Knows b.name := by
  obtain ⟨s, hs, hfailed⟩ := modifyScope_error h
  refine knows_iff.mpr ⟨s, hs, ?_⟩
  rw [Scope.has, Scope.get?_of_declare hfailed]
  rfl

end Env
end Countersign
