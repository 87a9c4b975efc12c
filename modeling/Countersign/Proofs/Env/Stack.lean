/-
# Scopes as a stack of frames

An environment is changed by seven operations: two that enter a scope, one that leaves it, two that
declare a name, one that gives a name another type, and one that names a type. Whatever their order,
the scope of the globals stays at the bottom, and a declaration that is refused changes nothing.

A balanced run of operations leaves every scope that it enters. Without a change of types it is a
frame around what it does inside: behind a body everything is as it was, and behind a block the
nearest body around has at most got more names.

Key definitions: `Env.Op`, `Env.perform`, `Env.run`, `Env.Balanced`, `Scope.Extends`, `Env.Grown`,
`Env.Framed`.
Key theorems: `Env.Balanced.settled`, `Env.scopes_framed`.
-/
import Countersign.Proofs.Env.Covers

namespace Countersign

namespace Scope

variable {s t u : Scope}

/-- The second scope is the first one, perhaps with more names. -/
structure Extends (s t : Scope) : Prop where
  shape : t.shape = s.shape
  get? : ∀ name b, s.get? name = some b → t.get? name = some b

namespace Extends

theorem refl (s : Scope) : Extends s s := ⟨rfl, fun _ _ => id⟩

theorem trans (h : Extends s t) (h' : Extends t u) : Extends s u :=
  ⟨h'.shape.trans h.shape, fun name b hb => h'.get? name b (h.get? name b hb)⟩

theorem kind (h : Extends s t) : t.kind = s.kind := congrArg Prod.fst h.shape

theorem declare {b : Binding} (h : s.declare b = .ok t) : Extends s t := by
  refine ⟨declare_shape h, fun name old hold => ?_⟩
  unfold Scope.declare at h
  split at h
  · rename_i hfree
    cases h
    have hne : b.name ≠ name := fun heq => by
      rw [heq, hold] at hfree
      cases hfree
    rw [get?_set, if_neg (by simpa using hne)]
    exact hold
  · split at h
    · cases h
      exact hold
    · cases h

end Extends

/-- A declaration is refused if the name is bound to another type, and only then. -/
theorem declare_error_iff {b old : Binding} :
    s.declare b = .error old ↔ s.get? b.name = some old ∧ (old.type == b.type) = false := by
  unfold declare
  constructor
  · intro h
    split at h
    · cases h
    · rename_i hold
      split at h
      · cases h
      · rename_i hother
        cases h
        exact ⟨hold, by simpa using hother⟩
  · rintro ⟨hold, hother⟩
    rw [hold]
    dsimp only
    rw [hother, if_neg Bool.false_ne_true]

end Scope

namespace Env

variable {env env' : Env} {b old : Binding} {ss ss' ss'' : List Scope}

/-! ### Operations -/

/-- What can be done to an environment. -/
inductive Op where
  | enter (kind : ScopeKind)
  | enterFunction (receiver : Option Ty)
  | leave
  | declare (b : Binding)
  | declareVar (b : Binding)
  | rebind (name : String) (type : Ty)
  | defineAlias (name : String) (a : Alias)

namespace Op

/-- The scope that is entered. -/
def entered? : Op → Option Scope
  | enter kind => some (.ofKind kind)
  | enterFunction receiver => some (.ofFunction receiver)
  | _ => none

/-- Whether the operation gives a name another type. -/
def rebinds : Op → Bool
  | rebind _ _ => true
  | _ => false

end Op

/-- The environment after a declaration and the binding in its way, if it was refused. -/
def orRefused (env : Env) : Except Binding Env → Env × Option Binding
  | .ok env' => (env', none)
  | .error old => (env, some old)

/-- What an operation does, and the binding that a declaration was refused for. -/
def perform (env : Env) : Op → Env × Option Binding
  | .enter kind => (env.push (.ofKind kind), none)
  | .enterFunction receiver => (env.push (.ofFunction receiver), none)
  | .leave => (env.pop, none)
  | .declare b => env.orRefused (env.declare b)
  | .declareVar b => env.orRefused (env.declareVar b)
  | .rebind name t => ((env.rebind? name t).getD env, none)
  | .defineAlias name a =>
    (match env.defineAlias name a with
      | .ok env' => env'
      | .error _ => env, none)

/-- The environment after operations in order. -/
def run (env : Env) (ops : List Op) : Env := ops.foldl (fun env op => (env.perform op).1) env

@[simp] theorem run_nil (env : Env) : env.run [] = env := rfl

@[simp] theorem run_cons (env : Env) (op : Op) (ops : List Op) :
    env.run (op :: ops) = (env.perform op).1.run ops := rfl

theorem run_append (env : Env) (ops ops' : List Op) :
    env.run (ops ++ ops') = (env.run ops).run ops' := List.foldl_append

theorem perform_entered {op : Op} {scope : Scope} (h : op.entered? = some scope) :
    (env.perform op).1 = env.push scope := by
  cases op with
  | enter kind =>
    cases h
    rfl
  | enterFunction receiver =>
    cases h
    rfl
  | _ => cases h

theorem pop_scopes {s : Scope} {rest : List Scope} (h : env.scopes = s :: rest) (hrest : rest ≠ []) :
    env.pop.scopes = rest := by
  obtain ⟨inner, bottom, aliases⟩ := env
  cases inner with
  | nil =>
    obtain ⟨-, rfl⟩ := List.cons.inj h
    exact absurd rfl hrest
  | cons s' inner => exact (List.cons.inj h).2

theorem defineAlias_scopes {name : String} {a : Alias} (h : env.defineAlias name a = .ok env') :
    env'.scopes = env.scopes := by
  unfold defineAlias at h
  split at h
  · cases h
    rfl
  · split at h
    · cases h
      rfl
    · cases h

theorem perform_defineAlias_scopes (env : Env) (name : String) (a : Alias) :
    (env.perform (.defineAlias name a)).1.scopes = env.scopes := by
  show (match env.defineAlias name a with
    | .ok env' => env'
    | .error _ => env).scopes = env.scopes
  cases h : env.defineAlias name a with
  | ok env' => exact defineAlias_scopes h
  | error _ => rfl

/-! ### The bottom -/

/-- A change of one scope leaves the last one in its kind, with all its names. -/
theorem Changes.last {s s' : Scope} (h : Changes env.scopes s s' env'.scopes)
    (hkind : s'.kind = s.kind) (hcovers : s.Covers s') :
    env'.bottom.kind = env.bottom.kind ∧ env.bottom.Covers env'.bottom := by
  obtain ⟨before, after, hbefore, hafter⟩ := h
  have hlast : env.scopes.getLast? = some env.bottom := List.getLast?_concat
  have hlast' : env'.scopes.getLast? = some env'.bottom := List.getLast?_concat
  rw [hbefore, List.getLast?_append] at hlast
  rw [hafter, List.getLast?_append] at hlast'
  cases after with
  | nil =>
    obtain rfl : s = env.bottom := Option.some.inj hlast
    obtain rfl : s' = env'.bottom := Option.some.inj hlast'
    exact ⟨hkind, hcovers⟩
  | cons u after =>
    obtain ⟨x, hx⟩ : ∃ x, (u :: after).getLast? = some x :=
      ⟨_, List.getLast?_eq_some_getLast (List.cons_ne_nil u after)⟩
    rw [List.getLast?_cons_cons, hx] at hlast hlast'
    obtain rfl : x = env.bottom := Option.some.inj hlast
    obtain hsame : env.bottom = env'.bottom := Option.some.inj hlast'
    rw [← hsame]
    exact ⟨rfl, .refl _⟩

theorem orRefused_bottom {p : Scope → Bool} (env : Env) (b : Binding) :
    (env.orRefused (env.modifyScope p (·.declare b))).1.bottom.kind = env.bottom.kind ∧
      env.bottom.Covers (env.orRefused (env.modifyScope p (·.declare b))).1.bottom := by
  cases h : env.modifyScope p (·.declare b) with
  | error old => exact ⟨rfl, .refl _⟩
  | ok env' =>
    obtain ⟨s, s', hs, hchanges⟩ := modifyScope_ok h
    exact hchanges.last (Scope.Extends.declare hs).kind (.declare hs)

/-- No operation takes the bottom scope away, or a name from it. -/
theorem perform_bottom (env : Env) (op : Op) :
    (env.perform op).1.bottom.kind = env.bottom.kind ∧
      env.bottom.Covers (env.perform op).1.bottom := by
  cases op with
  | enter kind => exact ⟨rfl, .refl _⟩
  | enterFunction receiver => exact ⟨rfl, .refl _⟩
  | leave =>
    obtain ⟨inner, bottom, aliases⟩ := env
    cases inner with
    | nil => exact ⟨rfl, .refl _⟩
    | cons s inner => exact ⟨rfl, .refl _⟩
  | declare b => exact orRefused_bottom env b
  | declareVar b => exact orRefused_bottom env b
  | rebind name t =>
    show ((env.rebind? name t).getD env).bottom.kind = env.bottom.kind ∧
      env.bottom.Covers ((env.rebind? name t).getD env).bottom
    cases h : env.rebind? name t with
    | none => exact ⟨rfl, .refl _⟩
    | some env' =>
      obtain ⟨s, b, -, hchanges⟩ := rebind?_some h
      exact hchanges.last (congrArg Prod.fst (s.set_shape _)) (.set s _)
  | defineAlias name a =>
    have hscopes := perform_defineAlias_scopes env name a
    obtain ⟨-, hbottom⟩ := List.append_inj' hscopes rfl
    rw [(List.cons.inj hbottom).1]
    exact ⟨rfl, .refl _⟩

theorem run_bottom (env : Env) (ops : List Op) :
    (env.run ops).bottom.kind = env.bottom.kind ∧ env.bottom.Covers (env.run ops).bottom := by
  induction ops generalizing env with
  | nil => exact ⟨rfl, .refl _⟩
  | cons op ops ih =>
    obtain ⟨hkind, hcovers⟩ := perform_bottom env op
    obtain ⟨hkind', hcovers'⟩ := ih (env.perform op).1
    exact ⟨hkind'.trans hkind, hcovers.trans hcovers'⟩

/-! ### Refusals -/

/-- The innermost scope that is not a block's. -/
def body (env : Env) : Scope := (env.inner.find? (·.kind != .block)).getD env.bottom

theorem modifyFirst_find? {p : Scope → Bool} {f : Scope → Except Binding Scope} (ss : List Scope) :
    (modifyFirst p f ss).map (·.map fun _ => ()) = (ss.find? p).map fun s => (f s).map fun _ => () := by
  induction ss with
  | nil => rfl
  | cons s rest ih =>
    rw [modifyFirst, List.find?_cons]
    cases p s with
    | true =>
      rw [if_pos rfl, Option.map_some]
      dsimp only
      rw [Option.map_some]
      cases f s <;> rfl
    | false =>
      rw [if_neg Bool.false_ne_true, ← ih]
      rcases modifyFirst p f rest with _ | _ | _ <;> rfl

/-- A change fails where the scope that is to be changed refuses it. -/
theorem modifyScope_refused {p : Scope → Bool} {f : Scope → Except Binding Scope}
    (h : env.modifyScope p f = .error old) :
    f ((env.inner.find? p).getD env.bottom) = .error old := by
  have hfirst := modifyFirst_find? (p := p) (f := f) env.inner
  unfold modifyScope at h
  split at h
  · cases h
  · rename_i hmodified
    cases h
    rw [hmodified] at hfirst
    obtain ⟨s, hs, hfailed⟩ := Option.map_eq_some_iff.mp hfirst.symm
    rw [hs, Option.getD_some]
    cases hfs : f s with
    | ok s' =>
      rw [hfs] at hfailed
      cases hfailed
    | error e =>
      rw [hfs] at hfailed
      cases hfailed
      rfl
  · rename_i hmodified
    rw [hmodified] at hfirst
    rw [Option.map_eq_none_iff.mp hfirst.symm, Option.getD_none]
    cases hfs : f env.bottom with
    | ok s' =>
      rw [hfs] at h
      cases h
    | error e =>
      rw [hfs] at h
      cases h
      rfl

theorem current_eq (env : Env) : (env.inner.find? fun _ => true).getD env.bottom = env.current := by
  unfold current
  cases env.inner <;> rfl

theorem orRefused_some {x : Except Binding Env} (h : (env.orRefused x).2 = some old) :
    x = .error old ∧ (env.orRefused x).1 = env := by
  cases x with
  | ok env' => cases h
  | error old' =>
    cases h
    exact ⟨rfl, rfl⟩

/-- An operation is refused for a name that has another type in the scope where it was to be
declared, and then changes nothing. -/
theorem perform_refused {op : Op} (h : (env.perform op).2 = some old) :
    (env.perform op).1 = env ∧ ∃ b, (old.type == b.type) = false ∧
      (op = .declare b ∧ env.current.get? b.name = some old ∨
        op = .declareVar b ∧ env.body.get? b.name = some old) := by
  cases op with
  | declare b =>
    obtain ⟨hrefused, hsame⟩ := orRefused_some h
    have hscope := modifyScope_refused hrefused
    rw [current_eq] at hscope
    obtain ⟨hold, hother⟩ := Scope.declare_error_iff.mp hscope
    exact ⟨hsame, b, hother, .inl ⟨rfl, hold⟩⟩
  | declareVar b =>
    obtain ⟨hrefused, hsame⟩ := orRefused_some h
    obtain ⟨hold, hother⟩ := Scope.declare_error_iff.mp (modifyScope_refused hrefused)
    exact ⟨hsame, b, hother, .inr ⟨rfl, hold⟩⟩
  | _ => cases h

/-! ### Frames -/

/-- The scopes after names were added to the nearest one that is not a block's. -/
inductive Grown : List Scope → List Scope → Prop
  | body {s s' : Scope} {rest : List Scope} (hs : s.kind ≠ .block) (h : s.Extends s') :
    Grown (s :: rest) (s' :: rest)
  | block {s : Scope} {rest rest' : List Scope} (hs : s.kind = .block) (h : Grown rest rest') :
    Grown (s :: rest) (s :: rest')

namespace Grown

theorem refl (h : ∃ s ∈ ss, s.kind ≠ .block) : Grown ss ss := by
  induction ss with
  | nil => simp at h
  | cons s rest ih =>
    by_cases hs : s.kind = .block
    · refine .block hs (ih ?_)
      obtain ⟨t, ht, hbody⟩ := h
      rcases List.mem_cons.mp ht with rfl | ht
      · exact absurd hs hbody
      · exact ⟨t, ht, hbody⟩
    · exact .body hs (.refl s)

theorem trans (h : Grown ss ss') (h' : Grown ss' ss'') : Grown ss ss'' := by
  induction h generalizing ss'' with
  | body hs hextends =>
    cases h' with
    | body _ hextends' => exact .body hs (hextends.trans hextends')
    | block hs' _ => exact absurd (hextends.kind ▸ hs') hs
  | block hs _ ih =>
    cases h' with
    | body hs' _ => exact absurd hs hs'
    | block _ hrest' => exact .block hs (ih hrest')

theorem ne_nil (h : Grown ss ss') : ss' ≠ [] := by
  cases h with
  | body => exact List.cons_ne_nil _ _
  | block => exact List.cons_ne_nil _ _

theorem modifyFirst {rest : List Scope}
    (h : Env.modifyFirst (·.kind != .block) (·.declare b) ss = some (.ok ss')) :
    Grown (ss ++ rest) (ss' ++ rest) := by
  induction ss generalizing ss' with
  | nil => cases h
  | cons s tail ih =>
    unfold Env.modifyFirst at h
    by_cases hs : s.kind = .block
    · rw [hs, if_neg (by decide)] at h
      obtain ⟨r, hr, hmap⟩ := Option.map_eq_some_iff.mp h
      cases r with
      | error old => cases hmap
      | ok tail' =>
        cases hmap
        exact .block hs (ih hr)
    · rw [if_pos (by simpa using hs)] at h
      cases hd : s.declare b with
      | error old =>
        rw [hd] at h
        cases h
      | ok s' =>
        rw [hd] at h
        cases h
        exact .body hs (.declare hd)

theorem blocks (hss : ∀ s ∈ ss, s.kind = .block) {rest rest' : List Scope}
    (h : Grown rest rest') : Grown (ss ++ rest) (ss ++ rest') := by
  induction ss with
  | nil => exact h
  | cons s ss ih =>
    exact .block (hss s List.mem_cons_self) (ih fun t ht => hss t (List.mem_cons_of_mem s ht))

theorem declareVar (hbottom : env.bottom.kind ≠ .block) (h : env.declareVar b = .ok env') :
    Grown env.scopes env'.scopes := by
  unfold Env.declareVar modifyScope at h
  split at h
  · rename_i hinner
    cases h
    exact modifyFirst hinner
  · cases h
  · rename_i hinner
    have hblocks : ∀ s ∈ env.inner, s.kind = .block := fun s hs => by
      simpa using modifyFirst_none _ hinner s hs
    dsimp only at h
    cases hd : env.bottom.declare b with
    | error old =>
      rw [hd] at h
      cases h
    | ok bottom =>
      rw [hd] at h
      cases h
      exact blocks hblocks (.body hbottom (.declare hd))

end Grown

/-- The scopes after a balanced run: the innermost one may have got more names, and so may the
nearest body around if that one is a block's. -/
inductive Settled : List Scope → List Scope → Prop
  | body {s s' : Scope} {rest : List Scope} (hs : s.kind ≠ .block) (h : s.Extends s') :
    Settled (s :: rest) (s' :: rest)
  | block {s s' : Scope} {rest rest' : List Scope} (hs : s.kind = .block) (h : s.Extends s')
    (hrest : Grown rest rest') : Settled (s :: rest) (s' :: rest')

namespace Settled

theorem ofGrown (h : Grown ss ss') : Settled ss ss' := by
  cases h with
  | body hs hextends => exact .body hs hextends
  | block hs hrest => exact .block hs (.refl _) hrest

theorem trans (h : Settled ss ss') (h' : Settled ss' ss'') : Settled ss ss'' := by
  cases h with
  | body hs hextends =>
    cases h' with
    | body _ hextends' => exact .body hs (hextends.trans hextends')
    | block hs' _ _ => exact absurd (hextends.kind ▸ hs') hs
  | block hs hextends hrest =>
    cases h' with
    | body hs' _ => exact absurd (hextends.kind.trans hs) hs'
    | block _ hextends' hrest' => exact .block hs (hextends.trans hextends') (hrest.trans hrest')

/-- The innermost scope got more names. -/
theorem head {s s' : Scope} {rest : List Scope} (h : s.Extends s')
    (hbody : ∃ t ∈ s :: rest, t.kind ≠ .block) : Settled (s :: rest) (s' :: rest) := by
  by_cases hs : s.kind = .block
  · refine .block hs h (.refl ?_)
    obtain ⟨t, ht, hkind⟩ := hbody
    rcases List.mem_cons.mp ht with rfl | ht
    · exact absurd hs hkind
    · exact ⟨t, ht, hkind⟩
  · exact .body hs h

/-- What is left when the innermost scope is left. -/
theorem leave {s : Scope} {rest : List Scope} (h : Settled (s :: rest) ss') :
    ∃ s' rest', ss' = s' :: rest' ∧ (s.kind ≠ .block → rest' = rest) ∧
      (s.kind = .block → Grown rest rest') := by
  cases h with
  | body hs hextends => exact ⟨_, _, rfl, fun _ => rfl, fun hblock => absurd hblock hs⟩
  | block hs hextends hrest => exact ⟨_, _, rfl, fun hbody => absurd hs hbody, fun _ => hrest⟩

end Settled

theorem bottom_mem_scopes (env : Env) : env.bottom ∈ env.scopes :=
  List.mem_append_right _ (List.mem_singleton_self _)

theorem declare_settled (hbottom : env.bottom.kind ≠ .block) (h : env.declare b = .ok env') :
    Settled env.scopes env'.scopes := by
  have hbody : ∃ s ∈ env.scopes, s.kind ≠ .block := ⟨_, env.bottom_mem_scopes, hbottom⟩
  obtain ⟨inner, bottom, aliases⟩ := env
  cases inner with
  | nil =>
    cases hd : bottom.declare b with
    | error old => simp [Env.declare, modifyScope, modifyFirst, hd, Except.map] at h
    | ok bottom' =>
      simp only [Env.declare, modifyScope, modifyFirst, hd, Except.map, Except.ok.injEq] at h
      subst h
      exact .head (.declare hd) hbody
  | cons s inner =>
    cases hd : s.declare b with
    | error old => simp [Env.declare, modifyScope, modifyFirst, hd, Except.map] at h
    | ok s' =>
      simp only [Env.declare, modifyScope, modifyFirst, if_true, hd, Except.map,
        Except.ok.injEq] at h
      subst h
      exact .head (.declare hd) hbody

/-! ### Balanced runs -/

/-- Every scope that is entered is left, and no other. -/
inductive Balanced : List Op → Prop
  | nil : Balanced []
  | inside {op : Op} {ops : List Op} (hop : op.entered? = none) (hleave : op ≠ .leave)
    (h : Balanced ops) : Balanced (op :: ops)
  | enclosed {op : Op} {scope : Scope} {body ops : List Op} (hop : op.entered? = some scope)
    (hbody : Balanced body) (h : Balanced ops) : Balanced (op :: body ++ .leave :: ops)

/-- What an operation that neither enters nor leaves a scope does to the scopes. -/
theorem perform_settled (hbottom : env.bottom.kind ≠ .block) {op : Op} (hop : op.entered? = none)
    (hleave : op ≠ .leave) (hrebinds : op.rebinds = false) :
    Settled env.scopes (env.perform op).1.scopes := by
  have hrefl : Settled env.scopes env.scopes :=
    .ofGrown (.refl ⟨_, env.bottom_mem_scopes, hbottom⟩)
  cases op with
  | enter kind => cases hop
  | enterFunction receiver => cases hop
  | leave => exact absurd rfl hleave
  | declare b =>
    show Settled env.scopes (env.orRefused (env.declare b)).1.scopes
    cases h : env.declare b with
    | ok env' => exact declare_settled hbottom h
    | error old => exact hrefl
  | declareVar b =>
    show Settled env.scopes (env.orRefused (env.declareVar b)).1.scopes
    cases h : env.declareVar b with
    | ok env' => exact .ofGrown (.declareVar hbottom h)
    | error old => exact hrefl
  | rebind name t => cases hrebinds
  | defineAlias name a =>
    rw [perform_defineAlias_scopes]
    exact hrefl

/-- **The frame around a scope that is entered and left**, given what happens inside. -/
theorem enclosed_frame {op : Op} {scope : Scope} (hop : op.entered? = some scope) {body : List Op}
    (hbody : Settled (env.push scope).scopes ((env.push scope).run body).scopes) :
    (scope.kind ≠ .block → (env.run (op :: body ++ [.leave])).scopes = env.scopes) ∧
      (scope.kind = .block → Grown env.scopes (env.run (op :: body ++ [.leave])).scopes) := by
  obtain ⟨s', rest', hscopes, houtside, hblock⟩ := hbody.leave
  have hrun : env.run (op :: body ++ [.leave]) = ((env.push scope).run body).pop := by
    rw [List.cons_append, run_cons, perform_entered hop, run_append]
    rfl
  rw [hrun]
  constructor
  · intro hkind
    obtain rfl := houtside hkind
    have hne : env.scopes ≠ [] := List.ne_nil_of_mem env.bottom_mem_scopes
    exact pop_scopes hscopes hne
  · intro hkind
    have hgrown := hblock hkind
    rw [pop_scopes hscopes hgrown.ne_nil]
    exact hgrown

/-- A balanced run without changes of types only adds names to the innermost scope, or through
blocks to the nearest body. -/
theorem Balanced.settled {ops : List Op} (h : Balanced ops) :
    ∀ env : Env, env.bottom.kind ≠ .block → (∀ op ∈ ops, op.rebinds = false) →
      Settled env.scopes (env.run ops).scopes := by
  induction h with
  | nil =>
    intro env hbottom _
    exact .ofGrown (.refl ⟨_, env.bottom_mem_scopes, hbottom⟩)
  | @inside op ops hop hleave _ ih =>
    intro env hbottom hrebinds
    obtain ⟨hfirst, hrest⟩ := List.forall_mem_cons.mp hrebinds
    have hnext : (env.perform op).1.bottom.kind ≠ .block := by
      rwa [(perform_bottom env op).1]
    exact (perform_settled hbottom hop hleave hfirst).trans (ih _ hnext hrest)
  | @enclosed op scope body ops hop _ _ ihbody ih =>
    intro env hbottom hrebinds
    have hbodyRebinds : ∀ o ∈ body, o.rebinds = false := fun o ho =>
      hrebinds o (List.mem_append_left _ (List.mem_cons_of_mem op ho))
    have hrest : ∀ o ∈ ops, o.rebinds = false := fun o ho =>
      hrebinds o (List.mem_append_right _ (List.mem_cons_of_mem .leave ho))
    obtain ⟨hbodies, hblocks⟩ := @enclosed_frame env _ _ hop _
      (ihbody (env.push scope) hbottom hbodyRebinds)
    have hround : Settled env.scopes (env.run (op :: body ++ [.leave])).scopes := by
      by_cases hkind : scope.kind = .block
      · exact .ofGrown (hblocks hkind)
      · rw [hbodies hkind]
        exact .ofGrown (.refl ⟨_, env.bottom_mem_scopes, hbottom⟩)
    have hafter : (env.run (op :: body ++ [.leave])).bottom.kind ≠ .block := by
      rwa [(run_bottom env _).1]
    have hsplit : op :: body ++ .leave :: ops = (op :: body ++ [.leave]) ++ ops := by simp
    rw [hsplit, run_append]
    exact hround.trans (ih _ hafter hrest)

/-- The scopes are a stack of frames over the globals. -/
structure Framed (env : Env) : Prop where
  /-- The scope of the globals is the last one, with all its names. -/
  last : env.scopes.getLast? = some env.bottom
  kind : env.bottom.kind = .global
  globals : ∀ g ∈ builtinGlobals, env.bottom.has g.1 = true
  /-- It is the one scope that cannot be left. -/
  stays : env.pop? = none ↔ env.scopes = [env.bottom]
  /-- A name means what it does in the innermost scope that binds it. -/
  lookup : ∀ name b, env.lookup? name = some b ↔
    ∃ inside s outside, env.scopes = inside ++ s :: outside ∧ s.get? name = some b ∧
      ∀ u ∈ inside, u.get? name = none
  /-- A declaration that is refused changes nothing; it is refused where the scope that it is for
  binds the name to another type. -/
  refused : ∀ op old, (env.perform op).2 = some old →
    (env.perform op).1 = env ∧ ∃ b, (old.type == b.type) = false ∧
      (op = .declare b ∧ env.current.get? b.name = some old ∨
        op = .declareVar b ∧ env.body.get? b.name = some old)
  /-- A balanced run in a body changes no scope around it. -/
  aroundBody : ∀ op scope inside, op.entered? = some scope → scope.kind ≠ .block →
    Balanced inside → (∀ o ∈ inside, o.rebinds = false) →
    (env.run (op :: inside ++ [.leave])).scopes = env.scopes
  /-- A balanced run in a block adds names to the nearest body around and changes nothing else. -/
  aroundBlock : ∀ op scope inside, op.entered? = some scope → scope.kind = .block →
    Balanced inside → (∀ o ∈ inside, o.rebinds = false) →
    Grown env.scopes (env.run (op :: inside ++ [.leave])).scopes

/-- **After any operations the scopes are a stack of frames over the globals.** -/
theorem scopes_framed (ops : List Op) : Framed (initial.run ops) := by
  obtain ⟨hkind, hcovers⟩ := run_bottom initial ops
  generalize initial.run ops = env at hkind hcovers
  have hbottom : ∀ scope, (env.push scope).bottom.kind ≠ .block := by
    intro scope
    show env.bottom.kind ≠ .block
    rw [hkind]
    decide
  constructor
  · exact List.getLast?_concat
  · exact hkind
  · intro g hg
    exact hcovers g.1 (List.find?_isSome.mpr ⟨⟨g.1, g.2, 0⟩, List.mem_map_of_mem hg, by simp⟩)
  · obtain ⟨inner, bottom, aliases⟩ := env
    cases inner <;> simp [pop?, scopes]
  · exact fun name b => List.findSome?_eq_some_iff
  · exact fun op old h => perform_refused h
  · intro op scope inside hop hbody hinside hrebinds
    exact (enclosed_frame hop (hinside.settled _ (hbottom scope) hrebinds)).1 hbody
  · intro op scope inside hop hblock hinside hrebinds
    exact (enclosed_frame hop (hinside.settled _ (hbottom scope) hrebinds)).2 hblock

end Env
end Countersign
