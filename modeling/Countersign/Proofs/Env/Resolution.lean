/-
# What a type stands for

The outermost node of a type can be taken for something else in four ways: a bare name for the type
it was given, a renamed class for what its first name was given, a generic application for the body
of its alias, and the wrapper of what a module exports for what it wraps (`Expands`). Resolution
follows the chain of these steps. If the chain ends within the limit, resolution gives its end, which
is a normal form; if it does not, resolution stops on the way, at a type that can still be expanded.

Key definitions: `Env.Expands`, `Env.NormalForm`, `Env.Chain`.
Key theorems: `Env.step?_eq_some`, `Env.resolveWithin_of_chain`, `Env.chain_resolveWithin`,
`Env.resolve_normal`.
-/
import Countersign.Env.Resolve
import Mathlib.Tactic

namespace Countersign
namespace Env

/-- The outermost node of the first type stands for the second type. -/
inductive Expands (env : Env) : Ty → Ty → Prop
  /-- A bare name stands for the type it was given, if that has no parameters. -/
  | name {n : String} {body : Ty} :
      env.alias? n = some ⟨[], body⟩ → Expands env (.named (.user n)) body
  /-- A renamed class stands for what its first name stands for. -/
  | renamed {new original : ClassName} {body : Ty} :
      env.alias? original.name = some ⟨[], body⟩ → Expands env (.renamed new original) body
  /-- A generic application stands for an instance, if it has an argument for each parameter. -/
  | applied {base : Ty} {n : String} {params : List String} {args : List Ty} {body : Ty} :
      base.literalName = some n → env.alias? n = some ⟨params, body⟩ →
      params.length = args.length → Expands env (.generic base args) (body.substitute params args)
  /-- What a module exports stands for itself. -/
  | exported {t : Ty} : Expands env (.moduleExports t) t

/-- The outermost node of the type cannot be expanded. -/
def NormalForm (env : Env) (t : Ty) : Prop := ∀ u, ¬ env.Expands t u

/-- So many expansions lead from the first type to the second. -/
inductive Chain (env : Env) : ℕ → Ty → Ty → Prop
  | refl (t : Ty) : Chain env 0 t t
  | step {n : ℕ} {t u v : Ty} : env.Expands t u → Chain env n u v → Chain env (n + 1) t v

section

variable {env : Env} {t u v : Ty} {n : ℕ}

theorem plainAlias?_eq_some {name : String} :
    env.plainAlias? name = some t ↔ env.alias? name = some ⟨[], t⟩ := by
  constructor
  · intro h
    obtain ⟨⟨params, body⟩, halias, hplain⟩ := Option.bind_eq_some_iff.mp h
    split at hplain
    · rename_i hempty
      obtain rfl : params = [] := List.isEmpty_iff.mp hempty
      obtain rfl : body = t := Option.some.inj hplain
      exact halias
    · cases hplain
  · intro h
    rw [plainAlias?, h]
    rfl

/-- **A step of resolution expands the outermost node**, and one applies wherever the node can be
expanded. -/
theorem step?_eq_some : env.step? t = some u ↔ env.Expands t u := by
  constructor
  · intro h
    cases t with
    | named c =>
      obtain ⟨name, builtin⟩ := c
      cases builtin with
      | true => cases h
      | false => exact .name (plainAlias?_eq_some.mp h)
    | renamed new original => exact .renamed (plainAlias?_eq_some.mp h)
    | generic base args =>
      obtain ⟨a, ha, rfl⟩ := Option.map_eq_some_iff.mp h
      obtain ⟨⟨params, body⟩, hnamed, hlength⟩ := Option.bind_eq_some_iff.mp ha
      obtain ⟨name, hname, halias⟩ := Option.bind_eq_some_iff.mp hnamed
      split at hlength
      · rename_i hsame
        obtain rfl := Option.some.inj hlength
        exact .applied hname halias (beq_iff_eq.mp hsame)
      · cases hlength
    | moduleExports t =>
      obtain rfl : t = u := Option.some.inj h
      exact .exported
    | _ => cases h
  · intro h
    cases h with
    | name halias => exact plainAlias?_eq_some.mpr halias
    | renamed halias => exact plainAlias?_eq_some.mpr halias
    | applied hname halias hlength =>
      simp only [step?, genericAlias?, hname, halias, hlength, Option.bind_some, beq_self_eq_true,
        if_true, Option.map_some]
    | exported => rfl

theorem step?_eq_none : env.step? t = none ↔ env.NormalForm t := by
  rw [Option.eq_none_iff_forall_ne_some]
  exact forall_congr' fun u => not_congr step?_eq_some

/-- **Resolution goes to the end of a chain** that ends within the limit. -/
theorem resolveWithin_of_chain (h : env.Chain n t u) (hend : env.NormalForm u) :
    ∀ limit, n ≤ limit → env.resolveWithin limit t = u := by
  induction h with
  | refl t =>
    intro limit _
    cases limit with
    | zero => rfl
    | succ limit => rw [resolveWithin, step?_eq_none.mpr hend]
  | @step n t v u hstep _ ih =>
    intro limit hn
    obtain ⟨limit, rfl⟩ := Nat.exists_eq_succ_of_ne_zero (by omega : limit ≠ 0)
    rw [resolveWithin, step?_eq_some.mpr hstep]
    exact ih hend limit (by omega)

/-- **Resolution goes along a chain**, and stops before the limit only where the chain ends. -/
theorem chain_resolveWithin (env : Env) (limit : ℕ) (t : Ty) :
    ∃ n ≤ limit, env.Chain n t (env.resolveWithin limit t) := by
  induction limit generalizing t with
  | zero => exact ⟨0, le_rfl, .refl t⟩
  | succ limit ih =>
    rw [resolveWithin]
    split
    · exact ⟨0, Nat.zero_le _, .refl t⟩
    · rename_i u hu
      obtain ⟨n, hn, hchain⟩ := ih u
      exact ⟨n + 1, by omega, .step (step?_eq_some.mp hu) hchain⟩

/-- A normal form stands for itself. -/
theorem resolve_of_normalForm (h : env.NormalForm t) : env.resolve t = t :=
  resolveWithin_of_chain (.refl t) h resolutionLimit (Nat.zero_le _)

/-- So many wrappers of exports make a chain so much longer. -/
theorem Chain.wrapped (h : env.Chain n t u) : ∀ k, env.Chain (n + k) (Ty.moduleExports^[k] t) u
  | 0 => h
  | k + 1 => by
    rw [Function.iterate_succ_apply']
    exact .step .exported (h.wrapped k)

end

/-- **Resolution reaches a normal form.** If the chain of expansions of a type ends after at most 64
steps, resolution gives its end: that cannot be expanded, is resolved to itself, and is also what the
wrapped type stands for if the chain that is one longer still fits. A type that cannot be expanded
stays what it is. And where resolution gives a normal form, the chain does end after at most 64
steps. -/
theorem resolve_normal (env : Env) (t : Ty) :
    (∀ n u, env.Chain n t u → env.NormalForm u → n ≤ 64 →
      env.resolve t = u ∧ env.NormalForm (env.resolve t) ∧
      env.resolve (env.resolve t) = env.resolve t ∧
      (n + 1 ≤ 64 → env.resolve (.moduleExports t) = env.resolve t)) ∧
    (env.NormalForm t → env.resolve t = t ∧ env.settled t = true) ∧
    (env.NormalForm (env.resolve t) → ∃ n ≤ 64, ∃ u, env.Chain n t u ∧ env.NormalForm u) := by
  refine ⟨fun n u hchain hend hn => ?_, fun h => ⟨resolve_of_normalForm h, ?_⟩, fun h => ?_⟩
  · have hresolve : env.resolve t = u := resolveWithin_of_chain hchain hend resolutionLimit hn
    rw [hresolve]
    refine ⟨rfl, hend, resolve_of_normalForm hend, fun hn' => ?_⟩
    exact resolveWithin_of_chain (.step .exported hchain) hend resolutionLimit hn'
  · rw [settled, step?_eq_none.mpr h]
    rfl
  · obtain ⟨n, hn, hchain⟩ := chain_resolveWithin env resolutionLimit t
    exact ⟨n, hn, _, hchain, h⟩

/-- Names of all kinds: `Reply` renames `Answer`, which is an instance of `Box`. -/
def replyEnv : Env :=
  { initial with
    aliases :=
      [("Reply", ⟨[], .renamed (.user "Letter") (.user "Answer")⟩),
        ("Answer", ⟨[], .generic (.named (.user "Box")) [.ofName "Number"]⟩),
        ("Box", ⟨["T"], .object [("value", .named (.user "T"))]⟩)] }

/-- What the names lead to. -/
def replyBox : Ty := .object [("value", .ofName "Number")]

theorem reply_chain : replyEnv.Chain 3 (.named (.user "Reply")) replyBox :=
  .step (.name rfl) (.step (.renamed rfl) (.step (.applied rfl rfl rfl) (.refl _)))

/-- With 61 wrappers around it the chain takes all 64 steps. -/
theorem resolve_normal_reply :
    replyEnv.Chain 64 (Ty.moduleExports^[61] (.named (.user "Reply"))) replyBox ∧
      replyEnv.NormalForm replyBox ∧ (64 : ℕ) ≤ 64 ∧
      replyEnv.resolve (Ty.moduleExports^[61] (.named (.user "Reply"))) = replyBox := by
  have hchain := reply_chain.wrapped 61
  have hend : replyEnv.NormalForm replyBox := step?_eq_none.mp rfl
  exact ⟨hchain, hend, le_rfl, ((resolve_normal replyEnv _).1 64 _ hchain hend le_rfl).1⟩

end Env
end Countersign
