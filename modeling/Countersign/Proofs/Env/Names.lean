/-
# What depends on the named types only

Resolution does not look at the scopes, so it gives the same result in all environments that name
the same types, and so does the test whether a type is settled. It does not look at the order of
the table either, only at what each name stands for. And no change of the scopes changes the table.

Key theorems: `Env.resolve_congr`, `Env.resolve_eq`, `Env.settled_congr`,
`Env.modifyScope_aliases`.
-/
import Countersign.Env.Resolve
import Mathlib.Tactic

namespace Countersign
namespace Env

variable {env env' : Env}

theorem alias?_congr (h : env.aliases = env'.aliases) : env.alias? = env'.alias? := by
  funext name
  rw [alias?, alias?, h]

theorem plainAlias?_congr (h : env.alias? = env'.alias?) : env.plainAlias? = env'.plainAlias? := by
  funext name
  rw [plainAlias?, plainAlias?, h]

theorem step?_congr (h : env.alias? = env'.alias?) : env.step? = env'.step? := by
  funext t
  cases t <;> simp only [step?, plainAlias?_congr h, genericAlias?, h]

theorem stepIsStored_congr (h : env.alias? = env'.alias?) :
    env.stepIsStored = env'.stepIsStored := by
  funext stored t
  cases t <;> simp only [stepIsStored, genericAlias?, h]

theorem resolveWithin_congr (h : env.alias? = env'.alias?) (limit : Nat) (t : Ty) :
    env.resolveWithin limit t = env'.resolveWithin limit t := by
  induction limit generalizing t with
  | zero => rfl
  | succ limit ih => simp only [resolveWithin, step?_congr h, ih]

/-- Resolution only looks at what the names stand for. -/
theorem resolve_eq (h : env.alias? = env'.alias?) : env.resolve = env'.resolve :=
  funext (resolveWithin_congr h resolutionLimit)

/-- Resolution only looks at the named types. -/
theorem resolve_congr (h : env.aliases = env'.aliases) (t : Ty) : env.resolve t = env'.resolve t :=
  congrFun (resolve_eq (alias?_congr h)) t

theorem circles_congr (h : env.alias? = env'.alias?) (target : Ty) (limit : Nat) (stored : Bool)
    (t : Ty) : env.circles target limit stored t = env'.circles target limit stored t := by
  induction limit generalizing stored t with
  | zero => rfl
  | succ limit ih => simp only [circles, step?_congr h, stepIsStored_congr h, ih]

theorem settled_congr (h : env.alias? = env'.alias?) : env.settled = env'.settled := by
  funext t
  rw [settled, settled, step?_congr h, circles_congr h]

/-! ### Changes of the scopes -/

theorem pop_aliases (env : Env) : env.pop.aliases = env.aliases := by
  unfold pop pop?
  cases env.inner <;> rfl

theorem modifyScope_aliases {ε : Type} {p : Scope → Bool} {f : Scope → Except ε Scope}
    (h : env.modifyScope p f = .ok env') : env'.aliases = env.aliases := by
  unfold modifyScope at h
  split at h
  · cases h
    rfl
  · cases h
  · cases hbottom : f env.bottom with
    | error e =>
      rw [hbottom] at h
      cases h
    | ok bottom =>
      rw [hbottom] at h
      cases h
      rfl

theorem rebind?_aliases {name : String} {t : Ty} (h : env.rebind? name t = some env') :
    env'.aliases = env.aliases := by
  unfold rebind? at h
  split at h
  · cases h
    rfl
  · obtain ⟨b, -, rfl⟩ := Option.map_eq_some_iff.mp h
    rfl

end Env
end Countersign
