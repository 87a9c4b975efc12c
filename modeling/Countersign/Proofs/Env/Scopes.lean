/-
# What declarations keep of the scopes

A declaration changes one scope, the innermost one or that of the body around, and never the kinds
of the scopes or the receivers. So do all operations that give a name another type after its
declaration failed. What lies beneath the body around stays as it is.

Key definitions: `Scope.shape`, `Env.beneath`, `Env.SameFrame`, `Env.Keeps`.
Key theorems: `Env.Keeps.declareVar`, `Env.Keeps.rebind?`, `Env.Keeps.leave_block`,
`Env.Keeps.leave_body`.
-/
import Countersign.Env.Basic
import Mathlib.Tactic

namespace Countersign

namespace Scope

/-- What a declaration leaves of a scope: its kind, and the receiver's type. -/
def shape (s : Scope) : ScopeKind × Option Ty := (s.kind, s.receiver)

theorem set_shape (s : Scope) (b : Binding) : (s.set b).shape = s.shape := by
  unfold set
  split <;> rfl

theorem declare_shape {s s' : Scope} {b : Binding} (h : s.declare b = .ok s') :
    s'.shape = s.shape := by
  unfold declare at h
  split at h
  · cases h
    exact s.set_shape b
  · split at h
    · cases h
      rfl
    · cases h

/-- A declaration fails only where the name is bound. -/
theorem get?_of_declare {s : Scope} {b old : Binding} (h : s.declare b = .error old) :
    s.get? b.name = some old := by
  unfold declare at h
  split at h
  · cases h
  · rename_i hget
    split at h
    · cases h
    · cases h
      exact hget

end Scope

namespace Env

/-- The scopes beneath the innermost one that is not a block's. -/
def beneath (ss : List Scope) : List Scope := (ss.dropWhile (·.kind == .block)).tail

theorem beneath_suffix (ss : List Scope) : beneath ss <:+ ss :=
  (List.tail_suffix _).trans (List.dropWhile_suffix _)

/-- Scopes in the place of others: of the same shapes, and the same beneath the body around. -/
structure SameFrame (ss ss' : List Scope) : Prop where
  shapes : ss'.map Scope.shape = ss.map Scope.shape
  beneath : beneath ss' = beneath ss

namespace SameFrame

variable {s s' : Scope} {ss ss' ss'' : List Scope}

theorem refl (ss : List Scope) : SameFrame ss ss := ⟨rfl, rfl⟩

theorem trans (h : SameFrame ss ss') (h' : SameFrame ss' ss'') : SameFrame ss ss'' :=
  ⟨h'.shapes.trans h.shapes, h'.beneath.trans h.beneath⟩

theorem beneath_of_block (h : s.kind = .block) : Env.beneath (s :: ss) = Env.beneath ss := by
  rw [Env.beneath, List.dropWhile_cons, h]
  rfl

theorem beneath_of_body (h : s.kind ≠ .block) : Env.beneath (s :: ss) = ss := by
  have hkind : (s.kind == ScopeKind.block) = false := by simpa using h
  rw [Env.beneath, List.dropWhile_cons, hkind]
  rfl

/-- The innermost scope may change. -/
theorem head (h : s'.shape = s.shape) : SameFrame (s :: ss) (s' :: ss) := by
  have hkind : s'.kind = s.kind := congrArg Prod.fst h
  refine ⟨by rw [List.map_cons, List.map_cons, h], ?_⟩
  by_cases hblock : s.kind = .block
  · rw [beneath_of_block hblock, beneath_of_block (hkind.trans hblock)]
  · rw [beneath_of_body hblock, beneath_of_body (hkind ▸ hblock)]

/-- Under a block's scope, others may change in the same way. -/
theorem block (hblock : s.kind = .block) (h : SameFrame ss ss') :
    SameFrame (s :: ss) (s :: ss') := by
  refine ⟨by rw [List.map_cons, List.map_cons, h.shapes], ?_⟩
  rw [beneath_of_block hblock, beneath_of_block hblock, h.beneath]

/-- Under nothing but blocks, others may change in the same way. -/
theorem blocks {bs : List Scope} (hblocks : ∀ b ∈ bs, b.kind = .block) (h : SameFrame ss ss') :
    SameFrame (bs ++ ss) (bs ++ ss') := by
  induction bs with
  | nil => exact h
  | cons b bs ih =>
    have hbs : ∀ c ∈ bs, c.kind = .block := fun c hc => hblocks c (List.mem_cons_of_mem b hc)
    exact block (hblocks b List.mem_cons_self) (ih hbs)

/-- Leaving a block. -/
theorem leave (hblock : s.kind = .block) (h : SameFrame (s :: ss) (s' :: ss')) :
    SameFrame ss ss' := by
  have hshapes := List.cons.inj h.shapes
  have hkind : s'.kind = s.kind := congrArg Prod.fst hshapes.1
  refine ⟨hshapes.2, ?_⟩
  have hbeneath := h.beneath
  rwa [beneath_of_block hblock, beneath_of_block (hkind.trans hblock)] at hbeneath

/-- Leaving a body: everything beneath it is as it was. -/
theorem eq_of_body (hbody : s.kind ≠ .block) (h : SameFrame (s :: ss) (s' :: ss')) : ss' = ss := by
  have hkind : s'.kind = s.kind := congrArg Prod.fst (List.cons.inj h.shapes).1
  have hbeneath := h.beneath
  rwa [beneath_of_body hbody, beneath_of_body (hkind ▸ hbody)] at hbeneath

end SameFrame

section Declare

variable {p : Scope → Bool} {b old : Binding} {ss ss' : List Scope}

theorem modifyFirst_none (f : Scope → Except Binding Scope) (h : modifyFirst p f ss = none) :
    ∀ s ∈ ss, p s = false := by
  induction ss with
  | nil => exact fun s hs => absurd hs List.not_mem_nil
  | cons s rest ih =>
    unfold modifyFirst at h
    split at h
    · cases h
    · rename_i hp
      intro t ht
      rcases List.mem_cons.mp ht with rfl | ht
      · simpa using hp
      · exact ih (Option.map_eq_none_iff.mp h) t ht

/-- A declaration reaches no further out than the body around. -/
theorem modifyFirst_frame (hp : ∀ s, p s = false → s.kind = .block) (rest : List Scope)
    (h : modifyFirst p (·.declare b) ss = some (.ok ss')) :
    SameFrame (ss ++ rest) (ss' ++ rest) := by
  induction ss generalizing ss' with
  | nil => cases h
  | cons s tail ih =>
    unfold modifyFirst at h
    cases hs : p s with
    | true =>
      rw [hs, if_pos rfl] at h
      cases hd : s.declare b with
      | error old =>
        rw [hd] at h
        cases h
      | ok s' =>
        rw [hd] at h
        cases h
        exact .head (Scope.declare_shape hd)
    | false =>
      rw [hs, if_neg Bool.false_ne_true] at h
      obtain ⟨r, hr, h⟩ := Option.map_eq_some_iff.mp h
      cases r with
      | error old => cases h
      | ok tail' =>
        cases h
        exact .block (hp s hs) (ih hr)

/-- Where a declaration failed, giving the name another type changes a scope no further out. -/
theorem retypeFirst_frame (hp : ∀ s, p s = false → s.kind = .block) (rest : List Scope) (t : Ty)
    (h : modifyFirst p (·.declare b) ss = some (.error old)) :
    ∃ ss', retypeFirst b.name t ss = some ss' ∧ SameFrame (ss ++ rest) (ss' ++ rest) := by
  induction ss with
  | nil => cases h
  | cons s tail ih =>
    unfold retypeFirst
    cases hget : s.get? b.name with
    | some c => exact ⟨_, rfl, .head (s.set_shape _)⟩
    | none =>
      unfold modifyFirst at h
      cases hs : p s with
      | true =>
        rw [hs, if_pos rfl] at h
        cases hd : s.declare b with
        | ok s' =>
          rw [hd] at h
          cases h
        | error c =>
          rw [Scope.get?_of_declare hd] at hget
          cases hget
      | false =>
        rw [hs, if_neg Bool.false_ne_true] at h
        obtain ⟨r, hr, h⟩ := Option.map_eq_some_iff.mp h
        cases r with
        | ok tail' => cases h
        | error c =>
          cases h
          obtain ⟨tail', htail, hframe⟩ := ih hr
          exact ⟨s :: tail', by rw [htail]; rfl, .block (hp s hs) hframe⟩

theorem retypeFirst_blocks (hblocks : ∀ s ∈ ss, s.kind = .block) (rest : List Scope)
    {name : String} (t : Ty) (h : retypeFirst name t ss = some ss') :
    SameFrame (ss ++ rest) (ss' ++ rest) := by
  induction ss generalizing ss' with
  | nil => cases h
  | cons s tail ih =>
    unfold retypeFirst at h
    split at h
    · cases h
      exact .head (s.set_shape _)
    · obtain ⟨tail', htail, rfl⟩ := Option.map_eq_some_iff.mp h
      have htails : ∀ u ∈ tail, u.kind = .block := fun u hu => hblocks u (List.mem_cons_of_mem s hu)
      exact .block (hblocks s List.mem_cons_self) (ih htails htail)

end Declare

theorem eq_of_scopes {env env' : Env} (hscopes : env'.scopes = env.scopes)
    (haliases : env'.aliases = env.aliases) : env' = env := by
  obtain ⟨hinner, hbottom⟩ := List.append_inj' hscopes rfl
  obtain ⟨inner, bottom, aliases⟩ := env'
  cases hinner
  cases hbottom
  cases haliases
  rfl

/-- What the walk through a part of a program leaves of an environment. -/
structure Keeps (env env' : Env) : Prop where
  frame : SameFrame env.scopes env'.scopes
  aliases : env'.aliases = env.aliases

namespace Keeps

variable {env env' env'' : Env}

theorem refl (env : Env) : Keeps env env := ⟨.refl _, rfl⟩

theorem trans (h : Keeps env env') (h' : Keeps env' env'') : Keeps env env'' :=
  ⟨h.frame.trans h'.frame, h'.aliases.trans h.aliases⟩

theorem modifyScope {p : Scope → Bool} {b : Binding} (hp : ∀ s, p s = false → s.kind = .block)
    (h : env.modifyScope p (·.declare b) = .ok env') : Keeps env env' := by
  unfold Env.modifyScope at h
  split at h
  · rename_i hinner
    cases h
    exact ⟨modifyFirst_frame hp [env.bottom] hinner, rfl⟩
  · cases h
  · rename_i hinner
    have hblocks : ∀ s ∈ env.inner, s.kind = .block :=
      fun s hs => hp s (modifyFirst_none _ hinner s hs)
    dsimp only at h
    cases hd : env.bottom.declare b with
    | error old =>
      rw [hd] at h
      cases h
    | ok bottom =>
      rw [hd] at h
      cases h
      exact ⟨.blocks hblocks (.head (Scope.declare_shape hd)), rfl⟩

/-- Giving a name another type where a declaration of it failed. -/
theorem rebind? {p : Scope → Bool} {b old : Binding} {t : Ty}
    (hp : ∀ s, p s = false → s.kind = .block)
    (hfailed : env.modifyScope p (·.declare b) = .error old)
    (h : env.rebind? b.name t = some env') : Keeps env env' := by
  unfold Env.modifyScope at hfailed
  unfold Env.rebind? at h
  split at hfailed
  · cases hfailed
  · rename_i hinner
    cases hfailed
    obtain ⟨inner, hretype, hframe⟩ := retypeFirst_frame hp [env.bottom] t hinner
    rw [hretype] at h
    cases h
    exact ⟨hframe, rfl⟩
  · rename_i hinner
    have hblocks : ∀ s ∈ env.inner, s.kind = .block :=
      fun s hs => hp s (modifyFirst_none _ hinner s hs)
    split at h
    · rename_i hretype
      cases h
      exact ⟨retypeFirst_blocks hblocks [env.bottom] t hretype, rfl⟩
    · obtain ⟨c, -, rfl⟩ := Option.map_eq_some_iff.mp h
      exact ⟨.blocks hblocks (.head (Scope.set_shape _ _)), rfl⟩

theorem declare {b : Binding} (h : env.declare b = .ok env') : Keeps env env' :=
  modifyScope (fun _ h => by cases h) h

theorem declareVar {b : Binding} (h : env.declareVar b = .ok env') : Keeps env env' :=
  modifyScope (fun s h => by simpa using h) h

/-- A scope that was entered can be left. -/
theorem pop_of_push {scope : Scope} (h : Keeps (env.push scope) env') :
    (∃ s, env'.scopes = s :: env'.pop.scopes) ∧ env'.pop.aliases = env.aliases := by
  cases hinner : env'.inner with
  | nil =>
    have hlength := congrArg List.length h.frame.shapes
    simp [scopes, push, hinner] at hlength
  | cons s inner =>
    have hpop : env'.pop = { env' with inner := inner } := by rw [pop, pop?, hinner]
    exact ⟨⟨s, by rw [hpop, scopes, hinner]; rfl⟩, by rw [hpop]; exact h.aliases⟩

/-- Leaving a block that was entered. -/
theorem leave_block {scope : Scope} (hblock : scope.kind = .block)
    (h : Keeps (env.push scope) env') : Keeps env env'.pop := by
  obtain ⟨⟨s, hs⟩, haliases⟩ := h.pop_of_push
  have hframe : SameFrame (scope :: env.scopes) (s :: env'.pop.scopes) := hs ▸ h.frame
  exact ⟨hframe.leave hblock, haliases⟩

/-- Leaving a body that was entered leads back to the same environment. -/
theorem leave_body {scope : Scope} (hbody : scope.kind ≠ .block)
    (h : Keeps (env.push scope) env') : env'.pop = env := by
  obtain ⟨⟨s, hs⟩, haliases⟩ := h.pop_of_push
  have hframe : SameFrame (scope :: env.scopes) (s :: env'.pop.scopes) := hs ▸ h.frame
  exact eq_of_scopes (hframe.eq_of_body hbody) haliases

end Keeps

end Env
end Countersign
