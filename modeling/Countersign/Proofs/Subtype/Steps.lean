/-
# What a comparison leads to

A rule asks for parts of its types, for the class of a value, for the original of a renamed class,
or for what names stand for, and for nothing else. What is kept by these steps is therefore kept by
whole comparisons: types stay legible, except that `null` and `undefined` widen to classes whose
names are not names of the signature language.

Key definitions: `Part`, `LegibleEnv`, `WordClass`, `Comparable`.
Key theorems: `asks_cases`, `resolve_legible`, `Comparable.asks`.
-/
import Countersign.Proofs.Subtype.Rules
import Countersign.Proofs.Signature.Unique
import Countersign.Proofs.Ty.Substitute

namespace Countersign
namespace Subtype

open Signature

/-- A comparison of `b` with `f` is part of one of `a` with `e`. -/
inductive Part (a e : Ty) : Ty → Ty → Prop
  | actual {b : Ty} : b ∈ a.children → Part a e b e
  | expected {f : Ty} : f ∈ e.children → Part a e a f
  | both {b f : Ty} : b ∈ a.children → f ∈ e.children → Part a e b f
  /-- Functions take their parameters the other way round. -/
  | swapped {b f : Ty} : b ∈ e.children → f ∈ a.children → Part a e b f
  | widened {v : Value} : a = .value v → Part a e (.named v.widen) e
  | actualOriginal {n s : ClassName} : a = .renamed n s → Part a e (.named s) e
  | expectedOriginal {n s : ClassName} : e = .renamed n s → Part a e a (.named s)

theorem mem_of_lookup {α : Type} {xs : List (String × α)} {name : String} {x : α}
    (h : xs.lookup name = some x) : (name, x) ∈ xs := by
  obtain ⟨before, after, rfl, -⟩ := List.lookup_eq_some_iff.mp h
  exact List.mem_append_right _ List.mem_cons_self

theorem mem_functionParts {f g : FunctionTy} {p : Ty × Ty} (h : p ∈ functionParts f g) :
    Part (.function f.params f.result f.receiver) (.function g.params g.result g.receiver)
      p.1 p.2 := by
  have hchild : ∀ (ps : List (Option String × Ty)) (r : Ty) (receiver : Option Ty) (t : Ty),
      t ∈ (Ty.function ps r receiver).children ↔ t ∈ ps.map (·.2) ∨ t = r ∨ t ∈ receiver := by
    intro ps r receiver t
    rw [Ty.children, List.mem_append, List.mem_cons, Option.mem_toList, Option.mem_def]
  rw [functionParts, List.mem_append, List.mem_append] at h
  rcases h with (h | h) | h
  · obtain ⟨ps, r, _ | t⟩ := f
    · simp [receiverParts] at h
    · obtain ⟨qs, s, _ | u⟩ := g
      · simp [receiverParts] at h
      · obtain rfl : p = (u, t) := by simpa [receiverParts] using h
        exact .swapped ((hchild _ _ _ _).mpr (.inr (.inr rfl)))
          ((hchild _ _ _ _).mpr (.inr (.inr rfl)))
  · obtain ⟨⟨x, y⟩, hmem, rfl⟩ := List.mem_map.mp h
    obtain ⟨hx, hy⟩ := List.of_mem_zip hmem
    exact .swapped ((hchild _ _ _ _).mpr (.inl (List.mem_map_of_mem hy)))
      ((hchild _ _ _ _).mpr (.inl (List.mem_map_of_mem hx)))
  · split at h
    · simp at h
    · obtain rfl : p = (f.result, g.result) := by simpa using h
      exact .both ((hchild _ _ _ _).mpr (.inr (.inl rfl))) ((hchild _ _ _ _).mpr (.inr (.inl rfl)))

/-- By their outermost nodes types ask for parts only. -/
theorem structureRule_asks {a e b f : Ty} {given after : Assumed}
    (h : (structureRule a e).Asks given b f after) : Part a e b f ∧ after = given := by
  unfold structureRule at h
  split at h
  case h_1 fs gs =>
    obtain ⟨hmem, rfl⟩ := h
    obtain ⟨g, hg, hlookup⟩ := List.mem_map.mp hmem
    obtain ⟨t, ht, hpair⟩ := Option.map_eq_some_iff.mp hlookup
    cases hpair
    exact ⟨.both (List.mem_map_of_mem (f := (·.2)) (mem_of_lookup ht)) (List.mem_map_of_mem hg), rfl⟩
  case h_2 ps r t qs s u =>
    split at h
    · obtain ⟨hmem, rfl⟩ := h
      obtain ⟨p, hp, hpair⟩ := List.mem_map.mp hmem
      cases hpair
      exact ⟨mem_functionParts hp, rfl⟩
    · exact absurd h id
  case h_3 c as d bs =>
    split at h
    · obtain ⟨hmem, rfl⟩ := h
      obtain ⟨p, hp, hpair⟩ := List.mem_map.mp hmem
      cases hpair
      obtain ⟨hx, hy⟩ := List.of_mem_zip hp
      exact ⟨.both (List.mem_cons_of_mem _ hx) (List.mem_cons_of_mem _ hy), rfl⟩
    · exact absurd h id
  case h_4 ts us =>
    split at h
    · obtain ⟨hmem, rfl⟩ := h
      obtain ⟨p, hp, hpair⟩ := List.mem_map.mp hmem
      cases hpair
      obtain ⟨hx, hy⟩ := List.of_mem_zip hp
      exact ⟨.both hx hy, rfl⟩
    · exact absurd h id
  case h_5 ts c args =>
    unfold itemsRule at h
    split at h
    · obtain ⟨hmem, rfl⟩ := h
      obtain ⟨t, ht, hpair⟩ := List.mem_map.mp hmem
      cases hpair
      exact ⟨.both ht (List.mem_cons_of_mem _ (List.mem_singleton_self _)), rfl⟩
    · exact absurd h id
  case h_6 c d args =>
    split at h
    · exact absurd h id
    · exact absurd h id
  case h_7 c _ _ =>
    split at h
    · exact absurd h id
    · exact absurd h id
  case h_8 => exact absurd h id

theorem just_asks {a e b f : Ty} {given after : Assumed} (h : (Rule.just a e).Asks given b f after) :
    b = a ∧ f = e ∧ after = given := by
  obtain ⟨hmem, rfl⟩ := h
  obtain ⟨rfl, rfl⟩ : b = a ∧ f = e := by simpa using hmem
  exact ⟨rfl, rfl, rfl⟩

/-- What the types stand for is compared next, under the assumption that it fits. -/
def Expands (env : Env) (a e b f : Ty) (given after : Assumed) : Prop :=
  rule env a e = .expand b f ∧ b = env.resolve a ∧ f = env.resolve e ∧ key b f ∉ given ∧
    after = key b f :: given

theorem resolvedRule_asks {env : Env} {a e b f : Ty} {given after : Assumed}
    (hrule : rule env a e = resolvedRule env a e)
    (h : (resolvedRule env a e).Asks given b f after) :
    (Part a e b f ∧ after = given) ∨ Expands env a e b f given after := by
  unfold resolvedRule at h hrule
  split at h
  · exact .inl (structureRule_asks h)
  · rename_i hsettled
    rw [if_neg hsettled] at hrule
    obtain ⟨rfl, rfl, hkey, rfl⟩ := h
    exact .inr ⟨hrule, rfl, rfl, hkey, rfl⟩

/-- **Whatever a comparison leads to is one of its parts or what its names stand for.** -/
theorem asks_cases {env : Env} {a e b f : Ty} {given after : Assumed}
    (h : (rule env a e).Asks given b f after) :
    (Part a e b f ∧ after = given) ∨ Expands env a e b f given after := by
  have hrule : rule env a e = rule env a e := rfl
  conv at hrule => rhs; unfold rule
  split at hrule
  · rw [hrule] at h
    exact absurd h id
  · split at hrule
    case h_1 t e =>
      rw [hrule] at h
      obtain ⟨rfl, rfl, rfl⟩ := just_asks h
      exact .inl ⟨.actual (List.mem_singleton_self _), rfl⟩
    case h_2 a t _ =>
      rw [hrule] at h
      obtain ⟨rfl, rfl, rfl⟩ := just_asks h
      exact .inl ⟨.expected (List.mem_singleton_self _), rfl⟩
    case h_3 v w =>
      rw [hrule] at h
      split at h
      · exact absurd h id
      · exact absurd h id
    case h_4 ms e _ =>
      rw [hrule] at h
      obtain ⟨hmem, rfl⟩ := h
      obtain ⟨m, hm, hpair⟩ := List.mem_map.mp hmem
      cases hpair
      exact .inl ⟨.actual hm, rfl⟩
    case h_5 a ms _ _ =>
      rw [hrule] at h
      obtain ⟨hmem, rfl⟩ := h
      obtain ⟨m, hm, hpair⟩ := List.mem_map.mp hmem
      cases hpair
      exact .inl ⟨.expected hm, rfl⟩
    case h_6 a ms _ _ =>
      rw [hrule] at h
      obtain ⟨hmem, rfl⟩ := h
      obtain ⟨m, hm, hpair⟩ := List.mem_map.mp hmem
      cases hpair
      exact .inl ⟨.expected hm, rfl⟩
    case h_7 ms e _ _ _ =>
      rw [hrule] at h
      obtain ⟨hmem, rfl⟩ := h
      obtain ⟨m, hm, hpair⟩ := List.mem_map.mp hmem
      cases hpair
      exact .inl ⟨.actual hm, rfl⟩
    case h_8 v e _ _ _ _ =>
      rw [hrule] at h
      split at h
      · exact absurd h id
      · obtain ⟨rfl, rfl, rfl⟩ := just_asks h
        exact .inl ⟨.widened rfl, rfl⟩
    case h_9 n s e _ _ _ =>
      rw [hrule] at h
      obtain ⟨rfl, rfl, rfl⟩ := just_asks h
      exact .inl ⟨.actualOriginal rfl, rfl⟩
    case h_10 a n s _ _ _ _ _ =>
      rw [hrule] at h
      obtain ⟨rfl, rfl, rfl⟩ := just_asks h
      exact .inl ⟨.expectedOriginal rfl, rfl⟩
    case h_11 c d =>
      split at hrule
      · rw [hrule] at h
        exact absurd h id
      · exact resolvedRule_asks hrule (hrule ▸ h)
    case h_12 => exact resolvedRule_asks hrule (hrule ▸ h)

/-! ### Types stay legible -/

/-- All named types are legible. -/
def LegibleEnv (env : Env) : Prop := ∀ a ∈ env.aliases, Legible a.2.type

theorem legible_substitute {params : List String} {args : List Ty} (hargs : ∀ u ∈ args, Legible u)
    {t : Ty} (h : Legible t) : Legible (t.substitute params args) := by
  induction t using Ty.children_induction with
  | step t ih =>
    by_cases hname : ∃ c, t = .named c
    · obtain ⟨c, rfl⟩ := hname
      rw [Ty.substitute]
      split
      · exact h
      · cases harg : Ty.argument? params args c.name with
        | none => exact h
        | some u => exact hargs u (List.of_mem_zip (mem_of_lookup harg)).2
    · have hnot : ∀ c, t ≠ .named c := fun c hc => hname ⟨c, hc⟩
      obtain ⟨hnode, hnamed, hchildren⟩ := legible_iff.mp h
      refine legible_iff.mpr ⟨?_, ?_, fun u hu => ?_⟩
      · cases t with
        | function ps r receiver =>
          rw [Ty.substitute_function]
          intro p hp
          obtain ⟨q, hq, rfl⟩ := List.mem_map.mp hp
          exact hnode q hq
        | object fs =>
          rw [Ty.substitute_object]
          simpa [NodeWritten, Function.comp_def] using hnode
        | union ms => simpa [Ty.substitute, NodeWritten, Ty.substituteAll_eq] using hnode
        | intersection ms => simpa [Ty.substitute, NodeWritten, Ty.substituteAll_eq] using hnode
        | generic b as => simpa [Ty.substitute, NodeWritten, Ty.substituteAll_eq] using hnode
        | named c => exact absurd rfl (hnot c)
        | _ => exact hnode
      · cases t with
        | object fs =>
          rw [Ty.substitute_object]
          simpa [nodeNamed] using hnamed
        | named c => exact absurd rfl (hnot c)
        | _ => rfl
      · rw [Ty.children_substitute params args hnot] at hu
        obtain ⟨c, hc, rfl⟩ := List.mem_map.mp hu
        exact ih c hc (hchildren c hc)

theorem plainAlias?_legible {env : Env} (henv : LegibleEnv env) {name : String} {t : Ty}
    (h : env.plainAlias? name = some t) : Legible t := by
  obtain ⟨a, ha, hplain⟩ := Option.bind_eq_some_iff.mp h
  split at hplain
  · cases hplain
    exact henv _ (mem_of_lookup ha)
  · cases hplain

/-- A step of resolution leads to a legible type from every legible one, and from every name. -/
theorem step?_legible {env : Env} (henv : LegibleEnv env) {t u : Ty}
    (ht : Legible t ∨ ∃ c, t = .named c) (h : env.step? t = some u) : Legible u := by
  cases t with
  | named c =>
    rw [Env.step?] at h
    split at h
    · cases h
    · exact plainAlias?_legible henv h
  | renamed n s => exact plainAlias?_legible henv h
  | generic b as =>
    rcases ht with ht | ⟨c, hc⟩
    · obtain ⟨a, ha, rfl⟩ := Option.map_eq_some_iff.mp h
      obtain ⟨a', ha', hlength⟩ := Option.bind_eq_some_iff.mp ha
      obtain ⟨name, hname, hlookup⟩ := Option.bind_eq_some_iff.mp ha'
      split at hlength
      · cases hlength
        exact legible_substitute (fun u hu => ht.child (List.mem_cons_of_mem _ hu))
          (henv _ (mem_of_lookup hlookup))
      · cases hlength
    · cases hc
  | moduleExports t =>
    rcases ht with ht | ⟨c, hc⟩
    · exact absurd ht.node id
    · cases hc
  | _ => cases h

theorem resolveWithin_legible {env : Env} (henv : LegibleEnv env) : ∀ (limit : Nat) {t : Ty},
    Legible t → Legible (env.resolveWithin limit t)
  | 0, _, ht => ht
  | limit + 1, t, ht => by
    rw [Env.resolveWithin]
    split
    · exact ht
    · rename_i u hu
      exact resolveWithin_legible henv limit (step?_legible henv (.inl ht) hu)

/-- Where no step applies a type stands for itself. -/
theorem resolve_of_step?_none {env : Env} {t : Ty} (h : env.step? t = none) :
    env.resolve t = t := by
  rw [Env.resolve, Env.resolutionLimit, Env.resolveWithin, h]

/-- The classes that `null` and `undefined` widen to; no text is read as one of them. -/
def WordClass (t : Ty) : Prop :=
  ∃ k : ValueKind, (k = .null ∨ k = .undefined) ∧ t = .named ⟨k.word, false⟩

/-- What a name stands for is legible, unless it is the class of a word and stands for itself. -/
theorem resolve_legible {env : Env} (henv : LegibleEnv env) {t : Ty} (h : Legible t ∨ WordClass t) :
    Legible (env.resolve t) ∨ WordClass t ∧ env.step? t = none ∧ env.resolve t = t := by
  rcases h with h | h
  · exact .inl (resolveWithin_legible henv _ h)
  · cases hstep : env.step? t with
    | none => exact .inr ⟨h, rfl, resolve_of_step?_none hstep⟩
    | some u =>
      refine .inl ?_
      obtain ⟨k, -, rfl⟩ := h
      rw [Env.resolve, Env.resolutionLimit, Env.resolveWithin, hstep]
      exact resolveWithin_legible henv _ (step?_legible henv (.inr ⟨_, rfl⟩) hstep)

theorem legible_ofName {s : String} (h : IsName s) : Legible (.ofName s) :=
  legible_iff.mpr ⟨⟨rfl, h.scans⟩, rfl, by simp [Ty.ofName, Ty.children]⟩

theorem widen_legible (v : Value) :
    Legible (.named v.widen) ∨ WordClass (.named v.widen) := by
  obtain ⟨text, kind⟩ := v
  cases kind with
  | string => exact .inl (legible_ofName (show IsName "String" from rfl))
  | number => exact .inl (legible_ofName (show IsName "Number" from rfl))
  | trueWord => exact .inl (legible_ofName (show IsName "Boolean" from rfl))
  | falseWord => exact .inl (legible_ofName (show IsName "Boolean" from rfl))
  | null => exact .inr ⟨.null, .inl rfl, rfl⟩
  | undefined => exact .inr ⟨.undefined, .inr rfl, rfl⟩

theorem legible_original {n s : ClassName} (h : Legible (.renamed n s)) : Legible (.named s) :=
  legible_iff.mpr ⟨h.node.2.2, rfl, by simp [Ty.children]⟩

/-- The types that come to be compared: legible ones, and on the actual side the classes of
words. -/
structure Comparable (a e : Ty) : Prop where
  actual : Legible a ∨ WordClass a
  expected : Legible e

theorem WordClass.children {t : Ty} (h : WordClass t) : t.children = [] := by
  obtain ⟨k, -, rfl⟩ := h
  rfl

theorem Comparable.child {a e b : Ty} (h : Comparable a e) (hb : b ∈ a.children) : Legible b := by
  rcases h.actual with ha | ha
  · exact ha.child hb
  · rw [ha.children] at hb
    cases hb

theorem Comparable.part {a e b f : Ty} (h : Comparable a e) (hpart : Part a e b f) :
    Comparable b f := by
  cases hpart with
  | actual hb => exact ⟨.inl (h.child hb), h.expected⟩
  | expected hf => exact ⟨h.actual, h.expected.child hf⟩
  | both hb hf => exact ⟨.inl (h.child hb), h.expected.child hf⟩
  | swapped hb hf => exact ⟨.inl (h.expected.child hb), h.child hf⟩
  | @widened v _ => exact ⟨widen_legible v, h.expected⟩
  | actualOriginal ha =>
    subst ha
    rcases h.actual with ha | ⟨k, -, hk⟩
    · exact ⟨.inl (legible_original ha), h.expected⟩
    · cases hk
  | expectedOriginal he =>
    subst he
    exact ⟨h.actual, legible_original h.expected⟩

/-- **A comparison of comparable types leads to comparable types only.** -/
theorem Comparable.asks {env : Env} (henv : LegibleEnv env) {a e b f : Ty} {given after : Assumed}
    (h : Comparable a e) (hasks : (rule env a e).Asks given b f after) : Comparable b f := by
  rcases asks_cases hasks with ⟨hpart, -⟩ | ⟨-, rfl, rfl, -, -⟩
  · exact h.part hpart
  · refine ⟨?_, resolveWithin_legible henv _ h.expected⟩
    rcases resolve_legible henv h.actual with hb | ⟨hword, -, hself⟩
    · exact .inl hb
    · exact .inr (hself.symm ▸ hword)

end Subtype
end Countersign
