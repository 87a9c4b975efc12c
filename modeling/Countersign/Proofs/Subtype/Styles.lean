/-
# Comparing types in other quotes

A comparison tells two strings apart by their texts, quotes included. Where the strings of some
contents are given the other quotes in all types that are compared and in all that names stand for,
the rules ask for the same parts in their new quotes, and each pair of types is assumed to fit under
its new texts. So the comparison comes to the same decision.

A string that is compared with strings of certain contents only may be any string that is told from
these in the same way. It is widened before anything is looked up, and so never assumed to fit.

Key definitions: `Rule.map`, `Follows`, `Value.Matches`, `Ty.Told`.
Key theorems: `rule_restyled`, `decision_restyled`, `decision_matches`, `Ty.Told.isFit`.
-/
import Countersign.Proofs.Env.Styles

namespace Countersign

variable {s : String → Bool} {k : String → Prop}

/-- Whatever the content. -/
abbrev Whatever : String → Prop := fun _ => True

namespace Subtype

variable {env env' : Env}

/-! ### The rules -/

/-- The rule for types that were changed by `g`. -/
def Rule.map (g : Ty → Ty) : Rule → Rule
  | .fits => .fits
  | .differs => .differs
  | .all parts => .all (parts.map (·.map fun p => (g p.1, g p.2)))
  | .any choices => .any (choices.map fun p => (g p.1, g p.2))
  | .expand a e => .expand (g a) (g e)

theorem Rule.map_test (g : Ty → Ty) (ok : Bool) :
    (if ok then Rule.fits else .differs).map g = if ok then .fits else .differs := by
  cases ok <;> rfl

theorem receiverParts_map (g : Ty → Ty) (t u : Option Ty) :
    receiverParts (t.map g) (u.map g) = (receiverParts t u).map fun p => (g p.1, g p.2) := by
  cases t <;> cases u <;> rfl

theorem functionParts_restyle (s : String → Bool) (ps qs : List (Option String × Ty)) (r u : Ty)
    (t v : Option Ty) :
    functionParts ⟨ps.map fun p => (p.1, p.2.restyle s), r.restyle s, t.map (Ty.restyle s)⟩
        ⟨qs.map fun q => (q.1, q.2.restyle s), u.restyle s, v.map (Ty.restyle s)⟩ =
      (functionParts ⟨ps, r, t⟩ ⟨qs, u, v⟩).map fun p => (p.1.restyle s, p.2.restyle s) := by
  unfold functionParts
  rw [receiverParts_map, List.zip_map, List.map_append, List.map_append, Ty.restyle_isVoid]
  congr 1
  · rw [List.map_map, List.map_map]
    rfl
  · split <;> rfl

theorem fitsClass_restyle (s : String → Bool) (a e : Ty) :
    fitsClass (a.restyle s) e = fitsClass a e := by
  cases a <;> simp [fitsClass, sameContainer, Ty.restyle_isBuiltin]

/-- What types ask for by their outermost nodes is what they asked for, in its new quotes. -/
theorem structureRule_restyle (s : String → Bool) (a e : Ty) :
    structureRule (a.restyle s) (e.restyle s) = (structureRule a e).map (Ty.restyle s) := by
  have hnamed : ∀ c, structureRule (a.restyle s) (.named c) =
      (structureRule a (.named c)).map (Ty.restyle s) := by
    intro c
    rw [structureRule_named, structureRule_named, fitsClass_restyle, Rule.map_test]
  have hzip : ∀ ts us : List Ty, Rule.all (((ts.map (Ty.restyle s)).zip (us.map (Ty.restyle s))).map some) =
      (Rule.all ((ts.zip us).map some)).map (Ty.restyle s) := by
    intro ts us
    rw [Rule.map, List.zip_map, List.map_map, List.map_map]
    rfl
  cases a with
  | object fs =>
    cases e with
    | object gs =>
      rw [Ty.restyle_object, Ty.restyle_object, structureRule, structureRule, Rule.map, List.map_map,
        List.map_map]
      refine congrArg Rule.all (List.map_congr_left fun g _ => ?_)
      show ((fs.map fun x => (x.1, x.2.restyle s)).lookup g.1).map (·, g.2.restyle s) = _
      rw [Ty.lookup_map_snd, Option.map_map]
      show _ = ((fs.lookup g.1).map (·, g.2)).map _
      rw [Option.map_map]
      rfl
    | named c => exact hnamed c
    | _ => simp [structureRule, Rule.map]
  | function ps r t =>
    cases e with
    | function qs u v =>
      rw [Ty.restyle_function, Ty.restyle_function, structureRule, structureRule, List.length_map,
        List.length_map, functionParts_restyle]
      split
      · rw [Rule.map, List.map_map, List.map_map]
        rfl
      · rfl
    | named c => exact hnamed c
    | _ => simp [structureRule, Rule.map]
  | generic b as =>
    cases e with
    | generic c bs =>
      rw [Ty.restyle_generic, Ty.restyle_generic, structureRule, structureRule, List.length_map,
        List.length_map, Ty.restyle_literalName, Ty.restyle_literalName, hzip]
      split <;> rfl
    | named c => exact hnamed c
    | _ => simp [structureRule, Rule.map]
  | tuple ts =>
    cases e with
    | tuple us =>
      rw [Ty.restyle_tuple, Ty.restyle_tuple, structureRule, structureRule, List.length_map,
        List.length_map, hzip]
      split <;> rfl
    | generic b args =>
      rw [Ty.restyle_tuple, Ty.restyle_generic, structureRule, structureRule, Ty.restyle_isBuiltin]
      unfold itemsRule
      rcases b.isBuiltin "Array" with _ | _ <;> rcases args with _ | ⟨item, _ | _⟩ <;>
        simp [Rule.map]
    | named c => exact hnamed c
    | _ => simp [structureRule, Rule.map]
  | named c =>
    cases e with
    | generic b _ =>
      rw [Ty.restyle_named, Ty.restyle_generic, structureRule, structureRule, sameContainer,
        sameContainer, Ty.restyle_isBuiltin, Ty.restyle_isBuiltin, Rule.map_test]
    | named d => exact hnamed d
    | _ => simp [structureRule, Rule.map]
  | _ =>
    cases e with
    | named c => exact hnamed c
    | _ => simp [structureRule, Rule.map]

theorem resolvedRule_restyled (h : env.Restyled s k env') {a e : Ty} (ha : a.Sober k)
    (he : e.Sober k) : resolvedRule env' (a.restyle s) (e.restyle s) =
      (resolvedRule env a e).map (Ty.restyle s) := by
  unfold resolvedRule
  rw [← h.settled ha.restyled, ← h.settled he.restyled, (h.resolve ha.restyled).eq,
    (h.resolve he.restyled).eq, structureRule_restyle]
  split <;> rfl

theorem Rule.map_all (g : Ty → Ty) (f f' : Ty → Ty × Ty) (ms : List Ty)
    (h : ∀ m, f' (g m) = (g (f m).1, g (f m).2)) :
    Rule.all ((ms.map g).map fun m => some (f' m)) = (Rule.all (ms.map fun m => some (f m))).map g := by
  rw [Rule.map, List.map_map, List.map_map]
  exact congrArg Rule.all (List.map_congr_left fun m _ => congrArg some (h m))

theorem Rule.map_any (g : Ty → Ty) (f f' : Ty → Ty × Ty) (ms : List Ty)
    (h : ∀ m, f' (g m) = (g (f m).1, g (f m).2)) :
    Rule.any ((ms.map g).map f') = (Rule.any (ms.map f)).map g := by
  rw [Rule.map, List.map_map, List.map_map]
  exact congrArg Rule.any (List.map_congr_left fun m _ => h m)

/-- **In other quotes types ask for the same parts, in their other quotes.** -/
theorem rule_restyled (h : env.Restyled s k env') {a e : Ty} (ha : a.Sober k) (he : e.Sober k) :
    rule env' (a.restyle s) (e.restyle s) = (rule env a e).map (Ty.restyle s) := by
  cases hany : a.isAny || e.isAny with
  | true =>
    rw [rule_of_any hany, rule_of_any (by rwa [Ty.restyle_isAny, Ty.restyle_isAny])]
    rfl
  | false =>
    -- what the rules can come to, for whatever nodes
    have hresolved := resolvedRule_restyled h ha he
    have hactual : ∀ t : Ty, Rule.just (t.restyle s) (e.restyle s) =
        (Rule.just t e).map (Ty.restyle s) := fun _ => rfl
    have hexpected : ∀ t : Ty, Rule.just (a.restyle s) (t.restyle s) =
        (Rule.just a t).map (Ty.restyle s) := fun _ => rfl
    have hmembers := fun ms => Rule.map_all (Ty.restyle s) (·, e) (·, e.restyle s) ms fun _ => rfl
    have hchoices := fun ms => Rule.map_any (Ty.restyle s) (a, ·) (a.restyle s, ·) ms fun _ => rfl
    have hbounds := fun ms => Rule.map_all (Ty.restyle s) (a, ·) (a.restyle s, ·) ms fun _ => rfl
    have hparts := fun ms => Rule.map_any (Ty.restyle s) (·, e) (·, e.restyle s) ms fun _ => rfl
    have hvalue : ∀ v : Value,
        (if (v.restyle s).kind == .undefined && (e.restyle s).isVoid then Rule.fits
          else .just (.named (v.restyle s).widen) (e.restyle s)) =
        (if v.kind == .undefined && e.isVoid then Rule.fits
          else .just (.named v.widen) e).map (Ty.restyle s) := by
      intro v
      rw [Value.restyle_kind, Value.restyle_widen, Ty.restyle_isVoid]
      split <;> rfl
    unfold rule
    rw [Ty.restyle_isAny, Ty.restyle_isAny, hany, if_neg (by decide), if_neg (by decide)]
    cases a <;> cases e <;>
      simp only [Ty.restyle_named, Ty.restyle_value, Ty.restyle_renamed, Ty.restyle_function,
        Ty.restyle_object, Ty.restyle_union, Ty.restyle_intersection, Ty.restyle_generic,
        Ty.restyle_tuple, Ty.restyle_moduleExports]
        at hresolved hactual hexpected hmembers hchoices hbounds hparts hvalue ⊢ <;>
      first
      | exact hresolved
      | rfl
      | exact hactual _
      | exact hactual (.named _)
      | exact hexpected _
      | exact hexpected (.named _)
      | exact hmembers _
      | exact hchoices _
      | exact hbounds _
      | exact hparts _
      | exact hvalue _
      | skip
    case named.named c d => split <;> first | rfl | exact hresolved
    case value.value v w =>
      have hsame : (v.restyle s == w.restyle s) = (v == w) := by
        rw [Bool.eq_iff_iff, beq_iff_eq, beq_iff_eq]
        exact Value.restyle_inj ha.node he.node
      rw [hsame, Rule.map_test]

/-! ### Decisions -/

/-- Pairs of types are assumed to fit if and only if they are so in their other quotes. -/
def Follows (s : String → Bool) (given given' : Assumed) : Prop :=
  ∀ b f : Ty, b.Sober Whatever → f.Sober Whatever →
    (key b f ∈ given ↔ key (b.restyle s) (f.restyle s) ∈ given')

theorem follows_nil : Follows s [] [] := fun _ _ _ _ => iff_of_false List.not_mem_nil List.not_mem_nil

theorem Follows.cons {given given' : Assumed} (h : Follows s given given') {b f : Ty}
    (hb : b.Sober Whatever) (hf : f.Sober Whatever) :
    Follows s (key b f :: given) (key (b.restyle s) (f.restyle s) :: given') := by
  intro c g hc hg
  rw [List.mem_cons, List.mem_cons, h c g hc hg]
  refine or_congr_left ?_
  rw [key, key, key, key, Prod.mk.injEq, Prod.mk.injEq, Ty.source_restyle_inj hc hb,
    Ty.source_restyle_inj hg hf]

/-- A rule for changed types is decided like the rule, if what it asks for is. -/
theorem decide_map {g : Ty → Ty} {ask ask' : Ty → Ty → Assumed → Option Bool}
    {given given' : Assumed} {r : Rule}
    (hask : ∀ b f, r.Asks given b f given → ask' (g b) (g f) given' = ask b f given)
    (hexpand : ∀ b f, r = .expand b f → (key b f ∈ given ↔ key (g b) (g f) ∈ given') ∧
      ask' (g b) (g f) (key (g b) (g f) :: given') = ask b f (key b f :: given)) :
    (r.map g).decide ask' given' = r.decide ask given := by
  cases r with
  | fits => rfl
  | differs => rfl
  | all parts =>
    rw [Rule.map, Rule.decide, Rule.decide, List.map_map]
    refine congrArg allOf (List.map_congr_left fun part hpart => ?_)
    cases part with
    | none => rfl
    | some p => exact hask p.1 p.2 ⟨hpart, rfl⟩
  | any choices =>
    rw [Rule.map, Rule.decide, Rule.decide, List.map_map]
    exact congrArg anyOf (List.map_congr_left fun p hp => hask p.1 p.2 ⟨hp, rfl⟩)
  | expand a e =>
    obtain ⟨hkey, hasked⟩ := hexpand a e rfl
    rw [Rule.map, decide_expand, decide_expand, hasked]
    by_cases hmem : key a e ∈ given
    · rw [if_pos hmem, if_pos (hkey.mp hmem)]
    · rw [if_neg hmem, if_neg (hkey.not.mp hmem)]

theorem part_sober {a e b f : Ty} (ha : a.Sober k) (he : e.Sober k) (h : Part a e b f) :
    b.Sober k ∧ f.Sober k := by
  cases h with
  | actual hb => exact ⟨ha.child hb, he⟩
  | expected hf => exact ⟨ha, he.child hf⟩
  | both hb hf => exact ⟨ha.child hb, he.child hf⟩
  | swapped hb hf => exact ⟨he.child hb, ha.child hf⟩
  | widened _ => exact ⟨Ty.sober_widen _, he⟩
  | actualOriginal hrenamed =>
    subst hrenamed
    exact ⟨Ty.sober_named ha.node.2, he⟩
  | expectedOriginal hrenamed =>
    subst hrenamed
    exact ⟨ha, Ty.sober_named he.node.2⟩

/-- **In other quotes comparisons come to the same decisions.** -/
theorem decision_restyled (h : env.Restyled s Whatever env') (depth : Nat) {a e : Ty}
    {given given' : Assumed} (ha : a.Sober Whatever) (he : e.Sober Whatever)
    (hgiven : Follows s given given') :
    decision env' depth (a.restyle s) (e.restyle s) given' = decision env depth a e given := by
  induction depth generalizing a e given given' with
  | zero => rfl
  | succ depth ih =>
    rw [decision_succ, decision_succ, rule_restyled h ha he]
    refine decide_map (fun b f hasks => ?_) fun b f hrule => ?_
    · rcases asks_cases hasks with ⟨hpart, -⟩ | ⟨-, -, -, -, hgrown⟩
      · obtain ⟨hb, hf⟩ := part_sober ha he hpart
        exact ih hb hf hgiven
      · exact absurd hgrown.symm (List.cons_ne_self _ _)
    · obtain ⟨rfl, rfl⟩ := expand_eq hrule
      have hb := (h.resolve ha.restyled).sober
      have hf := (h.resolve he.restyled).sober
      exact ⟨hgiven _ _ hb hf, ih hb hf (hgiven.cons hb hf)⟩

end Subtype

/-! ### Strings that are told apart in the same way -/

/-- The values are of one kind, and the first is told from values whose contents satisfy `k` just as
the second is from these in their other quotes. -/
structure Value.Matches (s : String → Bool) (k : String → Prop) (v v' : Value) : Prop where
  kind : v.kind = v'.kind
  same : ∀ w : Value, w.Sober k → (v = w ↔ v' = w.restyle s)

theorem Value.Matches.widen {v v' : Value} (h : v.Matches s k v') : v.widen = v'.widen := by
  rw [Value.widen, Value.widen, h.kind]

namespace Subtype

variable {env env' : Env}

/-- What a value asks for that is no `Any`, where what is expected is one node. -/
theorem rule_value_leaf {v : Value} {e : Ty} (hany : e.isAny = false)
    (hleaf : match e with
      | .value _ | .union _ | .intersection _ | .moduleExports _ => False
      | _ => True) :
    rule env (.value v) e =
      if v.kind == .undefined && e.isVoid then .fits else .just (.named v.widen) e := by
  have hboth : ((Ty.value v).isAny || e.isAny) = false := hany
  unfold rule
  rw [hboth, if_neg (by decide)]
  cases e <;> first | rfl | exact absurd hleaf id

/-- **A value that is told apart in the same way is compared to the same decision.** -/
theorem decision_matches (h : env.Restyled s k env') {v v' : Value} (hv : v.Matches s k v')
    (depth : Nat) {e : Ty} {given given' : Assumed} (he : e.Sober k)
    (hgiven : Follows s given given') :
    decision env' depth (.value v') (e.restyle s) given' = decision env depth (.value v) e given := by
  have hwhatever := h.mono fun _ _ => trivial
  induction depth generalizing e with
  | zero => rfl
  | succ depth ih =>
    have hchild : ∀ f ∈ e.children, decision env' depth (.value v') (f.restyle s) given' =
        decision env depth (.value v) f given := fun f hf => ih (he.child hf)
    have hwidened : (if v'.kind == .undefined && (e.restyle s).isVoid then Rule.fits
          else .just (.named v'.widen) (e.restyle s)).decide (decision env' depth) given' =
        (if v.kind == .undefined && e.isVoid then Rule.fits
          else .just (.named v.widen) e).decide (decision env depth) given := by
      rw [Ty.restyle_isVoid, ← hv.kind, ← hv.widen]
      split
      · rfl
      · rw [decide_just, decide_just]
        exact decision_restyled hwhatever depth (Ty.sober_widen v) (he.mono fun _ _ => trivial) hgiven
    rw [decision_succ, decision_succ]
    cases hany : e.isAny with
    | true =>
      rw [rule_of_any (by rw [Ty.restyle_isAny, hany, Bool.or_true]), rule_of_any (by rw [hany, Bool.or_true])]
      rfl
    | false =>
      have hany' : (e.restyle s).isAny = false := by rwa [Ty.restyle_isAny]
      cases e with
      | value w =>
        have hsame : (v' == w.restyle s) = (v == w) := by
          rw [Bool.eq_iff_iff, beq_iff_eq, beq_iff_eq]
          exact (hv.same w he.node).symm
        show (if v' == w.restyle s then Rule.fits else .differs).decide _ _ =
          (if v == w then Rule.fits else .differs).decide _ _
        rw [hsame]
        split <;> rfl
      | union ms =>
        rw [Ty.restyle_union]
        show (Rule.any _).decide _ _ = (Rule.any _).decide _ _
        rw [Rule.decide, Rule.decide, List.map_map, List.map_map, List.map_map]
        exact congrArg anyOf (List.map_congr_left hchild)
      | intersection ms =>
        rw [Ty.restyle_intersection]
        show (Rule.all _).decide _ _ = (Rule.all _).decide _ _
        rw [Rule.decide, Rule.decide, List.map_map, List.map_map, List.map_map]
        exact congrArg allOf (List.map_congr_left hchild)
      | moduleExports f =>
        rw [Ty.restyle_moduleExports]
        show (Rule.just _ _).decide _ _ = (Rule.just _ _).decide _ _
        rw [decide_just, decide_just]
        exact hchild f (List.mem_singleton_self f)
      | _ =>
        simp only [Ty.restyle_named, Ty.restyle_renamed, Ty.restyle_function, Ty.restyle_object,
          Ty.restyle_generic, Ty.restyle_tuple] at hany' hwidened ⊢
        rw [rule_value_leaf hany' trivial, rule_value_leaf hany trivial]
        exact hwidened

end Subtype

/-! ### The types of expressions -/

namespace Ty

/-- The types of an expression before and after: related types, or literal values that are told
apart in the same way from values whose contents satisfy `shared`. -/
inductive Told (s : String → Bool) (shared k : String → Prop) : Ty → Ty → Prop
  | type {t u : Ty} : t.Restyled s k u → Told s shared k t u
  | literal {v v' : Value} : v.Matches s shared v' → Told s shared k (.value v) (.value v')

namespace Told

variable {shared : String → Prop} {t u : Ty}

theorem mono {k' : String → Prop} (h : Told s shared k t u) (hk : ∀ c, k c → k' c) :
    Told s shared k' t u := by
  cases h with
  | type h => exact .type (h.mono hk)
  | literal h => exact .literal h

theorem isAny (h : Told s shared k t u) : t.isAny = u.isAny := by
  cases h with
  | type h => exact h.isAny
  | literal _ => rfl

theorem admitsUndefined (h : Told s shared k t u) : t.admitsUndefined = u.admitsUndefined := by
  cases h with
  | type h => exact h.admitsUndefined
  | literal h =>
    rw [Ty.admitsUndefined, Ty.admitsUndefined, h.kind]

/-- What is wide has no loose values. -/
theorem widen (h : Told s shared k t u) : t.widen.Restyled s k u.widen := by
  cases h with
  | type h => exact h.widen
  | @literal v v' h =>
    rw [Ty.widen, Ty.widen, ← h.widen]
    exact ⟨sober_widen v, rfl⟩

theorem asFunction? (h : Told s shared k t u) :
    Option.Rel (FunctionTy.Restyled s k) t.asFunction? u.asFunction? := by
  cases h with
  | type h => exact h.asFunction?
  | literal _ => exact .none

theorem asObject? (h : Told s shared k t u) :
    Option.Rel (List.Forall₂ (RestyledUnder s k)) t.asObject? u.asObject? := by
  cases h with
  | type h => exact h.asObject?
  | literal _ => exact .none

theorem size (h : Told s shared k t u) : t.size = u.size := by
  cases h with
  | type h => exact h.size
  | literal _ => rfl

/-- What an expression stands for; a literal value stands for itself. -/
theorem resolve {env env' : Env} (henv : env.Restyled s k env') (h : Told s shared k t u) :
    Told s shared k (env.resolve t) (env'.resolve u) := by
  cases h with
  | type h => exact .type (henv.resolve h)
  | literal h => exact .literal h

open Countersign.Subtype (decision_restyled decision_matches follows_nil) in
/-- **Whether an expression fits where a type is expected** is as it was before. -/
theorem isFit {env env' : Env} {e f : Ty} (henv : env.Restyled s shared env')
    (h : Told s shared k t u) (he : e.Restyled s shared f) :
    (env.isSubtype t e).isFit = (env'.isSubtype u f).isFit := by
  have hdepth : env.comparisonDepth t e = env'.comparisonDepth u f := by
    unfold Env.comparisonDepth
    rw [henv.aliasSize, h.size, he.size]
  have hdecision : (env.isSubtype t e).decision = (env'.isSubtype u f).decision := by
    show Subtype.decision env (env.comparisonDepth t e) t e [] = _
    rw [hdepth]
    obtain ⟨he, rfl⟩ := he
    cases h with
    | type ht =>
      obtain ⟨ht, rfl⟩ := ht
      exact (decision_restyled (henv.mono fun _ _ => trivial) _ (ht.mono fun _ _ => trivial)
        (he.mono fun _ _ => trivial) follows_nil).symm
    | literal hv => exact (decision_matches henv hv _ he follows_nil).symm
  generalize env.isSubtype t e = x at hdecision ⊢
  generalize env'.isSubtype u f = y at hdecision ⊢
  cases x <;> cases y <;> simp_all [Verdict.decision, Verdict.isFit]

end Told
end Ty
end Countersign
