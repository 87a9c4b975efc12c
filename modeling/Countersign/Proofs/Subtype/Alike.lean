/-
# Types that differ in renamings

A class under another name is the class itself, so that two types are alike if they are equal once
renamings are undone. This leaves alone what another name does make a difference to: a renamed `void`,
and what stands in the base of a generic application. Alike types have the same outermost node, or
are one class under two names, and the rules for types with the same nodes ask for alike pairs.

Key definitions: `Ty.unrenamed`, `Alike`, `SameNode`, `Rule.Alike`, `Resolving`.
Key theorems: `Alike.cases`, `structureRule_alike`, `rule_alike`.
-/
import Countersign.Proofs.Subtype.Shapes

namespace Countersign

/-! ### Undoing renamings -/

namespace Ty

mutual

/-- The type with each renamed class replaced by the class, except for a renamed `void` and for what
stands in the base of a generic application. -/
def unrenamed : Ty → Ty
  | .named c => .named c
  | .value v => .value v
  | .renamed n s => if s.isBuiltin "void" then .renamed n s else .named s
  | .function ps r t => .function (unrenamedParams ps) (unrenamed r) (unrenamedReceiver t)
  | .object fs => .object (unrenamedFields fs)
  | .union ms => .union (unrenamedAll ms)
  | .intersection ms => .intersection (unrenamedAll ms)
  | .generic b as => .generic b (unrenamedAll as)
  | .tuple is => .tuple (unrenamedAll is)
  | .moduleExports t => .moduleExports (unrenamed t)
termination_by structural t => t

/-- The types of a list with their renamings undone. -/
def unrenamedAll : List Ty → List Ty
  | [] => []
  | t :: ts => unrenamed t :: unrenamedAll ts
termination_by structural t => t

/-- A receiver with its renamings undone. -/
def unrenamedReceiver : Option Ty → Option Ty
  | none => none
  | some t => some (unrenamed t)
termination_by structural t => t

/-- Parameters with the renamings in their types undone. -/
def unrenamedParams : List (Option String × Ty) → List (Option String × Ty)
  | [] => []
  | (n, t) :: ps => (n, unrenamed t) :: unrenamedParams ps
termination_by structural t => t

/-- Fields with the renamings in their types undone. -/
def unrenamedFields : List (String × Ty) → List (String × Ty)
  | [] => []
  | (n, t) :: fs => (n, unrenamed t) :: unrenamedFields fs
termination_by structural t => t

end

end Ty

namespace Subtype

open Signature

section Pairs

variable {α β γ δ : Type} {R : α → β → Prop} {S : γ → δ → Prop}

theorem forall₂_of_map_eq {f : α → γ} {xs ys : List α} (h : xs.map f = ys.map f) :
    List.Forall₂ (fun x y => f x = f y) xs ys := by
  have hmaps : List.Forall₂ (· = ·) (xs.map f) (ys.map f) := by
    rw [List.forall₂_eq_eq_eq]
    exact h
  exact List.forall₂_map_right_iff.mp (List.forall₂_map_left_iff.mp hmaps)

theorem forall₂_map {p : α → γ} {q : β → δ} {xs : List α} {ys : List β}
    (h : List.Forall₂ R xs ys) (hpq : ∀ x y, R x y → S (p x) (q y)) :
    List.Forall₂ S (xs.map p) (ys.map q) :=
  List.forall₂_map_left_iff.mpr (List.forall₂_map_right_iff.mpr (h.imp hpq))

theorem exists_of_mem_right {xs : List α} {ys : List β} (h : List.Forall₂ R xs ys) {y : β}
    (hy : y ∈ ys) : ∃ x ∈ xs, R x y := by
  induction h with
  | nil => cases hy
  | cons hxy _ ih =>
    rcases List.mem_cons.mp hy with rfl | hy
    · exact ⟨_, List.mem_cons_self, hxy⟩
    · obtain ⟨x, hx, hr⟩ := ih hy
      exact ⟨x, List.mem_cons_of_mem _ hx, hr⟩

theorem forall₂_zip_zip {as : List α} {bs : List β} {cs : List γ} {ds : List δ}
    (h : List.Forall₂ R as bs) (h' : List.Forall₂ S cs ds) :
    List.Forall₂ (fun p q => R p.1 q.1 ∧ S p.2 q.2) (as.zip cs) (bs.zip ds) := by
  induction h generalizing cs ds with
  | nil => exact .nil
  | cons hab _ ih =>
    cases h' with
    | nil => exact .nil
    | cons hcd hrest => exact .cons ⟨hab, hcd⟩ (ih hrest)

end Pairs

/-- The types are equal once renamings are undone. -/
def Alike (t u : Ty) : Prop := t.unrenamed = u.unrenamed

section Alike

variable {t u : Ty}

theorem Alike.refl (t : Ty) : Alike t t := rfl

theorem Alike.symm (h : Alike t u) : Alike u t := Eq.symm h

theorem unrenamedAll_eq : ∀ ts : List Ty, Ty.unrenamedAll ts = ts.map Ty.unrenamed
  | [] => rfl
  | t :: ts => by rw [Ty.unrenamedAll, unrenamedAll_eq ts, List.map_cons]

theorem unrenamedReceiver_eq : ∀ t : Option Ty, Ty.unrenamedReceiver t = t.map Ty.unrenamed
  | none => rfl
  | some _ => rfl

theorem unrenamedParams_eq : ∀ ps : List (Option String × Ty),
    Ty.unrenamedParams ps = ps.map fun p => (p.1, p.2.unrenamed)
  | [] => rfl
  | (n, t) :: ps => by rw [Ty.unrenamedParams, unrenamedParams_eq ps, List.map_cons]

theorem unrenamedFields_eq : ∀ fs : List (String × Ty),
    Ty.unrenamedFields fs = fs.map fun f => (f.1, f.2.unrenamed)
  | [] => rfl
  | (n, t) :: fs => by rw [Ty.unrenamedFields, unrenamedFields_eq fs, List.map_cons]

/-- Lists of types under equal names that are alike. -/
def AlikeUnder {α : Type} : List (α × Ty) → List (α × Ty) → Prop :=
  List.Forall₂ fun p q => p.1 = q.1 ∧ Alike p.2 q.2

theorem alike_all {ts us : List Ty} (h : Ty.unrenamedAll ts = Ty.unrenamedAll us) :
    List.Forall₂ Alike ts us := by
  rw [unrenamedAll_eq, unrenamedAll_eq] at h
  exact forall₂_of_map_eq h

theorem alike_receiver {t u : Option Ty} (h : Ty.unrenamedReceiver t = Ty.unrenamedReceiver u) :
    Option.Rel Alike t u := by
  cases t <;> cases u <;> simp_all [Ty.unrenamedReceiver, Alike]

theorem alikeUnder_of_map {α : Type} {ps qs : List (α × Ty)}
    (h : ps.map (fun p => (p.1, p.2.unrenamed)) = qs.map fun q => (q.1, q.2.unrenamed)) :
    AlikeUnder ps qs :=
  (forall₂_of_map_eq h).imp fun _ _ hpq => Prod.mk.inj hpq

/-- Types with the same outermost node, whose parts are alike. -/
inductive SameNode : Ty → Ty → Prop
  | named (c : ClassName) : SameNode (.named c) (.named c)
  | value (v : Value) : SameNode (.value v) (.value v)
  | renamed (n s : ClassName) : SameNode (.renamed n s) (.renamed n s)
  | function {ps qs : List (Option String × Ty)} {r s : Ty} {t u : Option Ty} :
      AlikeUnder ps qs → Alike r s → Option.Rel Alike t u →
      SameNode (.function ps r t) (.function qs s u)
  | object {fs gs : List (String × Ty)} : AlikeUnder fs gs → SameNode (.object fs) (.object gs)
  | union {ms ns : List Ty} : List.Forall₂ Alike ms ns → SameNode (.union ms) (.union ns)
  | intersection {ms ns : List Ty} : List.Forall₂ Alike ms ns →
      SameNode (.intersection ms) (.intersection ns)
  | generic (b : Ty) {as bs : List Ty} : List.Forall₂ Alike as bs →
      SameNode (.generic b as) (.generic b bs)
  | tuple {ts us : List Ty} : List.Forall₂ Alike ts us → SameNode (.tuple ts) (.tuple us)
  | moduleExports {t u : Ty} : Alike t u → SameNode (.moduleExports t) (.moduleExports u)

/-- The class `c`, under its own name or another one. -/
def Calls (c : ClassName) (t : Ty) : Prop := t = .named c ∨ ∃ n, t = .renamed n c

/-- What is a class once renamings are undone is that class, under its own name or another one. -/
theorem calls_of_unrenamed {c : ClassName} (h : t.unrenamed = .named c) :
    t = .named c ∨ c.isBuiltin "void" = false ∧ Calls c t := by
  cases t with
  | named d => exact .inl h
  | renamed n s =>
    rw [Ty.unrenamed] at h
    split at h
    · cases h
    · rename_i hvoid
      cases h
      exact .inr ⟨Bool.eq_false_iff.mpr hvoid, .inr ⟨n, rfl⟩⟩
  | _ => simp [Ty.unrenamed] at h

/-- A renamed class is still one once renamings are undone only if it is `void`. -/
theorem eq_of_unrenamed {n s : ClassName} (h : t.unrenamed = .renamed n s) : t = .renamed n s := by
  cases t with
  | renamed m c =>
    rw [Ty.unrenamed] at h
    split at h
    · exact h
    · cases h
  | _ => simp [Ty.unrenamed] at h

/-- Below the outermost node types that are no classes are alike part by part. -/
theorem Alike.sameNode (h : Alike t u) (hclass : ∀ c, t.unrenamed ≠ .named c)
    (hrenamed : ∀ n s, t.unrenamed ≠ .renamed n s) : SameNode t u := by
  have hliteral : ∀ {v : Ty}, v.unrenamed = t.unrenamed → v.literalName = none := by
    intro v hv
    cases v with
    | named c => exact absurd hv.symm (hclass c)
    | renamed n s =>
      rw [Ty.unrenamed] at hv
      split at hv
      · exact absurd hv.symm (hrenamed n s)
      · exact absurd hv.symm (hclass s)
    | _ => rfl
  have ht := hliteral rfl
  have hu := hliteral h.symm
  cases t <;> cases u <;>
    simp only [Alike, Ty.unrenamed, Ty.literalName, reduceCtorEq, Ty.value.injEq, Ty.function.injEq,
      Ty.object.injEq, Ty.union.injEq, Ty.intersection.injEq, Ty.generic.injEq, Ty.tuple.injEq,
      Ty.moduleExports.injEq] at h ht hu
  case value.value v w =>
    subst h
    exact .value v
  case function.function ps r t qs s u =>
    rw [unrenamedParams_eq, unrenamedParams_eq] at h
    exact .function (alikeUnder_of_map h.1) h.2.1 (alike_receiver h.2.2)
  case object.object fs gs =>
    rw [unrenamedFields_eq, unrenamedFields_eq] at h
    exact .object (alikeUnder_of_map h)
  case union.union ms ns => exact .union (alike_all h)
  case intersection.intersection ms ns => exact .intersection (alike_all h)
  case generic.generic b as c bs =>
    obtain ⟨rfl, has⟩ := h
    exact .generic b (alike_all has)
  case tuple.tuple ts us => exact .tuple (alike_all h)
  case moduleExports.moduleExports t u => exact .moduleExports h

/-- **Alike types have the same outermost node**, or are one class under two names. -/
theorem Alike.cases (h : Alike t u) :
    SameNode t u ∨ ∃ c, c.isBuiltin "void" = false ∧ Calls c t ∧ Calls c u := by
  by_cases hclass : ∃ c, t.unrenamed = .named c
  · obtain ⟨c, ht⟩ := hclass
    have hu : u.unrenamed = .named c := h.symm.trans ht
    rcases calls_of_unrenamed ht with rfl | ⟨hvoid, ht⟩
    · rcases calls_of_unrenamed hu with rfl | ⟨hvoid, hu⟩
      · exact .inl (.named c)
      · exact .inr ⟨c, hvoid, .inl rfl, hu⟩
    · refine .inr ⟨c, hvoid, ht, ?_⟩
      rcases calls_of_unrenamed hu with rfl | ⟨-, hu⟩
      · exact .inl rfl
      · exact hu
  · refine .inl ?_
    by_cases hrenamed : ∃ n s, t.unrenamed = .renamed n s
    · obtain ⟨n, s, ht⟩ := hrenamed
      obtain rfl := eq_of_unrenamed ht
      obtain rfl := eq_of_unrenamed (h.symm.trans ht)
      exact .renamed n s
    · exact h.sameNode (fun c hc => hclass ⟨c, hc⟩) fun n s hns => hrenamed ⟨n, s, hns⟩

theorem isVoid_unrenamed (t : Ty) : t.unrenamed.isVoid = t.isVoid := by
  cases t with
  | renamed n s =>
    rw [Ty.unrenamed]
    split
    · rfl
    · rename_i hvoid
      exact Bool.eq_false_iff.mpr hvoid
  | _ => rfl

theorem Alike.isVoid (h : Alike t u) : t.isVoid = u.isVoid := by
  rw [← isVoid_unrenamed t, h, isVoid_unrenamed]

theorem SameNode.isAny (h : SameNode t u) : t.isAny = u.isAny := by
  cases h <;> rfl

end Alike

/-! ### Rules for alike pairs -/

/-- The pairs of types are alike. -/
def AlikePair (p q : Ty × Ty) : Prop := Alike p.1 q.1 ∧ Alike p.2 q.2

/-- The rules ask for alike pairs. -/
inductive Rule.Alike : Rule → Rule → Prop
  | fits : Rule.Alike .fits .fits
  | differs : Rule.Alike .differs .differs
  | all {ps qs : List (Option (Ty × Ty))} : List.Forall₂ (Option.Rel AlikePair) ps qs →
      Rule.Alike (.all ps) (.all qs)
  | any {ps qs : List (Ty × Ty)} : List.Forall₂ AlikePair ps qs → Rule.Alike (.any ps) (.any qs)

section Rules

variable {x y b f : Ty}

theorem SameNode.refl (t : Ty) : SameNode t t := by
  have hall : ∀ ts : List Ty, List.Forall₂ Alike ts ts := fun ts =>
    List.forall₂_same.mpr fun t _ => .refl t
  cases t with
  | named c => exact .named c
  | value v => exact .value v
  | renamed n s => exact .renamed n s
  | function ps r receiver =>
    refine .function (List.forall₂_same.mpr fun p _ => ⟨rfl, .refl p.2⟩) (.refl r) ?_
    cases receiver with
    | none => exact .none
    | some t => exact .some (.refl t)
  | object fs => exact .object (List.forall₂_same.mpr fun f _ => ⟨rfl, .refl f.2⟩)
  | union ms => exact .union (hall ms)
  | intersection ms => exact .intersection (hall ms)
  | generic b as => exact .generic b (hall as)
  | tuple is => exact .tuple (hall is)
  | moduleExports t => exact .moduleExports (.refl t)

theorem Rule.Alike.test (ok : Bool) :
    Rule.Alike (if ok then .fits else .differs) (if ok then .fits else .differs) := by
  cases ok with
  | true => exact .fits
  | false => exact .differs

theorem Rule.Alike.allSome {ps qs : List (Ty × Ty)} (h : List.Forall₂ AlikePair ps qs) :
    Rule.Alike (.all (ps.map some)) (.all (qs.map some)) := by
  exact .all (forall₂_map h fun _ _ hpq => .some hpq)

theorem Rule.Alike.just (hx : Subtype.Alike x b) (hy : Subtype.Alike y f) :
    Rule.Alike (.just x y) (.just b f) := .all (.cons (.some ⟨hx, hy⟩) .nil)

/-- A rule holds where it asks for pairs that are alike to those that fit. -/
theorem Rule.Alike.holds {R : Ty → Ty → Prop} {r r' : Rule} (h : r.Alike r') (hr : r.Holds R) :
    r'.Holds fun b f => ∃ a e, Subtype.Alike a b ∧ Subtype.Alike e f ∧ R a e := by
  cases h with
  | fits => trivial
  | differs => exact hr
  | all hparts =>
    intro part hpart
    obtain ⟨part', hpart', hrel⟩ := exists_of_mem_right hparts hpart
    obtain ⟨p, rfl, hp⟩ := hr part' hpart'
    cases hrel with
    | some hpq => exact ⟨_, rfl, p.1, p.2, hpq.1, hpq.2, hp⟩
  | any hchoices =>
    obtain ⟨p, hp, hfits⟩ := hr
    obtain ⟨q, hq, hpq⟩ := exists_of_mem_right hchoices.flip hp
    exact ⟨q, hq, p.1, p.2, hpq.1, hpq.2, hfits⟩

theorem lookup_alike {fs gs : List (String × Ty)} (h : AlikeUnder fs gs) (name : String) :
    Option.Rel Alike (fs.lookup name) (gs.lookup name) := by
  induction h with
  | nil => exact .none
  | @cons f g fs gs hfg _ ih =>
    obtain ⟨key, t⟩ := f
    obtain ⟨key', u⟩ := g
    obtain ⟨hkey, htu⟩ := hfg
    obtain rfl : key = key' := hkey
    rw [List.lookup_cons, List.lookup_cons]
    cases name == key with
    | true => exact .some htu
    | false => exact ih

theorem receiverParts_alike {t u t' u' : Option Ty} (h : Option.Rel Alike t t')
    (h' : Option.Rel Alike u u') :
    List.Forall₂ AlikePair (receiverParts t u) (receiverParts t' u') := by
  cases h with
  | none => exact .nil
  | some ht =>
    cases h' with
    | none => exact .nil
    | some hu => exact .cons ⟨hu, ht⟩ .nil

theorem functionParts_alike {f g f' g' : FunctionTy} (hps : AlikeUnder f.params f'.params)
    (hr : Alike f.result f'.result) (ht : Option.Rel Alike f.receiver f'.receiver)
    (hqs : AlikeUnder g.params g'.params) (hs : Alike g.result g'.result)
    (hu : Option.Rel Alike g.receiver g'.receiver) :
    List.Forall₂ AlikePair (functionParts f g) (functionParts f' g') := by
  refine List.rel_append (List.rel_append (receiverParts_alike ht hu) ?_) ?_
  · exact forall₂_map (forall₂_zip_zip hps hqs) fun _ _ hpq => ⟨hpq.2.2, hpq.1.2⟩
  · rw [hs.isVoid]
    split
    · exact .nil
    · exact .cons ⟨hr, hs⟩ .nil

theorem optionRel_map {t u : Option Ty} (h : Option.Rel Alike t u) {p q : Ty → Ty × Ty}
    (hpq : ∀ v w, Alike v w → AlikePair (p v) (q w)) :
    Option.Rel AlikePair (t.map p) (u.map q) := by
  cases h with
  | none => exact .none
  | some hvw => exact .some (hpq _ _ hvw)

theorem itemsRule_alike {ts us as bs : List Ty} (h : List.Forall₂ Alike ts us)
    (h' : List.Forall₂ Alike as bs) (array : Bool) :
    (itemsRule ts array as).Alike (itemsRule us array bs) := by
  cases array with
  | false => exact .differs
  | true =>
    cases h' with
    | nil => exact .differs
    | cons hitem hrest =>
      cases hrest with
      | nil =>
        exact .all (forall₂_map h fun _ _ htu => .some ⟨htu, hitem⟩)
      | cons _ _ => exact .differs

theorem SameNode.fitsClass (h : SameNode x b) (e : Ty) : fitsClass x e = fitsClass b e := by
  cases h <;> rfl

/-- By their nodes alike types ask for alike pairs. -/
theorem structureRule_alike (hx : SameNode x b) (hy : SameNode y f) :
    (structureRule x y).Alike (structureRule b f) := by
  have hnamed : ∀ c, (structureRule x (.named c)).Alike (structureRule b (.named c)) := by
    intro c
    rw [structureRule_named, structureRule_named, hx.fitsClass]
    exact .test _
  cases hx with
  | object hfs =>
    cases hy with
    | object hgs =>
      refine .all (forall₂_map hgs fun g g' hg => ?_)
      rw [hg.1]
      exact optionRel_map (lookup_alike hfs g'.1) fun _ _ ht => ⟨ht, hg.2⟩
    | named c => exact hnamed c
    | _ => exact .differs
  | function hps hr ht =>
    cases hy with
    | function hqs hs hu =>
      rw [structureRule, structureRule, hps.length_eq, hqs.length_eq]
      split
      · exact .allSome (functionParts_alike hps hr ht hqs hs hu)
      · exact .differs
    | named c => exact hnamed c
    | _ => exact .differs
  | generic c has =>
    cases hy with
    | generic d hbs =>
      rw [structureRule, structureRule, has.length_eq, hbs.length_eq]
      split
      · exact .allSome (forall₂_zip_zip has hbs)
      · exact .differs
    | named c => exact hnamed c
    | _ => exact .differs
  | tuple hts =>
    cases hy with
    | tuple hus =>
      rw [structureRule, structureRule, hts.length_eq, hus.length_eq]
      split
      · exact .allSome (forall₂_zip_zip hts hus)
      · exact .differs
    | generic c has => exact itemsRule_alike hts has _
    | named c => exact hnamed c
    | _ => exact .differs
  | named c =>
    cases hy with
    | generic d _ => exact .test _
    | named d => exact hnamed d
    | _ => exact .differs
  | _ =>
    cases hy with
    | named c => exact hnamed c
    | _ => exact .differs

/-- Types that are compared by what they stand for, and then by their nodes. -/
structure Resolving (a e : Ty) : Prop where
  actual : Direct a
  expected : Direct e ∨ ∃ v, e = .value v
  any : (a.isAny || e.isAny) = false
  ne : ∀ c, a = .named c → e ≠ .named c

theorem Resolving.rule {env : Env} (h : Resolving b f) :
    Subtype.rule env b f = resolvedRule env b f :=
  rule_direct h.actual h.expected h.any h.ne

theorem SameNode.direct (h : SameNode x b) (hb : Direct b) : Direct x := by
  cases h <;> trivial

theorem Resolving.sameNode (h : Resolving b f) (hx : SameNode x b) (hy : SameNode y f) :
    Resolving x y where
  actual := hx.direct h.actual
  expected := by
    rcases h.expected with hf | ⟨v, rfl⟩
    · exact .inl (hy.direct hf)
    · cases hy
      exact .inr ⟨v, rfl⟩
  any := by
    rw [hx.isAny, hy.isAny]
    exact h.any
  ne := by
    rintro c rfl rfl
    cases hx
    cases hy
    exact h.ne c rfl rfl

/-- **The rules for alike pairs ask for alike pairs**, where no names are resolved. -/
theorem rule_alike {env : Env} (hx : SameNode x b) (hy : SameNode y f) (hxb : Alike x b)
    (hyf : Alike y f) : (rule env x y).Alike (rule env b f) ∨ Resolving b f := by
  have hany : (x.isAny || y.isAny) = (b.isAny || f.isAny) := by rw [hx.isAny, hy.isAny]
  cases hcond : b.isAny || f.isAny with
  | true =>
    rw [rule_of_any hcond, rule_of_any (hany.trans hcond)]
    exact .inl .fits
  | false =>
    have hexports : ∀ {t u}, Alike t u → Rule.Alike (.just x t) (.just b u) := fun h => .just hxb h
    have hunion : ∀ {ms ns}, List.Forall₂ Alike ms ns →
        Rule.Alike (.any (ms.map (x, ·))) (.any (ns.map (b, ·))) := fun h =>
      .any (forall₂_map h fun _ _ hmn => ⟨hxb, hmn⟩)
    have hintersection : ∀ {ms ns}, List.Forall₂ Alike ms ns →
        Rule.Alike (.all (ms.map fun m => some (x, m))) (.all (ns.map fun n => some (b, n))) :=
      fun h => .all (forall₂_map h fun _ _ hmn => .some ⟨hxb, hmn⟩)
    have hrenamed : ∀ s, Rule.Alike (.just x (.named s)) (.just b (.named s)) :=
      fun s => .just hxb (.refl _)
    unfold rule
    rw [hany, hcond, if_neg (by decide), if_neg (by decide)]
    cases hx with
    | moduleExports h => exact .inl (.just h hyf)
    | union hms =>
      refine .inl ?_
      cases hy with
      | moduleExports h => exact hexports h
      | _ => exact .all (forall₂_map hms fun _ _ hmn => .some ⟨hmn, hyf⟩)
    | intersection hms =>
      refine .inl ?_
      cases hy with
      | moduleExports h => exact hexports h
      | union hns => exact hunion hns
      | intersection hns => exact hintersection hns
      | _ => exact .any (forall₂_map hms fun _ _ hmn => ⟨hmn, hyf⟩)
    | value v =>
      refine .inl ?_
      cases hy with
      | moduleExports h => exact hexports h
      | union hns => exact hunion hns
      | intersection hns => exact hintersection hns
      | value w => exact .test _
      | _ =>
        dsimp only
        rw [hyf.isVoid]
        split
        · exact .fits
        · exact .just (.refl _) hyf
    | renamed n s =>
      refine .inl ?_
      cases hy with
      | moduleExports h => exact hexports h
      | union hns => exact hunion hns
      | intersection hns => exact hintersection hns
      | _ => exact .just (.refl _) hyf
    | named c =>
      cases hy with
      | moduleExports h => exact .inl (hexports h)
      | union hns => exact .inl (hunion hns)
      | intersection hns => exact .inl (hintersection hns)
      | renamed m s => exact .inl (hrenamed s)
      | value v => exact .inr ⟨trivial, .inr ⟨v, rfl⟩, hcond, nofun⟩
      | named d =>
        by_cases hcd : c = d
        · subst hcd
          dsimp only
          rw [beq_self_eq_true, if_pos rfl]
          exact .inl .fits
        · refine .inr ⟨trivial, .inl trivial, hcond, ?_⟩
          intro e he hd
          cases he
          cases hd
          exact hcd rfl
      | _ => exact .inr ⟨trivial, .inl trivial, hcond, nofun⟩
    | _ =>
      cases hy with
      | moduleExports h => exact .inl (hexports h)
      | union hns => exact .inl (hunion hns)
      | intersection hns => exact .inl (hintersection hns)
      | renamed m s => exact .inl (hrenamed s)
      | value v => exact .inr ⟨trivial, .inr ⟨v, rfl⟩, hcond, nofun⟩
      | _ => exact .inr ⟨trivial, .inl trivial, hcond, nofun⟩

end Rules

end Subtype
end Countersign
