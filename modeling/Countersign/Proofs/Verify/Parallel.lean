/-
# Walks through programs in other quotes

Two walks run in parallel if they keep step in sessions that differ in nothing but quotes. Walks
through related programs do, where related types are known of what is looked at. In the end, both
report the same: as many diagnostics, of the same kinds and on the same lines.

Key definitions: `Parallel`, `Settled`, `Infers`.
Key theorems: `Demand.settle_parallel`, `Target.demand_parallel`, `Infers.binary`,
`Expr.Restyled.infer`, `RestyledStmts.check`.
-/
import Countersign.Proofs.Verify.Actions
import Countersign.Proofs.Verify.Styles

namespace Countersign
namespace Verify

open Script (Stmt Expr StringLit RestyledStmts)
open Signature (textQuotes)
open Countersign.Ty (RestyledUnder Told)

variable {s : String → Bool} {shared k : String → Prop} {fixed : Bool}

/-! ### Actions -/

/-- The actions give related results in related sessions, and leave them related. -/
abbrev Parallel {α : Type} (s : String → Bool) (shared : String → Prop) (R : α → α → Prop)
    (m m' : Checking α) : Prop := InStep (Session.Restyled s shared) R m m'

/-! ### What values come to -/

/-- Types that count after a demand was met: what is firm has no loose strings. -/
structure Settled (s : String → Bool) (shared : String → Prop) (fixed : Bool) (d : Demand)
    (t u : Ty) : Prop where
  given : Given s shared fixed shared t u
  firm : d.isFirm = true → t.Restyled s shared u

theorem Demand.settle_parallel {d d' : Demand} (hd : d.Restyled s shared d') {e e' : Expr}
    (he : isFunction e' = isFunction e) {t u : Ty} (h : Given s shared fixed (d.Contents shared) t u)
    {line line' : Nat} (hline : line = line') :
    Parallel s shared (Settled s shared fixed d) (d.settle e t line) (d'.settle e' u line') := by
  subst hline
  cases hd with
  | free => exact .pure ⟨h, nofun⟩
  | «loose» => exact .pure ⟨h, nofun⟩
  | derived =>
    have hwide : t.widen.Restyled s shared u.widen := h.told.widen
    exact .pure ⟨given_of_restyled hwide (fun _ => id) fixed, fun _ => hwide⟩
  | @fit expected expected' name hexpected =>
    have hsettled : Settled s shared fixed (.fit expected name) expected expected' :=
      ⟨given_of_restyled hexpected (fun _ => id) fixed, fun _ => hexpected⟩
    unfold Demand.settle
    rw [he]
    refine .ite (.look fun a b hab => ?_) (.pure hsettled)
    have hmarks := mismatch?_marks hab.env h.told hexpected (describe e t) (describe e' u) line
    exact (InStep.reportAll fun hs => hs.reportAll hmarks).seq (.pure hsettled)

/-- Whether there is a length is seen from the outside of a type. -/
theorem hasLength_told {t u : Ty} (h : Told s shared k t u) : hasLength t = hasLength u := by
  cases h with
  | literal h => rw [hasLength, hasLength, h.kind]
  | type h =>
    obtain ⟨-, rfl⟩ := h
    cases t <;> simp [hasLength, Value.restyle_kind, Ty.restyle_literalName]

theorem memberType_parallel {t u : Ty} (h : Told s shared shared t u) (text field : String)
    {line line' : Nat} (hline : line = line') :
    Parallel s shared (Ty.Restyled s shared) (memberType t text field line)
      (memberType u text field line') := by
  subst hline
  refine .look fun a b hab => ?_
  have hresolved := h.resolve hab.env
  have hlength := hasLength_told hresolved
  have hnumber : Ty.Restyled s shared
      (if field == "length" && hasLength (a.env.resolve t) then .ofName "Number" else .any)
      (if field == "length" && hasLength (b.env.resolve u) then .ofName "Number" else .any) := by
    rw [hlength]
    split
    · exact Ty.restyled_named rfl
    · exact Ty.restyled_any
  dsimp only
  generalize a.env.resolve t = x at hresolved hnumber ⊢
  generalize b.env.resolve u = y at hresolved hnumber ⊢
  cases hresolved with
  | literal _ => exact .pure hnumber
  | type hxy =>
    obtain ⟨hsober, rfl⟩ := hxy
    cases x with
    | object fs =>
      have hfields := Ty.restyled_under (s := s) fun f hf => (hsober.field hf).2
      have hlookup := RestyledUnder.lookup hfields field
      rw [Ty.restyle_object]
      dsimp only
      generalize fs.lookup field = found at hlookup ⊢
      generalize List.lookup field _ = found' at hlookup ⊢
      cases hlookup with
      | some hfound => exact .pure hfound
      | none => exact (InStep.report fun h => h.report rfl).seq (.pure Ty.restyled_any)
    | intersection ms =>
      rw [Ty.restyle_intersection]
      refine .pure (rel_getD (rel_findSome? (Ty.restyled_all fun m hm => hsober.child hm)
        fun m m' hm => ?_) Ty.restyled_any)
      exact rel_bind (hab.env.resolve hm).asObject? fun _ _ hfs => RestyledUnder.lookup hfs field
    | _ =>
      simp only [Ty.restyle_named, Ty.restyle_value, Ty.restyle_renamed, Ty.restyle_function,
        Ty.restyle_union, Ty.restyle_generic, Ty.restyle_tuple, Ty.restyle_moduleExports]
        at hnumber ⊢
      exact .pure hnumber

theorem nameType_parallel (name : String) {line line' : Nat} (hline : line = line') :
    Parallel s shared (Ty.Restyled s shared) (nameType name line) (nameType name line') := by
  subst hline
  refine .look fun a b hab => ?_
  have hknown := hab.typeOf? name
  generalize a.typeOf? name = found at hknown ⊢
  generalize b.typeOf? name = found' at hknown ⊢
  cases hknown with
  | some h => exact .pure h
  | none => exact (InStep.report fun h => h.report rfl).seq (.pure Ty.restyled_any)

/-! ### What is demanded -/

section Demands

variable {ctx ctx' : Context}

theorem fieldDemand_parallel {fs gs : Option (List (String × Ty))}
    (h : Option.Rel (List.Forall₂ (RestyledUnder s shared)) fs gs) (text field : String) (line : Nat) :
    Parallel s shared (Demand.Restyled s shared) (fieldDemand fs text field line)
      (fieldDemand gs text field line) := by
  cases h with
  | none => exact .pure .loose
  | @some fs gs hfields =>
    have hlookup := RestyledUnder.lookup hfields field
    unfold fieldDemand
    dsimp only
    generalize fs.lookup field = found at hlookup ⊢
    generalize gs.lookup field = found' at hlookup ⊢
    cases hlookup with
    | some h => exact .pure (.fit field h)
    | none => exact (InStep.report fun h => h.report rfl).seq (.pure .loose)

theorem prototypeDemand_parallel (hctx : ctx.Restyled s shared ctx') (ctor field : String)
    (line : Nat) :
    Parallel s shared (Demand.Restyled s shared) (prototypeDemand ctx ctor field line)
      (prototypeDemand ctx' ctor field line) := by
  refine .look fun a b hab => ?_
  have hinstance := hab.env.instanceType? ctor
  have hknown : (a.env.lookup? ctor).isNone = (b.env.lookup? ctor).isNone := by
    rw [← Option.not_isSome, ← Option.not_isSome, rel_isSome (hab.env.lookup? ctor)]
  rw [hknown, hctx.policy, hab.exportedCtors]
  refine .reportIf (fun h => h.report rfl) (.reportIf (fun h => h.report rfl) ?_)
  dsimp only
  generalize a.env.instanceType? ctor = t at hinstance ⊢
  generalize b.env.instanceType? ctor = u at hinstance ⊢
  cases hinstance with
  | none => exact .pure .free
  | some h => exact fieldDemand_parallel h.asObject? _ field line

theorem exportPropertyDemand_parallel (hctx : ctx.Restyled s shared ctx') (name : String)
    (line : Nat) :
    Parallel s shared (Demand.Restyled s shared) (exportPropertyDemand ctx name line)
      (exportPropertyDemand ctx' name line) := by
  refine .look fun a b hab => ?_
  have hfields := rel_bind (rel_map hctx.declared fun _ _ h => hab.env.resolve h)
    fun _ _ h => h.asObject?
  have hheader := hab.env.lookupIn? .header name
  dsimp only
  generalize (ctx.declared.map a.env.resolve).bind (·.asObject?) = fs at hfields ⊢
  generalize (ctx'.declared.map b.env.resolve).bind (·.asObject?) = gs at hfields ⊢
  cases hfields with
  | some hfields =>
    have hlookup := RestyledUnder.lookup hfields name
    dsimp only
    generalize List.lookup name _ = found at hlookup ⊢
    generalize List.lookup name _ = found' at hlookup ⊢
    cases hlookup with
    | some h => exact .pure (.fit name h)
    | none => exact (InStep.report fun h => h.report rfl).seq (.pure (.fit name Ty.restyled_any))
  | none =>
    dsimp only
    generalize a.env.lookupIn? .header name = found at hheader ⊢
    generalize b.env.lookupIn? .header name = found' at hheader ⊢
    cases hheader with
    | some h => exact .pure (.fit name h.type)
    | none => exact .pure .derived

theorem Target.demand_parallel (hctx : ctx.Restyled s shared ctx') {target target' : Target}
    (h : target.Restyled s shared target') {line line' : Nat} (hline : line = line') :
    Parallel s shared (Demand.Restyled s shared) (target.demand ctx line)
      (target'.demand ctx' line') := by
  subst hline
  cases h with
  | name text =>
    refine .look fun a b hab => ?_
    have hknown := hab.typeOf? text
    generalize a.typeOf? text = found at hknown ⊢
    generalize b.typeOf? text = found' at hknown ⊢
    cases hknown with
    | none => exact (InStep.report fun h => h.report rfl).seq (.pure .loose)
    | @some t u h =>
      refine .pure ?_
      rw [h.isAny]
      split
      · exact .free
      · exact .fit text h
  | exports =>
    have hdeclared := hctx.declared
    unfold Target.demand
    generalize ctx.declared = t at hdeclared ⊢
    generalize ctx'.declared = u at hdeclared ⊢
    cases hdeclared with
    | none => exact .pure .derived
    | some h => exact .pure (.fit _ h)
  | exportProperty key => exact exportPropertyDemand_parallel hctx key line
  | prototypeField ctor key => exact prototypeDemand_parallel hctx ctor key line
  | field text key h =>
    exact .look fun a b hab => fieldDemand_parallel (h.resolve hab.env).asObject? text key line
  | other => exact .pure .loose

end Demands

/-! ### Literals -/

theorem stringType_eq (l : StringLit) :
    stringType l = .value (.quoted (quoteOf l.single) l.text) := by
  have hquote : (if l.single then "'" else "\"") = String.ofList [quoteOf l.single] := by
    cases l.single <;> rfl
  unfold stringType Value.quoted
  dsimp only
  rw [hquote]
  refine congrArg (fun text => Ty.value ⟨text, .string⟩) (String.toList_injective ?_)
  simp

/-- **A string is told from shared ones as before**, and a fixed string is one of its kind. -/
theorem stringType_given {l l' : StringLit} (h : l.Restyled s shared fixed l') :
    Given s shared fixed k (stringType l) (stringType l') := by
  rw [stringType_eq, stringType_eq, h.text]
  constructor
  · refine .literal ⟨rfl, fun w hw => ?_⟩
    rcases hw with ⟨q, content, hq, -, hcontent, rfl⟩ | ⟨hkind, -⟩
    · rw [Value.restyle_quoted, Value.quoted_inj, Value.quoted_inj, and_congr_left_iff]
      rintro rfl
      rw [h.quotes (.inl hcontent), quoteOf_xor]
      constructor
      · rintro rfl
        rfl
      · intro hturned
        have hback := congrArg (turnedQuote s · l.text) hturned
        simpa only [turnedQuote_turnedQuote hq, turnedQuote_turnedQuote (isQuote_quoteOf _)] using hback
    · rw [Value.restyle_of_kind_ne hkind]
      constructor <;>
      · rintro rfl
        exact absurd rfl hkind
  · intro hfixed
    rw [h.quotes (.inr hfixed), quoteOf_xor, ← Value.restyle_quoted]
    have hsober : (Value.quoted (quoteOf l.single) l.text).Sober Whatever :=
      .inl ⟨_, _, isQuote_quoteOf _, h.closed hfixed, trivial, rfl⟩
    exact (Ty.sober_value hsober).restyled

/-- A value without quotes stays what it is. -/
theorem restyled_constant {v : Value} (hkind : v.kind ≠ .string) (htext : textQuotes v.text = 0) :
    Ty.Restyled s k (.value v) (.value v) :=
  ⟨Ty.sober_value (.inr ⟨hkind, htext⟩),
    by rw [Ty.restyle_value, Value.restyle_of_kind_ne hkind]⟩

theorem numberType_given {text : String} (h : fixed = true → textQuotes text = 0) :
    Given s shared fixed k (.value ⟨text, .number⟩) (.value ⟨text, .number⟩) := by
  have hkind : (⟨text, .number⟩ : Value).kind ≠ .string := nofun
  refine ⟨.literal ⟨rfl, fun w _ => ?_⟩, fun hfixed => restyled_constant hkind (h hfixed)⟩
  by_cases hw : w.kind = .string
  · constructor <;> intro heq
    · exact absurd (heq ▸ hw) hkind
    · have hturned := congrArg Value.kind heq
      rw [Value.restyle_kind] at hturned
      exact absurd (hturned.trans hw) hkind
  · rw [Value.restyle_of_kind_ne hw]

/-- The same name without quotes stands before related types. -/
def RestyledField (s : String → Bool) (k : String → Prop) (f g : String × Ty) : Prop :=
  RestyledUnder s k f g ∧ textQuotes f.1 = 0

theorem setField_restyled {fs gs : List (String × Ty)} (h : List.Forall₂ (RestyledField s k) fs gs)
    {f g : String × Ty} (hfg : RestyledField s k f g) :
    List.Forall₂ (RestyledField s k) (Ty.setField fs f.1 f.2) (Ty.setField gs g.1 g.2) := by
  obtain ⟨name, t⟩ := f
  obtain ⟨name', u⟩ := g
  obtain ⟨⟨rfl, htu⟩, hname⟩ := hfg
  have hany : fs.any (·.1 == name) = gs.any (·.1 == name) := by
    induction h with
    | nil => rfl
    | cons hxy _ ih => rw [List.any_cons, List.any_cons, ih, hxy.1.1]
  unfold Ty.setField
  dsimp only
  rw [hany]
  split
  · refine Subtype.forall₂_map h fun x y hxy => ?_
    rw [hxy.1.1]
    split
    · exact ⟨⟨rfl, htu⟩, hname⟩
    · exact hxy
  · exact List.rel_append h (.cons ⟨⟨rfl, htu⟩, hname⟩ .nil)

theorem objectOf_restyled {fs gs : List (String × Ty)}
    (h : List.Forall₂ (RestyledField s k) fs gs) :
    (Ty.objectOf fs).Restyled s k (Ty.objectOf gs) := by
  have hfold : ∀ {done done' : List (String × Ty)}, List.Forall₂ (RestyledField s k) done done' →
      List.Forall₂ (RestyledField s k) (fs.foldl (fun acc f => Ty.setField acc f.1 f.2) done)
        (gs.foldl (fun acc f => Ty.setField acc f.1 f.2) done') := by
    induction h with
    | nil => exact id
    | cons hfg _ ih => exact fun hdone => ih (setField_restyled hdone hfg)
  have hfields := hfold .nil
  unfold Ty.objectOf
  generalize fs.foldl _ [] = fs' at hfields ⊢
  generalize gs.foldl _ [] = gs' at hfields ⊢
  suffices hall : (∀ f ∈ fs', textQuotes f.1 = 0 ∧ f.2.Sober k) ∧
      gs' = fs'.map fun f => (f.1, f.2.restyle s) by
    exact ⟨Ty.sober_object hall.1, by rw [Ty.restyle_object, hall.2]⟩
  clear hfold
  induction hfields with
  | nil => exact ⟨nofun, rfl⟩
  | @cons f g fs' gs' hfg _ ih =>
    obtain ⟨⟨hname, hsober, heq⟩, hplain⟩ := hfg
    exact ⟨List.forall_mem_cons.mpr ⟨⟨hplain, hsober⟩, ih.1⟩,
      congrArg₂ _ (Prod.ext hname.symm heq) ih.2⟩

/-- The type of an array: a tuple only where tuples are admitted. -/
theorem arrayType_given {h h' : ElementHints} (hh : h.isTuple = h'.isTuple)
    (hwide : h.isTuple = true → ∀ c, k c) (hk : ∀ c, shared c → k c) {expected expected' : Option Ty}
    (hexpected : Option.Rel (Ty.Restyled s shared) expected expected') {ts us : List Ty}
    (hts : List.Forall₂ (Given s shared true k) ts us) :
    Given s shared fixed k (h.arrayType expected ts) (h'.arrayType expected' us) := by
  have hempty : ts.isEmpty = us.isEmpty := by cases hts <;> rfl
  unfold ElementHints.arrayType
  rw [← hh, hempty]
  split
  · rename_i htuple
    have htypes : (Ty.tuple ts).Restyled s Whatever (.tuple us) :=
      Ty.restyled_tuple (hts.imp fun _ _ htu => htu.fixed rfl)
    exact given_of_restyled htypes (fun c _ => hwide htuple c) fixed
  · split
    · exact given_of_restyled (rel_getD hexpected (Ty.restyled_named rfl)) hk fixed
    · have hjoined := join_restyled (hts.imp fun _ _ htu => htu.told)
      exact given_of_restyled (Ty.restyled_array hjoined) (fun _ => id) fixed

end Verify

namespace Script

open Verify
open Signature (textQuotes)

variable {s : String → Bool} {shared : String → Prop}

/-! ### One expression at a time -/

/-- The expressions are given related types in parallel, whatever related types are known of them. -/
def Infers (s : String → Bool) (shared : String → Prop) (fixed : Bool) (ctx ctx' : Context)
    (e e' : Expr) : Prop :=
  ∀ ⦃k : String → Prop⦄ ⦃hint hint' : Hint⦄, hint.Restyled s shared hint' →
    hint.Admits shared k →
      Parallel s shared (Given s shared fixed k) (e.infer ctx hint) (e'.infer ctx' hint')

namespace Infers

variable {fixed : Bool} {ctx ctx' : Context} {span : Span}

/-- Nothing is known of the expressions. -/
theorem free {e e' : Expr} (h : Infers s shared fixed ctx ctx' e e') :
    Parallel s shared (Given s shared fixed shared) (e.infer ctx .free) (e'.infer ctx' .free) :=
  h Hint.restyled_free Hint.admits_free

theorem array {es es' : List Expr}
    (h : ∀ {k : String → Prop} {items items' : List Ty} {rest rest' : Option Ty},
      List.Forall₂ (Ty.Restyled s shared) items items' →
      Option.Rel (Ty.Restyled s shared) rest rest' → (∀ c, shared c → k c) →
      (items = [] ∧ rest = none ∨ ∀ c, k c) →
      Parallel s shared (List.Forall₂ (Given s shared true k)) (inferElements ctx items rest es)
        (inferElements ctx' items' rest' es')) :
    Infers s shared fixed ctx ctx' (.array span es) (.array span es') := by
  intro k hint hint' hhint hk
  refine .look fun a b hab => ?_
  have hhints := elementHints_restyled hab.env hhint.type
  have hwide := hk.wide.imp_left (@elementHints_wide a.env _)
  refine (h hhints.items hhints.rest hk.shared (hwide.imp_left ?_)).bind
    fun ts us htu => .pure (arrayType_given hhints.isTuple ?_ hk.shared hhint.type htu)
  · intro heq
    rw [heq]
    exact ⟨rfl, rfl⟩
  · intro htuple
    refine hwide.resolve_left fun heq => ?_
    rw [heq] at htuple
    cases htuple

theorem object {ps ps' : List Property}
    (h : ∀ {k : String → Prop} {hint hint' : String → Hint},
      (∀ key, (hint key).Restyled s shared (hint' key)) → (∀ key, (hint key).Admits shared k) →
      Parallel s shared (List.Forall₂ (RestyledField s k)) (inferProperties ctx hint ps)
        (inferProperties ctx' hint' ps')) :
    Infers s shared fixed ctx ctx' (.object span ps) (.object span ps') := by
  intro k hint hint' hhint hk
  refine .look fun a b hab => ?_
  have hfields := h (fun key => propertyHint_restyled hab.env hhint.type key)
    (fun key => @propertyHint_admits _ _ a.env _ hk key)
  exact hfields.bind fun _ _ hfs => .pure (given_of_restyled (objectOf_restyled hfs) (fun _ => id) _)

theorem member (hctx : ctx.Restyled s shared ctx') {o o' : Expr}
    (ho : Expr.Restyled s shared false o o') (hobject : Infers s shared false ctx ctx' o o')
    (n : Ident) : Infers s shared fixed ctx ctx' (.member span o n) (.member span o' n) := by
  intro k hint hint' _ hk
  refine .look fun a b hab => ?_
  have hmissing := rel_ite (c := (exportTarget? o n.text == some .module) = true)
    (hab.unassignedExport? hctx)
  rw [ho.exportTarget?, ho.outline]
  generalize (if exportTarget? o n.text == some .module then _ else none) = x at hmissing ⊢
  generalize (if exportTarget? o n.text == some .module then _ else none) = y at hmissing ⊢
  cases hmissing with
  | some h =>
    refine (InStep.report fun hs => hs.report ?_).seq (.pure (given_of_restyled h hk.shared fixed))
    rw [hctx.line]
    rfl
  | none =>
    refine hobject.free.bind fun t u htu => ?_
    exact (memberType_parallel htu.told (outline o) n.text (hctx.line n.span.pos)).mono
      fun _ _ h => given_of_restyled h hk.shared fixed

section Call

-- a callee, and arguments that go in parallel for any related parameters
variable (hctx : ctx.Restyled s shared ctx') {c c' : Expr}
  (hc : Expr.Restyled s shared false c c') (hcallee : Infers s shared false ctx ctx' c c')
  {as as' : List Expr} (hlength : as'.length = as.length)
  (has : ∀ {ps ps' : List (Option String × Ty)}, List.Forall₂ (Ty.RestyledUnder s shared) ps ps' →
    Parallel s shared Eq (checkArgs ctx ps as) (checkArgs ctx' ps' as'))
include hctx hc hcallee hlength has

theorem call : Infers s shared fixed ctx ctx' (.call span c as) (.call span c' as') := by
  intro k hint hint' _ hk
  refine hcallee.free.bind fun t u htu => .look fun a b hab => ?_
  have hsignature := (htu.told.resolve hab.env).asFunction?
  have hparams := rel_getD (rel_map hsignature fun _ _ h => h.params) .nil
  have hresult := rel_getD (rel_map hsignature fun _ _ h => h.result) Ty.restyled_any
  dsimp only
  rw [hc.outline, hlength, hctx.line]
  exact (InStep.reportAll fun hs => hs.reportAll (callErrors_marks hsignature _ _ _)).seq
    ((has hparams).seq (.pure (given_of_restyled hresult hk.shared _)))

theorem construct (listed : Bool) : Infers s shared fixed ctx ctx' (.construct span c listed as)
    (.construct span c' listed as') := by
  intro k hint hint' _ hk
  refine hcallee.free.bind fun t u htu => .look fun a b hab => ?_
  have hsignature := (htu.told.resolve hab.env).asFunction?
  have hparams := rel_getD (rel_map hsignature fun _ _ h => h.params) .nil
  have hresult := constructedType_restyled hsignature hc.identText?
  dsimp only
  rw [hc.outline, hlength, hctx.line]
  exact (InStep.reportAll fun hs => hs.reportAll (callErrors_marks hsignature _ _ _)).seq
    ((has hparams).seq (.pure (given_of_restyled hresult hk.shared _)))

end Call

theorem wordOp {e e' : Expr} (he : Expr.Restyled s shared false e e')
    (h : Infers s shared false ctx ctx' e e') (op : WordOp) :
    Infers s shared fixed ctx ctx' (.wordOp span op e) (.wordOp span op e') := by
  intro k hint hint' _ hk
  have hlook := h.free.discard
  cases op with
  | delete => exact hlook.seq (.pure (given_of_restyled (Ty.restyled_named rfl) hk.shared _))
  | typeof =>
    refine .look fun a b hab => ?_
    have hknown : (e.identText?.all fun name => (a.env.lookup? name).isSome) =
        e'.identText?.all fun name => (b.env.lookup? name).isSome := by
      rw [he.identText?]
      exact congrArg (Option.all · _) (funext fun name => rel_isSome (hab.env.lookup? name))
    have hname : Ty.Restyled s shared (.ofName "String") (.ofName "String") := Ty.restyled_named rfl
    dsimp only
    rw [hknown]
    exact .ite (hlook.seq (.pure (given_of_restyled hname hk.shared _)))
      (.pure (given_of_restyled hname hk.shared _))
  | void =>
    exact hlook.seq (.pure (given_of_restyled (restyled_constant (by decide) rfl) hk.shared _))

/-- An assignment after its target was looked at. -/
theorem assign (hctx : ctx.Restyled s shared ctx') {r r' : Expr} {fixed' : Bool}
    (hr : Expr.Restyled s shared fixed' r r') (hvalue : Infers s shared fixed ctx ctx' r r')
    {target target' : Target} (htarget : target.Restyled s shared target') {line line' : Nat}
    (hline : line = line') :
    Parallel s shared (Given s shared fixed shared)
      (do
        let demand ← target.demand ctx line
        let actual ← r.infer ctx demand.hint
        let type ← demand.settle r actual line
        modify (target.complete ctx r.identText? type line)
        pure type)
      (do
        let demand ← target'.demand ctx' line'
        let actual ← r'.infer ctx' demand.hint
        let type ← demand.settle r' actual line'
        modify (target'.complete ctx' r'.identText? type line')
        pure type) := by
  subst hline
  refine (Target.demand_parallel hctx htarget rfl).bind fun d d' hd => ?_
  refine (hvalue hd.hint hd.admits).bind fun _ _ hactual => ?_
  refine (Demand.settle_parallel hd hr.isFunction hactual rfl).bind fun t u hsettled => ?_
  rw [hr.identText?]
  exact (InStep.change fun h => htarget.complete h hctx _ t u line).seq (.pure hsettled.given)

theorem binary (hctx : ctx.Restyled s shared ctx') {op : TokenKind} {l l' r r' : Expr}
    {fixed' : Bool} (hr : Expr.Restyled s shared fixed' r r')
    (hpasses : fixed = true → (operatorRule op).passesRight = true → fixed' = true)
    (htarget : Parallel s shared (Target.Restyled s shared) (l.target ctx) (l'.target ctx'))
    (hleft : Infers s shared false ctx ctx' l l')
    (hright : Infers s shared fixed' ctx ctx' r r') :
    Infers s shared fixed ctx ctx' (.binary span l op r) (.binary span l' op r') := by
  intro k hint hint' hhint hk
  unfold Expr.infer
  cases hrule : operatorRule op with
  | assign =>
    have hfixed : fixed = true → fixed' = true := fun h => hpasses h (by rw [hrule]; rfl)
    refine htarget.bind fun target target' htarget => ?_
    have hvalue := (assign hctx hr hright htarget (hctx.line span.pos)).mono
      fun _ _ h => h.weaken hfixed hk.shared
    cases htarget with
    | other => exact hleft.free.discard.seq hvalue
    | _ => exact hvalue
  | choice =>
    refine (hleft hhint.part hk.part).bind fun _ _ hvalue =>
      (hright hhint.part hk.part).bind fun _ _ hvalue' => .pure ?_
    have hjoined := join_restyled (.cons hvalue.told (.cons hvalue'.told .nil))
    exact given_of_restyled hjoined (fun _ => id) fixed
  | sequence =>
    refine hleft.free.discard.seq ((hright hhint.part hk.part).mono fun _ _ h =>
      h.weaken (fun hfixed => ?_) fun _ => id)
    exact hpasses hfixed (by rw [hrule]; rfl)
  | comparison =>
    exact hleft.free.discard.seq (hright.free.discard.seq
      (.pure (given_of_restyled (Ty.restyled_named rfl) hk.shared _)))
  | addition =>
    exact hleft.free.bind fun _ _ h => hright.free.bind fun _ _ h' =>
      .pure (given_of_restyled (sumType_restyled h.told h'.told) hk.shared _)
  | arithmetic =>
    exact hleft.free.discard.seq (hright.free.discard.seq
      (.pure (given_of_restyled (Ty.restyled_named rfl) hk.shared _)))

end Infers

/-! ### The walk -/

mutual

theorem Expr.Restyled.infer {fixed : Bool} {e e' : Expr} : Expr.Restyled s shared fixed e e' →
    ∀ {ctx ctx' : Context}, ctx.Restyled s shared ctx' → Infers s shared fixed ctx ctx' e e'
  | .ident i => fun hctx _ _ _ _ hk =>
    (nameType_parallel _ (hctx.line _)).mono fun _ _ h => given_of_restyled h hk.shared _
  | .string h => fun _ _ _ _ _ _ => .pure (stringType_given h)
  | .number h => fun _ _ _ _ _ _ => .pure (numberType_given h)
  | .regex _ _ => fun _ _ _ _ _ hk =>
    .pure (given_of_restyled (Ty.restyled_named rfl) hk.shared _)
  | .array hes => fun hctx => Infers.array fun hitems hrest => hes.inferElements hctx hitems hrest
  | .object hps => fun hctx => Infers.object fun hhint => hps.inferProperties hctx hhint
  | .member ho => fun hctx => Infers.member hctx ho (ho.infer hctx) _
  | .index ho hi => fun hctx _ _ _ _ hk =>
    (ho.infer hctx).free.discard.seq ((hi.infer hctx).free.discard.seq
      (.pure (given_of_restyled Ty.restyled_any hk.shared _)))
  | .call hc has => fun hctx =>
    Infers.call hctx hc (hc.infer hctx) has.length (has.checkArgs hctx)
  | .construct hc has => fun hctx =>
    Infers.construct hctx hc (hc.infer hctx) has.length (has.checkArgs hctx) _
  | .paren h => fun hctx => h.infer hctx
  | .function hb => fun hctx _ _ _ hhint hk =>
    (hb.checkFunction _ _ (by rw [hhint.name]) hctx hhint.type).mono fun _ _ h =>
      given_of_restyled h hk.shared _
  | .wordOp h => fun hctx => Infers.wordOp h (h.infer hctx) _
  | .before h => fun hctx _ _ _ _ hk => by
    refine (h.infer hctx).free.discard.seq (.pure ?_)
    split
    · exact given_of_restyled (Ty.restyled_named rfl) hk.shared _
    · exact given_of_restyled (Ty.restyled_named rfl) hk.shared _
  | .after h => fun hctx _ _ _ _ hk =>
    (h.infer hctx).free.discard.seq
      (.pure (given_of_restyled (Ty.restyled_named rfl) hk.shared _))
  | .binary hl hr => fun hctx =>
    Infers.binary hctx hr (fun hfixed hpasses => Bool.and_eq_true_iff.mpr ⟨hfixed, hpasses⟩)
      (hl.target hctx) (hl.infer hctx) (hr.infer hctx)
  | .conditional ht hy hn => fun hctx _ _ _ hhint hk =>
    (ht.infer hctx).free.discard.seq
      ((hy.infer hctx hhint.part hk.part).bind fun _ _ hyes =>
        (hn.infer hctx hhint.part hk.part).bind fun _ _ hno =>
          .pure (given_of_restyled (join_restyled (.cons hyes.told (.cons hno.told .nil)))
            (fun _ => id) _))
  | .omitted _ _ => fun _ _ _ _ _ hk =>
    .pure (given_of_restyled (restyled_constant (by decide) rfl) hk.shared _)
  | .this _ => fun _ _ _ _ _ hk => .look fun _ _ hab =>
    .pure (given_of_restyled (rel_getD hab.env.receiver? Ty.restyled_any) hk.shared _)
  | .null _ => fun _ _ _ _ _ hk =>
    .pure (given_of_restyled (restyled_constant (by decide) rfl) hk.shared _)
  | .boolean _ true => fun _ _ _ _ _ hk =>
    .pure (given_of_restyled (restyled_constant (by decide) rfl) hk.shared _)
  | .boolean _ false => fun _ _ _ _ _ hk =>
    .pure (given_of_restyled (restyled_constant (by decide) rfl) hk.shared _)

theorem Expr.Restyled.target {fixed : Bool} {e e' : Expr} : Expr.Restyled s shared fixed e e' →
    ∀ {ctx ctx' : Context}, ctx.Restyled s shared ctx' →
      Parallel s shared (Target.Restyled s shared) (e.target ctx) (e'.target ctx')
  | .paren h => fun hctx => h.target hctx
  | .ident i => fun _ => .pure (.name i.text)
  | .member ho => fun hctx => by
    unfold Expr.target
    rw [ho.exportTarget?, ho.prototypeOf?, ho.outline]
    split
    · exact .pure .exports
    · exact .pure (.exportProperty _)
    · exact .pure (.prototypeField _ _)
    · exact (ho.infer hctx).free.bind fun _ _ h =>
        .pure (.field _ _ h.told)
  | .string _ => fun _ => .pure .other
  | .number _ => fun _ => .pure .other
  | .regex _ _ => fun _ => .pure .other
  | .array _ => fun _ => .pure .other
  | .object _ => fun _ => .pure .other
  | .index _ _ => fun _ => .pure .other
  | .call _ _ => fun _ => .pure .other
  | .construct _ _ => fun _ => .pure .other
  | .function _ => fun _ => .pure .other
  | .wordOp _ => fun _ => .pure .other
  | .before _ => fun _ => .pure .other
  | .after _ => fun _ => .pure .other
  | .binary _ _ => fun _ => .pure .other
  | .conditional _ _ _ => fun _ => .pure .other
  | .omitted _ _ => fun _ => .pure .other
  | .this _ => fun _ => .pure .other
  | .null _ => fun _ => .pure .other
  | .boolean _ _ => fun _ => .pure .other

/-- Elements of which nothing is known, or ones that may hold any strings. -/
theorem RestyledExprs.inferElements {fixed : Bool} {es es' : List Expr} :
    RestyledExprs s shared fixed es es' →
    ∀ {ctx ctx' : Context} {k : String → Prop} {items items' : List Ty} {rest rest' : Option Ty},
      ctx.Restyled s shared ctx' → List.Forall₂ (Ty.Restyled s shared) items items' →
      Option.Rel (Ty.Restyled s shared) rest rest' → (∀ c, shared c → k c) →
      (items = [] ∧ rest = none ∨ ∀ c, k c) →
      Parallel s shared (List.Forall₂ (Given s shared fixed k))
        (inferElements ctx items rest es) (inferElements ctx' items' rest' es')
  | .nil => fun _ _ _ _ _ => .pure .nil
  | .cons h hs => fun hctx hitems hrest hk hwide => by
    have hhint : Hint.Restyled s shared { type := _ } { type := _ } :=
      ⟨rel_or (rel_head? hitems) hrest, rfl⟩
    refine (h.infer hctx hhint ⟨hk, hwide.imp_left ?_⟩).bind fun _ _ ht =>
      (hs.inferElements hctx (rel_tail hitems) hrest hk (hwide.imp_left ?_)).bind
        fun _ _ hts => .pure (List.Forall₂.cons ht hts)
    · rintro ⟨rfl, rfl⟩
      exact nofun
    · rintro ⟨rfl, rfl⟩
      exact ⟨rfl, rfl⟩

theorem RestyledProperties.inferProperties {ps ps' : List Property} :
    RestyledProperties s shared ps ps' →
    ∀ {ctx ctx' : Context} {k : String → Prop} {hint hint' : String → Hint},
      ctx.Restyled s shared ctx' → (∀ key, (hint key).Restyled s shared (hint' key)) →
      (∀ key, (hint key).Admits shared k) →
      Parallel s shared (List.Forall₂ (RestyledField s k))
        (inferProperties ctx hint ps) (inferProperties ctx' hint' ps')
  | .nil => fun _ _ _ => .pure .nil
  | .cons hn h hs => fun hctx hhint hk => by
    unfold Script.inferProperties
    rw [hn.key]
    exact (h.infer hctx (hhint _) (hk _)).bind fun _ _ ht =>
      (hs.inferProperties hctx hhint hk).bind fun _ _ hfs =>
        .pure (List.Forall₂.cons ⟨⟨rfl, ht.told.widen⟩, hn.plain⟩ hfs)

theorem RestyledExprs.checkArgs {fixed : Bool} {es es' : List Expr} :
    RestyledExprs s shared fixed es es' →
    ∀ {ctx ctx' : Context} {ps ps' : List (Option String × Ty)}, ctx.Restyled s shared ctx' →
      List.Forall₂ (Ty.RestyledUnder s shared) ps ps' →
      Parallel s shared Eq (checkArgs ctx ps es) (checkArgs ctx' ps' es')
  | .nil => fun _ _ => .pure rfl
  | .cons h hs => fun hctx hps => by
    have hdemand := argumentDemand_restyled (rel_head? hps)
    refine (h.infer hctx hdemand.hint hdemand.admits).bind fun _ _ ht => ?_
    refine (Demand.settle_parallel hdemand h.isFunction ht ?_).discard.seq
      (hs.checkArgs hctx (rel_tail hps))
    rw [hctx.line, h.pos]

theorem RestyledExpr?.supply? {e e' : Option Expr} : RestyledExpr? s shared e e' →
    ∀ {ctx ctx' : Context} {d d' : Demand} {line line' : Nat}, ctx.Restyled s shared ctx' →
      d.Restyled s shared d' → line = line' →
      Parallel s shared (Option.Rel (Settled s shared false d)) (supply? ctx d line e)
        (supply? ctx' d' line' e')
  | .none => fun _ _ _ => .pure .none
  | .some h => fun hctx hd hline =>
    (h.infer hctx hd.hint hd.admits).bind fun _ _ ht =>
      (Demand.settle_parallel hd h.isFunction ht hline).map fun _ _ => .some

theorem Block.Restyled.checkFunction {b b' : Block} : Block.Restyled s shared b b' →
    ∀ {ctx ctx' : Context} {t t' : Option Ty} (head head' : FunctionHead), head = head' →
      ctx.Restyled s shared ctx' → Option.Rel (Ty.Restyled s shared) t t' →
      Parallel s shared (Ty.Restyled s shared) (b.checkFunction ctx head t)
        (b'.checkFunction ctx' head' t')
  | @Block.Restyled.mk _ _ _ ts ts' hts => fun head _ hhead hctx ht => by
    subst hhead
    refine .look fun x y hxy => ?_
    have hplan := planFunction_restyled hxy.env (hctx.line head.pos) head ht
    dsimp only
    generalize planFunction x.env _ _ _ = p at hplan ⊢
    generalize planFunction y.env _ _ _ = q at hplan ⊢
    have hinner := hctx.inside hplan head
    refine (InStep.reportAll fun hs => hs.reportAll hplan.errors).seq ?_
    rw [hplan.visits]
    refine .ite ?_ (.pure hplan.type)
    refine (InStep.change fun h => h.enterFunction hinner head hplan hts).seq ?_
    refine (hts.check hinner).seq ?_
    exact (InStep.change fun h => h.leaveFunction hinner head hplan ts ts').seq (.pure hplan.type)

theorem Stmt.Restyled.check {t t' : Stmt} : Stmt.Restyled s shared t t' →
    ∀ {ctx ctx' : Context}, ctx.Restyled s shared ctx' →
      Parallel s shared Eq (t.check ctx) (t'.check ctx')
  | .declaration h => fun hctx => h.check hctx
  | @Stmt.Restyled.function _ _ span n _ _ _ hb => fun hctx => by
    refine .look fun x y hxy => ?_
    have hdeclared : Option.Rel (Ty.Restyled s shared)
        (if x.untyped.contains span.pos then none else x.typeOf? n.text)
        (if y.untyped.contains span.pos then none else y.typeOf? n.text) := by
      rw [hxy.untyped]
      split
      · exact .none
      · exact hxy.typeOf? n.text
    dsimp only
    refine (hb.checkFunction _ _ rfl hctx hdeclared).discard.seq ?_
    rw [rel_isSome hdeclared, hctx.line]
    exact .ite (.change fun h => h.noteDeclaration hctx _ _) (.pure rfl)
  | .block h => fun hctx => h.check hctx
  | .empty _ => fun _ => .pure rfl
  | .expression h => fun hctx => (h.infer hctx).free.discard
  | .ifElse ht hy hn => fun hctx =>
    (ht.infer hctx).free.discard.seq
      ((hy.check hctx).seq (hn.check hctx))
  | .doWhile hb ht => fun hctx =>
    (hb.check hctx).seq (ht.infer hctx).free.discard
  | .whileDo ht hb => fun hctx =>
    (ht.infer hctx).free.discard.seq (hb.check hctx)
  | .forLoop hi ht hu hb => fun hctx =>
    (InStep.change fun h => h.enter (Scope.restyled_ofKind _)).seq
      ((hi.check hctx).seq ((ht.supply? hctx .free rfl).discard.seq
        ((hu.supply? hctx .free rfl).discard.seq
          ((hb.check hctx).seq (.change fun h => h.leave)))))
  | .forIn hi ho hb => fun hctx =>
    (InStep.change fun h => h.enter (Scope.restyled_ofKind _)).seq
      ((hi.checkKeys hctx).seq
        ((ho.infer hctx).free.discard.seq
          ((hb.check hctx).seq (.change fun h => h.leave))))
  | .continueTo _ _ => fun _ => .pure rfl
  | .breakTo _ _ => fun _ => .pure rfl
  | .returnWith hv => fun hctx => .look fun x y hxy =>
    (hv.supply? hctx (returnDemand_restyled hxy.env hctx) (hctx.line _)).bind fun _ _ hgiven =>
      .reportAll fun hs => hs.reportAll
        (returnErrors_marks hxy.env hctx _ (rel_imp hgiven fun _ _ h => h.given.told))
  | .switchOn he hcs => fun hctx =>
    (he.infer hctx).free.discard.seq (hcs.check hctx)
  | .labeled h => fun hctx => h.check hctx
  | .throwing h => fun hctx => (h.infer hctx).free.discard
  | .tryCatch hb hc hf => fun hctx =>
    (hb.check hctx).seq ((hc.check hctx).seq (hf.check hctx))
  | .debugger _ => fun _ => .pure rfl

theorem RestyledStmts.check {ts ts' : List Stmt} : RestyledStmts s shared ts ts' →
    ∀ {ctx ctx' : Context}, ctx.Restyled s shared ctx' →
      Parallel s shared Eq (checkStmts ctx ts) (checkStmts ctx' ts')
  | .nil => fun _ => .pure rfl
  | .cons h hs => fun hctx => (h.check hctx).seq (hs.check hctx)

theorem RestyledStmt?.check {t t' : Option Stmt} : RestyledStmt? s shared t t' →
    ∀ {ctx ctx' : Context}, ctx.Restyled s shared ctx' →
      Parallel s shared Eq (checkStmt? ctx t) (checkStmt? ctx' t')
  | .none => fun _ => .pure rfl
  | .some h => fun hctx => h.check hctx

theorem Block.Restyled.check {b b' : Block} : Block.Restyled s shared b b' →
    ∀ {ctx ctx' : Context}, ctx.Restyled s shared ctx' →
      Parallel s shared Eq (b.check ctx) (b'.check ctx')
  | .mk hts => fun hctx =>
    (InStep.change fun h => h.enterBlock hctx hts).seq
      ((hts.check hctx).seq (.change fun h => h.leave))

theorem RestyledBlock?.check {b b' : Option Block} : RestyledBlock? s shared b b' →
    ∀ {ctx ctx' : Context}, ctx.Restyled s shared ctx' →
      Parallel s shared Eq (checkBlock? ctx b) (checkBlock? ctx' b')
  | .none => fun _ => .pure rfl
  | .some h => fun hctx => h.check hctx

theorem RestyledDecls.check {ds ds' : List Decl} : RestyledDecls s shared ds ds' →
    ∀ {ctx ctx' : Context} {kind : DeclKind}, ctx.Restyled s shared ctx' →
      Parallel s shared Eq (checkDecls ctx kind ds) (checkDecls ctx' kind ds')
  | .nil => fun _ => .pure rfl
  | @RestyledDecls.cons _ _ span n _ _ _ _ he hds => fun hctx => by
    refine .look fun x y hxy => ?_
    have hdeclared := headerType?_restyled hxy.env hctx n.text
    have hdemand := initialDemand_restyled hdeclared n.text
    refine (he.supply? hctx hdemand (hctx.line span.pos)).bind fun _ _ hgiven => ?_
    have hfirm : ∀ t, (initialDemand t n.text).isFirm = true := fun t => by cases t <;> rfl
    have htype := rel_or (rel_imp hgiven fun _ _ h => h.firm (hfirm _)) hdeclared
    rw [hctx.line]
    exact (InStep.change fun h => h.declareResult _ _ _ htype).seq (hds.check hctx)

theorem ForInit.Restyled.check {i i' : ForInit} : ForInit.Restyled s shared i i' →
    ∀ {ctx ctx' : Context}, ctx.Restyled s shared ctx' →
      Parallel s shared Eq (i.check ctx) (i'.check ctx')
  | .none => fun _ => .pure rfl
  | .decls h => fun hctx => h.check hctx
  | .expr h => fun hctx => (h.infer hctx).free.discard

theorem ForInit.Restyled.checkKeys {i i' : ForInit} : ForInit.Restyled s shared i i' →
    ∀ {ctx ctx' : Context}, ctx.Restyled s shared ctx' →
      Parallel s shared Eq (i.checkKeys ctx) (i'.checkKeys ctx')
  | .none => fun _ => .pure rfl
  | .decls hds => fun hctx => .change fun h => h.declareKeys hctx _ _ hds
  | .expr h => fun hctx => (h.infer hctx).free.discard

theorem RestyledClauses.check {cs cs' : List Clause} : RestyledClauses s shared cs cs' →
    ∀ {ctx ctx' : Context}, ctx.Restyled s shared ctx' →
      Parallel s shared Eq (checkClauses ctx cs) (checkClauses ctx' cs')
  | .nil => fun _ => .pure rfl
  | .cons ht hts hcs => fun hctx =>
    (ht.supply? hctx .free rfl).discard.seq
      ((InStep.change fun h => h.enterBlock hctx hts).seq
        ((hts.check hctx).seq ((InStep.change fun h => h.leave).seq (hcs.check hctx))))

theorem Handler.Restyled.check {c c' : Handler} : Handler.Restyled s shared c c' →
    ∀ {ctx ctx' : Context}, ctx.Restyled s shared ctx' →
      Parallel s shared Eq (c.check ctx) (c'.check ctx')
  | .none => fun _ => .pure rfl
  | @Handler.Restyled.catching _ _ _ n _ _ hb => fun hctx => by
    have hbound := Binding.restyled n.text (@Ty.restyled_any s shared) (hctx.line n.span.pos)
    exact (InStep.change fun h => (h.enter (Scope.restyled_ofKind .block)).declare hbound).seq
      ((hb.check hctx).seq (.change fun h => h.leave))

end

end Script
end Countersign
