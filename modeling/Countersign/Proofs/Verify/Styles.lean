/-
# Sessions in other quotes

Two verifications go side by side, of programs and headers that are the same but for their quotes. The
environments hold related types, and as many diagnostics have been reported, of the same kinds and on
the same lines; what these say of types may differ. Every operation on a session keeps two sessions so.

The strings of a header have contents that are shared between both programs and their headers. What is
known of a value bounds what strings its type can have: only where it is wanted with a type of its own
can it become a tuple, which holds strings of any content. So nothing that is bound to a name has other
strings than those of the headers.

Key definitions: `Session.Restyled`, `Context.Restyled`, `Demand.Restyled`, `Hint.Admits`, `Given`.
Key theorems: `mismatch?_marks`, `planFunction_restyled`, `Session.Restyled.hoist`,
`Session.Restyled.bindVariable`, `Session.Restyled.leaveFunction`.
-/
import Countersign.Proofs.Subtype.Styles
import Countersign.Proofs.Summary.Styles

namespace Countersign

/-- What a diagnostic says without its texts: its kind and its line. -/
def Diagnostic.mark (d : Diagnostic) : DiagnosticKind × Nat := (d.kind, d.line)

namespace Verify

open Script (Stmt Expr NameSite Param DeclKind Decl DeclList RestyledStmts RestyledDecls)
open Signature (textQuotes)
open Countersign.Ty (RestyledUnder Told)

variable {s : String → Bool} {shared k : String → Prop}

/-! ### Contexts, hints and demands -/

/-- Frames of one function with related results. -/
structure Frame.Restyled (s : String → Bool) (shared : String → Prop) (f g : Frame) : Prop where
  name : f.name = g.name
  pos : f.pos = g.pos
  result : Option.Rel (Ty.Restyled s shared) f.result g.result

/-- Contexts that are the same but for the quotes in the declared types. -/
structure Context.Restyled (s : String → Bool) (shared : String → Prop) (ctx ctx' : Context) :
    Prop where
  lines : ctx.lines = ctx'.lines
  policy : ctx.policy = ctx'.policy
  summary : ctx.summary = ctx'.summary
  declared : Option.Rel (Ty.Restyled s shared) ctx.declared ctx'.declared
  frame : Option.Rel (Frame.Restyled s shared) ctx.frame ctx'.frame

theorem Context.Restyled.line {ctx ctx' : Context} (h : ctx.Restyled s shared ctx') (pos : Nat) :
    ctx.line pos = ctx'.line pos := congrArg (·.lineNumber pos) h.lines

/-- Related types are known of the value, under one name. -/
structure Hint.Restyled (s : String → Bool) (shared : String → Prop) (h h' : Hint) : Prop where
  type : Option.Rel (Ty.Restyled s shared) h.type h'.type
  name : h.name = h'.name

theorem Hint.restyled_free : Hint.free.Restyled s shared .free := ⟨.none, rfl⟩

theorem Hint.Restyled.part {h h' : Hint} (hh : h.Restyled s shared h') :
    h.part.Restyled s shared h'.part := ⟨hh.type, rfl⟩

/-- The type of a value of which this is known may have strings with the contents `k`: the shared
ones, and all others if the value is wanted with a type of its own. -/
structure Hint.Admits (shared k : String → Prop) (h : Hint) : Prop where
  shared : ∀ c, shared c → k c
  wide : (∀ t ∈ h.type, t.isAny = true) ∨ ∀ c, k c

theorem Hint.admits_free : Hint.free.Admits shared shared := ⟨fun _ => id, .inl nofun⟩

theorem Hint.admits_whatever (h : Hint) : h.Admits shared Whatever :=
  ⟨fun _ _ => trivial, .inr fun _ => trivial⟩

theorem Hint.Admits.part {h : Hint} (hh : h.Admits shared k) : h.part.Admits shared k :=
  ⟨hh.shared, hh.wide⟩

namespace Demand

/-- The demands are the same but for the quotes in the type that has to be fitted. -/
inductive Restyled (s : String → Bool) (shared : String → Prop) : Demand → Demand → Prop
  | free : Restyled s shared .free .free
  | «loose» : Restyled s shared .loose .loose
  | derived : Restyled s shared .derived .derived
  | fit {t u : Ty} (name : String) :
      t.Restyled s shared u → Restyled s shared (.fit t name) (.fit u name)

/-- The contents of strings in the type of a value that meets the demand. -/
def Contents (shared : String → Prop) : Demand → String → Prop
  | .fit _ _ => Whatever
  | _ => shared

/-- Whether the value counts with a type that has no loose strings. -/
def isFirm : Demand → Bool
  | .derived => true
  | .fit _ _ => true
  | _ => false

namespace Restyled

variable {d d' : Demand}

theorem hint (h : d.Restyled s shared d') : d.hint.Restyled s shared d'.hint := by
  cases h with
  | free => exact ⟨.none, rfl⟩
  | «loose» => exact ⟨.some Ty.restyled_any, rfl⟩
  | derived => exact ⟨.none, rfl⟩
  | fit name h => exact ⟨.some h, rfl⟩

theorem admits (h : d.Restyled s shared d') : d.hint.Admits shared (d.Contents shared) := by
  cases h with
  | free => exact Hint.admits_free
  | «loose» =>
    refine ⟨fun _ => id, .inl ?_⟩
    rintro t ⟨⟩
    rfl
  | derived => exact Hint.admits_free
  | fit name h => exact Hint.admits_whatever _

end Restyled
end Demand

/-- The types that an expression is given. A fixed expression has no loose strings. -/
structure Given (s : String → Bool) (shared : String → Prop) (fixed : Bool) (k : String → Prop)
    (t u : Ty) : Prop where
  told : Told s shared k t u
  fixed : fixed = true → t.Restyled s Whatever u

theorem Given.weaken {fixed fixed' : Bool} {k' : String → Prop} {t u : Ty}
    (h : Given s shared fixed k t u) (hfixed : fixed' = true → fixed = true)
    (hk : ∀ c, k c → k' c) : Given s shared fixed' k' t u :=
  ⟨h.told.mono hk, fun h' => h.fixed (hfixed h')⟩

theorem given_of_restyled {k' : String → Prop} {t u : Ty} (h : t.Restyled s k' u)
    (hk : ∀ c, k' c → k c) (fixed : Bool) : Given s shared fixed k t u :=
  ⟨.type (h.mono hk), fun _ => h.mono fun _ _ => trivial⟩

/-! ### What depends on types -/

section Looks

variable {env env' : Env}

/-- A value that does not fit is reported as before. -/
theorem mismatch?_marks (henv : env.Restyled s shared env') {a b e f : Ty}
    (h : Told s shared k a b) (he : e.Restyled s shared f) (x y : String) (line : Nat) :
    (mismatch? env x a e line).toList.map Diagnostic.mark =
      (mismatch? env' y b f line).toList.map Diagnostic.mark := by
  have hmarks : ∀ (env : Env) (x : String) (a e : Ty),
      (mismatch? env x a e line).toList.map Diagnostic.mark =
        if (env.isSubtype a e).isFit then [] else [(.typeClassMismatch, line)] := by
    intro env x a e
    unfold mismatch?
    dsimp only
    cases env.isSubtype a e with
    | differs m =>
      dsimp only
      split <;> rfl
    | _ => rfl
  rw [hmarks, hmarks, h.isFit henv he]

theorem headerType?_restyled (henv : env.Restyled s shared env') {ctx ctx' : Context}
    (hctx : ctx.Restyled s shared ctx') (name : String) :
    Option.Rel (Ty.Restyled s shared) (ctx.headerType? env name) (ctx'.headerType? env' name) := by
  have hframe := hctx.frame
  unfold Context.headerType?
  generalize ctx.frame = f at hframe ⊢
  generalize ctx'.frame = f' at hframe ⊢
  cases hframe with
  | none => exact rel_map (henv.lookupIn? .header name) fun _ _ hb => hb.type
  | some _ => exact .none

theorem isConstructor_restyled (henv : env.Restyled s shared env') {ctx ctx' : Context}
    (hctx : ctx.Restyled s shared ctx') (name : String) :
    ctx.isConstructor env name = ctx'.isConstructor env' name := by
  have hreceiver := henv.receiverOf name
  unfold Context.isConstructor
  dsimp only
  rw [hctx.summary]
  generalize ((env.lookup? name).bind (·.type.asFunction?)).bind (·.receiver) = t at hreceiver ⊢
  generalize ((env'.lookup? name).bind (·.type.asFunction?)).bind (·.receiver) = u at hreceiver ⊢
  cases hreceiver with
  | none => rfl
  | some h => rw [Option.bind_some, Option.bind_some, h.literalName]

theorem isOptional_restyled {t u : Ty} (h : t.Restyled s k u) : isOptional t = isOptional u := by
  have hadmits := h.admitsUndefined
  rw [h.eq] at hadmits ⊢
  cases t <;> simp_all [isOptional]

theorem missingFields_restyled (henv : env.Restyled s shared env') {ctx ctx' : Context}
    (hctx : ctx.Restyled s shared ctx') (ctor : String) :
    ctx.missingFields env ctor = ctx'.missingFields env' ctor := by
  have hfields := rel_getD (rel_bind (henv.instanceType? ctor) fun _ _ h => h.asObject?)
    (List.Forall₂.nil (R := RestyledUnder s shared))
  have hprovides : ∀ field, ctx.provides ctor field = ctx'.provides ctor field := by
    intro field
    rw [Context.provides, Context.provides, hctx.summary]
  unfold Context.missingFields
  dsimp only
  generalize ((env.instanceType? ctor).bind (·.asObject?)).getD [] = fs at hfields ⊢
  generalize ((env'.instanceType? ctor).bind (·.asObject?)).getD [] = gs at hfields ⊢
  induction hfields with
  | nil => rfl
  | cons hfg _ ih =>
    rw [List.filter_cons, List.filter_cons, isOptional_restyled hfg.2, hfg.1, hprovides]
    split
    · rw [List.map_cons, List.map_cons, hfg.1, ih]
    · exact ih

/-- Plans that are the same but for the quotes in their types. -/
structure FunctionPlan.Restyled (s : String → Bool) (shared : String → Prop)
    (p q : FunctionPlan) : Prop where
  errors : p.errors.map Diagnostic.mark = q.errors.map Diagnostic.mark
  visits : p.visits = q.visits
  receiver : Option.Rel (Ty.Restyled s shared) p.receiver q.receiver
  params : List.Forall₂ (Ty.Restyled s shared) p.params q.params
  result : Option.Rel (Ty.Restyled s shared) p.result q.result
  type : p.type.Restyled s shared q.type

theorem Context.Restyled.inside {ctx ctx' : Context} (h : ctx.Restyled s shared ctx')
    {p q : FunctionPlan} (hplan : p.Restyled s shared q) (head : FunctionHead) :
    Context.Restyled s shared { ctx with frame := some (p.frame head) }
      { ctx' with frame := some (q.frame head) } :=
  { h with frame := .some ⟨rfl, rfl, hplan.result⟩ }

theorem planFunction_restyled (henv : env.Restyled s shared env') {line line' : Nat}
    (hline : line = line') (head : FunctionHead) {t u : Option Ty}
    (h : Option.Rel (Ty.Restyled s shared) t u) :
    (planFunction env line head t).Restyled s shared (planFunction env' line' head u) := by
  subst hline
  have hfunction : (Ty.ofName "Function").Restyled s shared (.ofName "Function") :=
    Ty.restyled_named rfl
  cases h with
  | none => exact ⟨rfl, rfl, .none, .nil, .none, hfunction⟩
  | @some t u h =>
    have hresolved := henv.resolve h
    have hsignature := hresolved.asFunction?
    unfold planFunction
    dsimp only
    rw [hresolved.isAny, congrFun hresolved.isBuiltin "Function"]
    split
    · exact ⟨rfl, rfl, .none, .nil, .none, h⟩
    · generalize (env.resolve t).asFunction? = f at hsignature ⊢
      generalize (env'.resolve u).asFunction? = g at hsignature ⊢
      cases hsignature with
      | none => exact ⟨rfl, rfl, .none, .nil, .none, hfunction⟩
      | some hfg =>
        dsimp only
        rw [FunctionTy.arity, FunctionTy.arity, hfg.params.length_eq]
        split
        · refine ⟨rfl, rfl, rel_map hfg.receiver fun _ _ ht => henv.resolve ht, ?_, .some hfg.result, h⟩
          exact Subtype.forall₂_map hfg.params fun _ _ hp => hp.2
        · refine ⟨?_, rfl, .none, .nil, .none, h⟩
          rfl

/-- What is known of the elements of an array, in related types. -/
structure ElementHints.Restyled (s : String → Bool) (shared : String → Prop)
    (h h' : ElementHints) : Prop where
  items : List.Forall₂ (Ty.Restyled s shared) h.items h'.items
  rest : Option.Rel (Ty.Restyled s shared) h.rest h'.rest
  isTuple : h.isTuple = h'.isTuple

theorem elementHints_restyled (henv : env.Restyled s shared env') {t u : Option Ty}
    (h : Option.Rel (Ty.Restyled s shared) t u) :
    (elementHints env t).Restyled s shared (elementHints env' u) := by
  cases h with
  | none => exact ⟨.nil, .none, rfl⟩
  | @some t u h =>
    have hresolved := henv.resolve h
    unfold elementHints
    rw [Option.map_some, Option.map_some]
    generalize env.resolve t = x at hresolved ⊢
    generalize env'.resolve u = y at hresolved ⊢
    cases x with
    | tuple items =>
      obtain ⟨hsober, rfl⟩ := hresolved
      rw [Ty.restyle_tuple]
      exact ⟨Ty.restyled_all fun v hv => hsober.child hv, .none, rfl⟩
    | generic b args =>
      obtain ⟨b', rfl, hb, hargs⟩ := Env.Restyled.generic_parts hresolved
      cases args with
      | nil => exact ⟨.nil, .none, rfl⟩
      | cons arg args =>
        cases args with
        | nil =>
          cases hargs with
          | cons harg _ =>
            dsimp only [List.map_cons, List.map_nil]
            rw [hb.literalName]
            exact ⟨.nil, rel_ite (.some harg), rfl⟩
        | cons _ _ => exact ⟨.nil, .none, rfl⟩
    | _ =>
      rw [hresolved.eq]
      simp only [Ty.restyle_named, Ty.restyle_value, Ty.restyle_renamed, Ty.restyle_function,
        Ty.restyle_object, Ty.restyle_union, Ty.restyle_intersection, Ty.restyle_moduleExports]
      exact ⟨.nil, .none, rfl⟩

theorem eq_any_of_isAny {t : Ty} (h : t.isAny = true) : t = .any := by
  cases t with
  | named c =>
    obtain ⟨name, builtin⟩ := c
    obtain ⟨rfl, hname⟩ := Bool.and_eq_true_iff.mp (show (builtin && name == "Any") = true from h)
    rw [beq_iff_eq.mp hname]
    rfl
  | _ => cases h

/-- Nothing is known of elements of a value that may be anything. -/
theorem elementHints_wide {t : Option Ty} (h : ∀ u ∈ t, u.isAny = true) :
    elementHints env t = ⟨[], none, false⟩ := by
  cases t with
  | none => rfl
  | some t =>
    obtain rfl := eq_any_of_isAny (h t rfl)
    rfl

theorem propertyHint_restyled (henv : env.Restyled s shared env') {t u : Option Ty}
    (h : Option.Rel (Ty.Restyled s shared) t u) (key : String) :
    (propertyHint env t key).Restyled s shared (propertyHint env' u key) := by
  cases h with
  | none => exact Hint.restyled_free
  | @some t u h =>
    have hresolved := henv.resolve h
    have hobject := hresolved.asObject?
    unfold propertyHint
    rw [Option.map_some, Option.map_some]
    dsimp only
    rw [hresolved.isAny]
    generalize (env.resolve t).asObject? = fs at hobject ⊢
    generalize (env'.resolve u).asObject? = gs at hobject ⊢
    cases hobject with
    | none =>
      dsimp only
      cases (env'.resolve u).isAny with
      | true => exact ⟨.some Ty.restyled_any, rfl⟩
      | false => exact Hint.restyled_free
    | @some fs gs hfields =>
      have hlookup := RestyledUnder.lookup hfields key
      dsimp only
      generalize fs.lookup key = x at hlookup ⊢
      generalize gs.lookup key = y at hlookup ⊢
      cases hlookup with
      | none => exact Hint.restyled_free
      | some hxy => exact ⟨.some hxy, rfl⟩

/-- A property of a value that may be anything may be anything. -/
theorem propertyHint_wide {t : Option Ty} (h : ∀ u ∈ t, u.isAny = true) (key : String) :
    ∀ u ∈ (propertyHint env t key).type, u.isAny = true := by
  cases t with
  | none => exact nofun
  | some t =>
    obtain rfl := eq_any_of_isAny (h t rfl)
    rintro u ⟨⟩
    rfl

/-- What is known of a property admits what is known of the object. -/
theorem propertyHint_admits {hint : Hint} (h : hint.Admits shared k) (key : String) :
    (propertyHint env hint.type key).Admits shared k :=
  ⟨h.shared, h.wide.imp_left fun hwide => propertyHint_wide hwide key⟩

/-! #### Types of values -/

/-- What several types have in common, given what the first ones do. -/
theorem joinMembers_restyled {ms ns ts us : List Ty} (hms : List.Forall₂ (Ty.Restyled s k) ms ns)
    (h : List.Forall₂ (fun t u => t.widen.Restyled s k u.widen) ts us) :
    (joinMembers ms ts).Restyled s k (joinMembers ns us) := by
  induction h generalizing ms ns with
  | nil =>
    obtain ⟨hsober, rfl⟩ := Ty.restyled_all_iff.mp hms
    refine ⟨Ty.sober_unionOf hsober, ?_⟩
    rw [joinMembers, joinMembers]
    rcases ms with _ | ⟨m, _ | ⟨m', ms⟩⟩
    · rfl
    · rfl
    · exact (Ty.restyle_union s (m :: m' :: ms)).symm
  | @cons t u ts us htu _ ih =>
    have hany : (ms.any (·.source == t.widen.source)) = ns.any (·.source == u.widen.source) := by
      clear ih
      induction hms with
      | nil => rfl
      | cons hmn _ ih =>
        rw [List.any_cons, List.any_cons, ih]
        congr 1
        rw [Bool.eq_iff_iff, beq_iff_eq, beq_iff_eq, hmn.eq, htu.eq]
        exact (Ty.source_restyle_inj hmn.sober htu.sober).symm
    unfold joinMembers
    dsimp only
    rw [htu.isAny, hany]
    split
    · exact htu
    · split
      · exact ih hms
      · exact ih (List.rel_append hms (.cons htu .nil))

theorem join_restyled {ts us : List Ty} (h : List.Forall₂ (Told s shared k) ts us) :
    (join ts).Restyled s k (join us) := joinMembers_restyled .nil (h.imp fun _ _ htu => htu.widen)

theorem isText_restyled {t u : Ty} (h : Told s shared k t u) : isText t = isText u := by
  unfold isText
  rw [h.widen.literalName]

theorem sumType_restyled {t u t' u' : Ty} (h : Told s shared k t u) (h' : Told s shared k t' u') :
    (sumType t t').Restyled s shared (sumType u u') := by
  unfold sumType
  rw [isText_restyled h, isText_restyled h', h.isAny, h'.isAny]
  split
  · exact Ty.restyled_named rfl
  · split
    · exact Ty.restyled_any
    · exact Ty.restyled_named rfl

theorem requiredArgs_restyled {f g : FunctionTy} (h : f.Restyled s shared g) :
    requiredArgs f = requiredArgs g := by
  have hreverse := List.rel_reverse h.params
  unfold requiredArgs
  generalize f.params.reverse = ps at hreverse ⊢
  generalize g.params.reverse = qs at hreverse ⊢
  induction hreverse with
  | nil => rfl
  | cons hpq hrest ih =>
    rw [List.dropWhile_cons, List.dropWhile_cons, hpq.2.admitsUndefined]
    split
    · exact ih
    · rw [List.length_cons, List.length_cons, hrest.length_eq]

theorem callErrors_marks {f g : Option FunctionTy} (h : Option.Rel (FunctionTy.Restyled s shared) f g)
    (callee : String) (found line : Nat) :
    (callErrors f callee found line).map Diagnostic.mark =
      (callErrors g callee found line).map Diagnostic.mark := by
  cases h with
  | none => rfl
  | some h =>
    unfold callErrors
    dsimp only
    rw [FunctionTy.arity, FunctionTy.arity, h.params.length_eq, requiredArgs_restyled h]

theorem argumentDemand_restyled {p q : Option (Option String × Ty)}
    (h : Option.Rel (RestyledUnder s shared) p q) :
    (argumentDemand p).Restyled s shared (argumentDemand q) := by
  cases h with
  | none => exact .loose
  | @some p q h =>
    obtain ⟨name, t⟩ := p
    obtain ⟨name', u⟩ := q
    obtain ⟨rfl, htu⟩ := h
    exact .fit _ htu

theorem textQuotes_of_isBuiltinClass {name : String} (h : isBuiltinClass name = true) :
    textQuotes name = 0 := by
  have hall : ∀ n ∈ builtinClasses, textQuotes n = 0 := by decide +kernel
  exact hall name (List.contains_iff_mem.mp h)

theorem constructedType_restyled {f g : Option FunctionTy}
    (h : Option.Rel (FunctionTy.Restyled s shared) f g) {e e' : Expr}
    (he : e'.identText? = e.identText?) :
    (constructedType f e).Restyled s shared (constructedType g e') := by
  unfold constructedType
  cases h with
  | some h => exact rel_getD h.receiver Ty.restyled_any
  | none =>
    dsimp only
    rw [he]
    split
    · rename_i name _
      split
      · rename_i hname
        have hbuiltin := (Bool.and_eq_true_iff.mp (Bool.and_eq_true_iff.mp hname).1).1
        exact Ty.restyled_named (textQuotes_of_isBuiltinClass hbuiltin)
      · exact Ty.restyled_any
    · exact Ty.restyled_any

theorem initialDemand_restyled {t u : Option Ty} (h : Option.Rel (Ty.Restyled s shared) t u)
    (name : String) : (initialDemand t name).Restyled s shared (initialDemand u name) := by
  cases h with
  | none => exact .derived
  | some h => exact .fit name h

theorem returnDemand_restyled (henv : env.Restyled s shared env') {ctx ctx' : Context}
    (hctx : ctx.Restyled s shared ctx') :
    (returnDemand ctx env).Restyled s shared (returnDemand ctx' env') := by
  have hframe := hctx.frame
  unfold returnDemand
  generalize ctx.frame = f at hframe ⊢
  generalize ctx'.frame = f' at hframe ⊢
  cases hframe with
  | none => exact .free
  | @some f f' hf =>
    have hresult := hf.result
    dsimp only
    generalize f.result = t at hresult ⊢
    generalize f'.result = u at hresult ⊢
    cases hresult with
    | none => exact .loose
    | some htu =>
      dsimp only
      rw [(henv.resolve htu).isVoid]
      split
      · exact .free
      · exact .fit _ htu

theorem returnErrors_marks (henv : env.Restyled s shared env') {ctx ctx' : Context}
    (hctx : ctx.Restyled s shared ctx') (pos : Nat) {a b : Option Ty}
    (h : Option.Rel (Told s shared k) a b) :
    (returnErrors ctx env pos a).map Diagnostic.mark =
      (returnErrors ctx' env' pos b).map Diagnostic.mark := by
  have hframe := hctx.frame
  unfold returnErrors
  rw [hctx.summary, hctx.line]
  generalize ctx.frame = f at hframe ⊢
  generalize ctx'.frame = f' at hframe ⊢
  cases hframe with
  | none => rfl
  | @some f f' hf =>
    have hresult := hf.result
    dsimp only
    rw [hf.pos]
    generalize f.result = t at hresult ⊢
    generalize f'.result = u at hresult ⊢
    cases hresult with
    | none => rfl
    | some htu =>
      have hresolved := henv.resolve htu
      cases h with
      | some hab =>
        dsimp only
        rw [hresolved.isVoid, hab.admitsUndefined]
        split <;> rfl
      | none =>
        dsimp only
        rw [hresolved.admitsUndefined]
        split <;> rfl

end Looks

/-! ### Operations -/

/-- Sessions with related environments that have found the same, but for the texts in it. -/
structure Session.Restyled (s : String → Bool) (shared : String → Prop) (a b : Session) : Prop where
  env : a.env.Restyled s shared b.env
  errors : a.errors.map Diagnostic.mark = b.errors.map Diagnostic.mark
  exported : a.exported.isSome = b.exported.isSome
  properties : a.properties.isEmpty = b.properties.isEmpty
  untyped : a.untyped = b.untyped
  exportedCtors : a.exportedCtors = b.exportedCtors
  completedCtors : a.completedCtors = b.completedCtors
  pendingCtors : a.pendingCtors = b.pendingCtors

namespace Session
namespace Restyled

variable {a b : Session} {ctx ctx' : Context}

theorem typeOf? (h : a.Restyled s shared b) (name : String) :
    Option.Rel (Ty.Restyled s shared) (a.typeOf? name) (b.typeOf? name) :=
  rel_map (h.env.lookup? name) fun _ _ hb => hb.type

theorem foldl {α : Type} {f g : Session → α → Session}
    (hf : ∀ {a b : Session} (x : α), a.Restyled s shared b → (f a x).Restyled s shared (g b x))
    (xs : List α) (h : a.Restyled s shared b) :
    (xs.foldl f a).Restyled s shared (xs.foldl g b) := by
  induction xs generalizing a b with
  | nil => exact h
  | cons x xs ih => exact ih (hf x h)

/-! #### Reports -/

theorem reportAll (h : a.Restyled s shared b) {ds ds' : List Diagnostic}
    (hds : ds.map Diagnostic.mark = ds'.map Diagnostic.mark) :
    (a.reportAll ds).Restyled s shared (b.reportAll ds') := by
  refine { h with errors := ?_ }
  show (a.errors ++ ds).map _ = (b.errors ++ ds').map _
  rw [List.map_append, List.map_append, h.errors, hds]

theorem report (h : a.Restyled s shared b) {d d' : Diagnostic} (hd : d.mark = d'.mark) :
    (a.report d).Restyled s shared (b.report d') :=
  h.reportAll (congrArg (fun m => [m]) hd)

/-! #### Scopes and names -/

theorem enter (h : a.Restyled s shared b) {c c' : Scope} (hc : c.Restyled s shared c') :
    (a.enter c).Restyled s shared (b.enter c') := { h with env := h.env.push hc }

theorem leave (h : a.Restyled s shared b) : a.leave.Restyled s shared b.leave :=
  { h with env := h.env.pop }

theorem declare (h : a.Restyled s shared b) {x x' : Binding} (hx : x.Restyled s shared x') :
    (a.declare x).Restyled s shared (b.declare x') := by
  have hboth := h.env.declare hx
  unfold Session.declare
  generalize a.env.declare x = y at hboth ⊢
  generalize b.env.declare x' = y' at hboth ⊢
  cases hboth with
  | ok henv => exact { h with env := henv }
  | error _ => exact h

theorem declareVar (h : a.Restyled s shared b) {x x' : Binding} (hx : x.Restyled s shared x') :
    (a.declareVar x).Restyled s shared (b.declareVar x') := by
  have hboth := h.env.declareVar hx
  unfold Session.declareVar
  generalize a.env.declareVar x = y at hboth ⊢
  generalize b.env.declareVar x' = y' at hboth ⊢
  cases hboth with
  | ok henv => exact { h with env := henv }
  | error _ => exact h

theorem rebind (h : a.Restyled s shared b) (name : String) {t u : Ty}
    (htu : t.Restyled s shared u) : (a.rebind name t).Restyled s shared (b.rebind name u) := by
  have hboth := h.env.rebind? name htu
  unfold Session.rebind
  generalize a.env.rebind? name t = y at hboth ⊢
  generalize b.env.rebind? name u = y' at hboth ⊢
  cases hboth with
  | some henv => exact { h with env := henv }
  | none => exact h

theorem hoistVar (h : a.Restyled s shared b) (hctx : ctx.Restyled s shared ctx')
    (site : NameSite) : (a.hoistVar ctx site).Restyled s shared (b.hoistVar ctx' site) :=
  h.declareVar (Binding.restyled site.name
    (rel_getD (headerType?_restyled h.env hctx site.name) Ty.restyled_any) (hctx.line site.pos))

theorem hoistFunction (h : a.Restyled s shared b) (hctx : ctx.Restyled s shared ctx')
    (site : NameSite) : (a.hoistFunction ctx site).Restyled s shared (b.hoistFunction ctx' site) := by
  have hlookup := h.env.lookup? site.name
  unfold Session.hoistFunction
  generalize a.env.lookup? site.name = y at hlookup ⊢
  generalize b.env.lookup? site.name = y' at hlookup ⊢
  cases hlookup with
  | some _ => exact h
  | none =>
    have hfunction : (Ty.ofName "Function").Restyled s shared (.ofName "Function") :=
      Ty.restyled_named rfl
    have hdeclared := h.declareVar (Binding.restyled site.name hfunction (hctx.line site.pos))
    exact { hdeclared with untyped := congrArg (· ++ _) hdeclared.untyped }

/-- Related statements hoist the same names. -/
theorem hoist (h : a.Restyled s shared b) (hctx : ctx.Restyled s shared ctx') {ts ts' : List Stmt}
    (hts : RestyledStmts s shared ts ts') :
    (a.hoist ctx ts).Restyled s shared (b.hoist ctx' ts') := by
  unfold Session.hoist
  rw [hts.vars, hts.declaredFunctions]
  exact foldl (fun site hsite => hsite.hoistFunction hctx site) _
    (foldl (fun site hsite => hsite.hoistVar hctx site) _ h)

theorem enterBlock (h : a.Restyled s shared b) (hctx : ctx.Restyled s shared ctx')
    {ts ts' : List Stmt} (hts : RestyledStmts s shared ts ts') :
    (a.enterBlock ctx ts).Restyled s shared (b.enterBlock ctx' ts') :=
  (h.enter (Scope.restyled_ofKind .block)).hoist hctx hts

/-! #### Functions -/

theorem declareParams (h : a.Restyled s shared b) (hctx : ctx.Restyled s shared ctx')
    (ps : List Param) {ts us : List Ty} (htu : List.Forall₂ (Ty.Restyled s shared) ts us) :
    (a.declareParams ctx ps ts).Restyled s shared (b.declareParams ctx' ps us) := by
  induction ps generalizing a b ts us with
  | nil => exact h
  | cons p ps ih =>
    cases htu with
    | nil => exact ih (h.declare (Binding.restyled _ Ty.restyled_any (hctx.line _))) .nil
    | cons ht hts => exact ih (h.declare (Binding.restyled _ ht (hctx.line _))) hts

theorem enterFunction (h : a.Restyled s shared b) (hctx : ctx.Restyled s shared ctx')
    (head : FunctionHead) {p q : FunctionPlan} (hplan : p.Restyled s shared q)
    {ts ts' : List Stmt} (hts : RestyledStmts s shared ts ts') :
    (a.enterFunction ctx head p ts).Restyled s shared (b.enterFunction ctx' head q ts') :=
  ((h.enter (Scope.restyled_ofFunction hplan.receiver)).declareParams hctx head.params
    hplan.params).hoist hctx hts

theorem leaveFunction (h : a.Restyled s shared b) (hctx : ctx.Restyled s shared ctx')
    (head : FunctionHead) {p q : FunctionPlan} (hplan : p.Restyled s shared q)
    (ts ts' : List Stmt) :
    (a.leaveFunction ctx head p ts).Restyled s shared (b.leaveFunction ctx' head q ts') := by
  have hresult := hplan.result
  unfold Session.leaveFunction
  generalize p.result = t at hresult ⊢
  generalize q.result = u at hresult ⊢
  cases hresult with
  | none => exact h.leave
  | @some t u htu =>
    have hleft := h.leave
    have hchecked : Restyled s shared
        { a.leave with checked := a.leave.checked ++ [⟨head.name, head.pos, t, ts⟩] }
        { b.leave with checked := b.leave.checked ++ [⟨head.name, head.pos, u, ts'⟩] } := { hleft with }
    dsimp only
    rw [(hleft.env.resolve htu).admitsUndefined, hctx.summary, hctx.line]
    split
    · exact hchecked.report rfl
    · exact hchecked

/-! #### Constructors -/

theorem checkFields (h : a.Restyled s shared b) (hctx : ctx.Restyled s shared ctx')
    (ctor : String) (line : Nat) :
    (a.checkFields ctx ctor line).Restyled s shared (b.checkFields ctx' ctor line) := by
  have hcompleted : Restyled s shared { a with completedCtors := a.completedCtors ++ [ctor] }
      { b with completedCtors := b.completedCtors ++ [ctor] } :=
    { h with completedCtors := congrArg (· ++ [ctor]) h.completedCtors }
  unfold Session.checkFields
  rw [missingFields_restyled h.env hctx]
  split
  · rwa [if_pos (h.completedCtors ▸ ‹_›)]
  · rw [if_neg (h.completedCtors ▸ ‹_›)]
    exact hcompleted.reportAll rfl

theorem checkPending (h : a.Restyled s shared b) (hctx : ctx.Restyled s shared ctx') :
    (a.checkPending ctx).Restyled s shared (b.checkPending ctx') := by
  unfold Session.checkPending
  rw [h.pendingCtors]
  exact foldl (fun c hc => hc.checkFields hctx c.1 c.2) _ h

theorem noteExport (h : a.Restyled s shared b) (hctx : ctx.Restyled s shared ctx')
    (name : String) (line : Nat) :
    (a.noteExport ctx name line).Restyled s shared (b.noteExport ctx' name line) := by
  have hexported : Restyled s shared { a with exportedCtors := a.exportedCtors ++ [name] }
      { b with exportedCtors := b.exportedCtors ++ [name] } :=
    { h with exportedCtors := congrArg (· ++ [name]) h.exportedCtors }
  unfold Session.noteExport
  rw [isConstructor_restyled h.env hctx]
  split
  · exact hexported.checkFields hctx name line
  · exact h

theorem noteDeclaration (h : a.Restyled s shared b) (hctx : ctx.Restyled s shared ctx')
    (name : String) (line : Nat) :
    (a.noteDeclaration ctx name line).Restyled s shared (b.noteDeclaration ctx' name line) := by
  have hpending : Restyled s shared { a with pendingCtors := a.pendingCtors ++ [(name, line)] }
      { b with pendingCtors := b.pendingCtors ++ [(name, line)] } :=
    { h with pendingCtors := congrArg (· ++ [(name, line)]) h.pendingCtors }
  have hdue : (ctx.isConstructor a.env name && !a.completedCtors.contains name) =
      (ctx'.isConstructor b.env name && !b.completedCtors.contains name) := by
    rw [isConstructor_restyled h.env hctx, h.completedCtors]
  unfold Session.noteDeclaration
  rw [hdue, hctx.summary]
  split
  · split
    · exact hpending
    · exact h.checkFields hctx name line
  · exact h

theorem noteValue (h : a.Restyled s shared b) (hctx : ctx.Restyled s shared ctx')
    (valueName : Option String) (line : Nat) :
    (a.noteValue ctx valueName line).Restyled s shared (b.noteValue ctx' valueName line) := by
  cases valueName with
  | none => exact h
  | some name => exact h.noteExport hctx name line

/-! #### Exports -/

/-- What the exports are given is no matter, only that they are. -/
theorem assignExports (h : a.Restyled s shared b) (hctx : ctx.Restyled s shared ctx') (t u : Ty)
    (line : Nat) : (a.assignExports ctx t line).Restyled s shared (b.assignExports ctx' u line) := by
  have hexported := h.exported
  unfold Session.assignExports
  rw [hctx.policy]
  cases hfirst : a.exported with
  | none =>
    rw [hfirst] at hexported
    rw [Option.isSome_eq_false_iff.mp hexported.symm |> Option.isNone_iff_eq_none.mp]
    exact { h with exported := rfl }
  | some previous =>
    rw [hfirst] at hexported
    obtain ⟨previous', hfirst'⟩ := Option.isSome_iff_exists.mp hexported.symm
    rw [hfirst']
    dsimp only
    split
    · exact h
    · exact h.report rfl

theorem unassignedExport? (h : a.Restyled s shared b) (hctx : ctx.Restyled s shared ctx') :
    Option.Rel (Ty.Restyled s shared) (ctx.unassignedExport? a) (ctx'.unassignedExport? b) := by
  unfold Context.unassignedExport?
  rw [h.exported, h.properties]
  split
  · exact .none
  · exact hctx.declared

/-! #### Variables -/

theorem declareAs (h : a.Restyled s shared b) (kind : DeclKind) {x x' : Binding}
    (hx : x.Restyled s shared x') :
    BothEnd (Binding.Restyled s shared) (Env.Restyled s shared) (a.declareAs kind x)
      (b.declareAs kind x') := by
  unfold Session.declareAs
  split
  · exact h.env.declare hx
  · exact h.env.declareVar hx

theorem bindVariable (h : a.Restyled s shared b) (kind : DeclKind) {x x' : Binding}
    (hx : x.Restyled s shared x') :
    (a.bindVariable kind x).Restyled s shared (b.bindVariable kind x') := by
  have hboth := h.declareAs kind hx
  unfold Session.bindVariable
  generalize a.declareAs kind x = y at hboth ⊢
  generalize b.declareAs kind x' = y' at hboth ⊢
  cases hboth with
  | ok henv => exact { h with env := henv }
  | error hold =>
    dsimp only
    rw [hold.type.isAny]
    split
    · rw [hx.name]
      exact h.rebind x'.name hx.type
    · rw [hx.line]
      exact h.reportAll (mismatch?_marks h.env (.type hx.type) hold.type _ _ _)

theorem declareResult (h : a.Restyled s shared b) (kind : DeclKind) (name : String) (line : Nat)
    {t u : Option Ty} (htu : Option.Rel (Ty.Restyled s shared) t u) :
    (a.declareResult kind name line t).Restyled s shared (b.declareResult kind name line u) := by
  unfold Session.declareResult
  cases htu with
  | some htu => exact h.bindVariable kind ⟨rfl, htu, rfl⟩
  | none =>
    dsimp only
    rw [rel_isSome (h.env.lookupLocal? name)]
    split
    · exact h
    · exact h.bindVariable kind ⟨rfl, Ty.restyled_any, rfl⟩

theorem declareKey (h : a.Restyled s shared b) (hctx : ctx.Restyled s shared ctx')
    (kind : DeclKind) (span : Span) (name : Script.Ident) (e e' : Option Expr) :
    (a.declareKey ctx kind (.mk span name e)).Restyled s shared
      (b.declareKey ctx' kind (.mk span name e')) := by
  have hkey : Ty.Restyled s shared (.ofName "String") (.ofName "String") := Ty.restyled_named rfl
  have hboth := h.declareAs kind (Binding.restyled name.text hkey (hctx.line span.pos))
  unfold Session.declareKey
  dsimp only
  generalize a.declareAs kind _ = y at hboth ⊢
  generalize b.declareAs kind _ = y' at hboth ⊢
  cases hboth with
  | ok henv => exact { h with env := henv }
  | error _ => exact h.rebind name.text hkey

theorem declareKeys (h : a.Restyled s shared b) (hctx : ctx.Restyled s shared ctx')
    (span : Span) (kind : DeclKind) {ds ds' : List Decl}
    (hds : RestyledDecls s shared ds ds') :
    (a.declareKeys ctx (.mk span kind ds)).Restyled s shared
      (b.declareKeys ctx' (.mk span kind ds')) := by
  show (ds.foldl (Session.declareKey ctx kind) a).Restyled s shared
    (ds'.foldl (Session.declareKey ctx' kind) b)
  induction ds generalizing a b ds' with
  | nil =>
    cases hds
    exact h
  | cons d ds ih =>
    cases hds with
    | cons _ hrest => exact ih (h.declareKey hctx kind _ _ _ _) hrest

end Restyled
end Session

theorem setField_isEmpty (fs : List (String × Ty)) (key : String) (t : Ty) :
    (Ty.setField fs key t).isEmpty = false := by
  unfold Ty.setField
  split
  · cases fs with
    | nil => contradiction
    | cons _ _ => rfl
  · exact List.isEmpty_eq_false_iff.mpr (List.append_ne_nil_of_right_ne_nil fs (List.cons_ne_nil _ _))

namespace Target

/-- The same is assigned to, a field of an object of related types among them. -/
inductive Restyled (s : String → Bool) (shared : String → Prop) : Target → Target → Prop
  | name (text : String) : Restyled s shared (.name text) (.name text)
  | exports : Restyled s shared .exports .exports
  | exportProperty (name : String) : Restyled s shared (.exportProperty name) (.exportProperty name)
  | prototypeField (ctor field : String) :
      Restyled s shared (.prototypeField ctor field) (.prototypeField ctor field)
  | field {t u : Ty} (text field : String) :
      Told s shared shared t u → Restyled s shared (.field t text field) (.field u text field)
  | other : Restyled s shared .other .other

/-- An assignment does the same, whatever the type of the value. -/
theorem Restyled.complete {a b : Session} (h : a.Restyled s shared b) {ctx ctx' : Context}
    (hctx : ctx.Restyled s shared ctx') {target target' : Target}
    (htarget : target.Restyled s shared target') (valueName : Option String) (t u : Ty)
    (line : Nat) :
    (target.complete ctx valueName t line a).Restyled s shared
      (target'.complete ctx' valueName u line b) := by
  cases htarget with
  | exports => exact (h.assignExports hctx t u line).noteValue hctx valueName line
  | exportProperty key =>
    have hadded : Session.Restyled s shared
        { a with properties := Ty.setField a.properties key t }
        { b with properties := Ty.setField b.properties key u } :=
      { h with properties := by rw [setField_isEmpty, setField_isEmpty] }
    exact hadded.noteValue hctx valueName line
  | _ => exact h

end Target

end Verify
end Countersign
