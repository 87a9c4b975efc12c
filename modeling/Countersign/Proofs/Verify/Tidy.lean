/-
# Operations on tidy sessions

What a walk asks for and makes of types in a tidy environment is tidy: the plans of functions, what
is known of parts of values, what is demanded of them, and what several values have in common. And
where tidy types are bound, a session keeps a tidy environment.

Key definitions: `Context.Tidy`, `Hint.Tidy`, `Demand.Tidy`, `FunctionPlan.Tidy`.
Key theorems: `planFunction_tidy`, `Target.demand_tidy`, `Session.hoist_tidy`,
`Session.declareResult_tidy`.
-/
import Countersign.Proofs.Env.Tidy
import Countersign.Proofs.Verify.Course

namespace Countersign

namespace Verify

open Script (Expr Stmt Param NameSite DeclKind DeclList)

/-! ### Contexts, hints and demands -/

/-- The declared types are tidy: that of the exports, and the result of the function around. -/
structure Context.Tidy (ctx : Context) : Prop where
  declared : ∀ t ∈ ctx.declared, t.Tidy
  frame : ∀ f ∈ ctx.frame, ∀ t ∈ f.result, t.Tidy

/-- What is known of the value is a tidy type. -/
def Hint.Tidy (h : Hint) : Prop := ∀ t ∈ h.type, t.Tidy

theorem Hint.tidy_free : Hint.free.Tidy := nofun

/-- The demand is for a tidy type, if it is for one. -/
def Demand.Tidy (d : Demand) : Prop := d.hint.Tidy

namespace Demand

theorem tidy_free : Demand.free.Tidy := nofun

theorem tidy_loose : Demand.loose.Tidy := by
  rintro t ⟨⟩
  exact Ty.tidy_any

theorem tidy_derived : Demand.derived.Tidy := nofun

theorem tidy_fit {t : Ty} (h : t.Tidy) (name : String) : (Demand.fit t name).Tidy := by
  rintro u ⟨⟩
  exact h

/-- What counts once a value was compared with the demand. -/
theorem Tidy.given {d : Demand} (h : d.Tidy) {actual : Ty} (hactual : actual.Tidy) :
    (d.given actual).Tidy := by
  cases d with
  | free => exact hactual
  | «loose» => exact hactual
  | derived => exact hactual.widen
  | fit t name => exact h t rfl

end Demand

/-- What is assigned to is of a tidy type. -/
def Target.Tidy : Target → Prop
  | .field object _ _ => object.Tidy
  | _ => True

/-- The types in the plan of a function are tidy. -/
structure FunctionPlan.Tidy (plan : FunctionPlan) : Prop where
  receiver : ∀ t ∈ plan.receiver, t.Tidy
  params : ∀ t ∈ plan.params, t.Tidy
  result : ∀ t ∈ plan.result, t.Tidy
  type : plan.type.Tidy

theorem Context.Tidy.inside {ctx : Context} (h : ctx.Tidy) {plan : FunctionPlan}
    (hplan : plan.Tidy) (head : FunctionHead) : (ctx.inside (plan.frame head)).Tidy := by
  refine ⟨h.declared, ?_⟩
  rintro f ⟨⟩
  exact hplan.result

/-! ### Types of values -/

section Values

variable {env : Env}

theorem planFunction_tidy (henv : env.Tidy) (line : Nat) (head : FunctionHead)
    {declared : Option Ty} (h : ∀ t ∈ declared, t.Tidy) :
    (planFunction env line head declared).Tidy := by
  unfold planFunction
  dsimp only
  split
  · exact ⟨nofun, nofun, nofun, Ty.tidy_ofName _⟩
  · rename_i t
    have ht : t.Tidy := h t rfl
    split
    · exact ⟨nofun, nofun, nofun, ht⟩
    · split
      · exact ⟨nofun, nofun, nofun, Ty.tidy_ofName _⟩
      · rename_i signature hsignature
        have htidy := (henv.resolve ht).asFunction? hsignature
        split
        · refine ⟨fun u hu => ?_, fun u hu => ?_, ?_, ht⟩
          · obtain ⟨v, hv, rfl⟩ := Option.map_eq_some_iff.mp hu
            exact henv.resolve (htidy.receiver v hv)
          · obtain ⟨p, hp, rfl⟩ := List.mem_map.mp hu
            exact htidy.params p hp
          · rintro u ⟨⟩
            exact htidy.result
        · exact ⟨nofun, nofun, nofun, ht⟩

/-- The types that are known of the elements of an array are tidy. -/
structure ElementHints.Tidy (h : ElementHints) : Prop where
  items : ∀ t ∈ h.items, t.Tidy
  rest : ∀ t ∈ h.rest, t.Tidy

theorem elementHints_tidy (henv : env.Tidy) {expected : Option Ty}
    (h : ∀ t ∈ expected, t.Tidy) : (elementHints env expected).Tidy := by
  have hresolved : ∀ t ∈ expected.map env.resolve, t.Tidy := by
    intro t ht
    obtain ⟨u, hu, rfl⟩ := Option.map_eq_some_iff.mp ht
    exact henv.resolve (h u hu)
  unfold elementHints
  split
  · rename_i items htuple
    exact ⟨fun t ht => (hresolved _ htuple).child ht, nofun⟩
  · rename_i b t hgeneric
    refine ⟨nofun, fun u hu => ?_⟩
    dsimp only at hu
    split at hu
    · cases hu
      exact (hresolved _ hgeneric).child (List.mem_cons_of_mem _ (List.mem_singleton_self _))
    · cases hu
  · exact ⟨nofun, nofun⟩

/-- What several types have in common. -/
theorem joinMembers_tidy {members ts : List Ty} (hmembers : ∀ t ∈ members, t.Tidy)
    (h : ∀ t ∈ ts, t.Tidy) : (joinMembers members ts).Tidy := by
  induction ts generalizing members with
  | nil => exact Ty.tidy_unionOf hmembers
  | cons t ts ih =>
    have ht : t.widen.Tidy := (h t List.mem_cons_self).widen
    have hts : ∀ u ∈ ts, u.Tidy := fun u hu => h u (List.mem_cons_of_mem t hu)
    unfold joinMembers
    dsimp only
    split
    · exact ht
    · split
      · exact ih hmembers hts
      · refine ih (fun u hu => ?_) hts
        rcases List.mem_append.mp hu with hu | hu
        · exact hmembers u hu
        · rwa [List.mem_singleton.mp hu]

theorem join_tidy {ts : List Ty} (h : ∀ t ∈ ts, t.Tidy) : (join ts).Tidy :=
  joinMembers_tidy nofun h

theorem arrayType_tidy (hints : ElementHints) {expected : Option Ty} (h : ∀ t ∈ expected, t.Tidy)
    {types : List Ty} (htypes : ∀ t ∈ types, t.Tidy) : (hints.arrayType expected types).Tidy := by
  unfold ElementHints.arrayType
  split
  · exact Ty.tidy_of_children nofun htypes
  · split
    · exact Ty.Tidy.getD h (Ty.tidy_ofName _)
    · exact Ty.tidy_array (join_tidy htypes)

theorem propertyHint_tidy (henv : env.Tidy) {expected : Option Ty} (h : ∀ t ∈ expected, t.Tidy)
    (key : String) : (propertyHint env expected key).Tidy := by
  intro t ht
  unfold propertyHint at ht
  dsimp only at ht
  split at ht
  · cases ht
  · rename_i u hu
    cases ht
    split at hu
    · cases hu
    · rename_i v hv
      obtain ⟨w, hw, rfl⟩ := Option.map_eq_some_iff.mp hv
      split at hu
      · rename_i fs hfs
        exact ((henv.resolve (h w hw)).asObject? hfs).lookup hu
      · split at hu
        · cases hu
          exact Ty.tidy_any
        · cases hu

theorem sumType_tidy (left right : Ty) : (sumType left right).Tidy := by
  unfold sumType
  split
  · exact Ty.tidy_ofName _
  · split
    · exact Ty.tidy_any
    · exact Ty.tidy_ofName _

theorem argumentDemand_tidy {p : Option (Option String × Ty)} (h : ∀ q ∈ p, q.2.Tidy) :
    (argumentDemand p).Tidy := by
  cases p with
  | none => exact Demand.tidy_loose
  | some q => exact Demand.tidy_fit (h q rfl) _

theorem constructedType_tidy {signature : Option FunctionTy} (h : ∀ f ∈ signature, f.Tidy)
    (callee : Expr) : (constructedType signature callee).Tidy := by
  unfold constructedType
  split
  · exact Ty.Tidy.getD (h _ rfl).receiver Ty.tidy_any
  · split
    · split
      · exact Ty.tidy_ofName _
      · exact Ty.tidy_any
    · exact Ty.tidy_any

theorem headerType?_tidy (henv : env.Tidy) (ctx : Context) (name : String) :
    ∀ t ∈ ctx.headerType? env name, t.Tidy := by
  intro t ht
  unfold Context.headerType? at ht
  split at ht
  · obtain ⟨b, hb, rfl⟩ := Option.map_eq_some_iff.mp ht
    exact henv.lookupIn? hb
  · cases ht

theorem initialDemand_tidy {declared : Option Ty} (h : ∀ t ∈ declared, t.Tidy) (name : String) :
    (initialDemand declared name).Tidy := by
  cases declared with
  | none => exact Demand.tidy_derived
  | some t => exact Demand.tidy_fit (h t rfl) name

theorem returnDemand_tidy {ctx : Context} (h : ctx.Tidy) (env : Env) :
    (returnDemand ctx env).Tidy := by
  unfold returnDemand
  split
  · exact Demand.tidy_free
  · rename_i frame hframe
    split
    · exact Demand.tidy_loose
    · rename_i result hresult
      split
      · exact Demand.tidy_free
      · exact Demand.tidy_fit (h.frame frame hframe result hresult) _

end Values

/-! ### Demands on assigned values -/

section Demands

variable {ctx : Context} {s : Session}

theorem fieldDemand_tidy {fields : Option (List (String × Ty))}
    (h : ∀ fs ∈ fields, Ty.TidyFields fs) (text field : String) (line : Nat) (s : Session) :
    ((fieldDemand fields text field line).run s).1.Tidy := by
  unfold fieldDemand
  split
  · exact Demand.tidy_loose
  · rename_i fs
    split
    · rename_i t ht
      exact Demand.tidy_fit ((h fs rfl).lookup ht) field
    · exact Demand.tidy_loose

theorem tidy_pure {d : Demand} (h : d.Tidy) (s : Session) :
    ((pure d : Checking Demand).run s).1.Tidy := h

theorem tidy_look {f : Session → Checking Demand} (h : ((f s).run s).1.Tidy) :
    ((get >>= f).run s).1.Tidy := h

theorem exportPropertyDemand_tidy (hctx : ctx.Tidy) (hs : s.env.Tidy) (name : String)
    (line : Nat) : ((exportPropertyDemand ctx name line).run s).1.Tidy := by
  refine tidy_look ?_
  dsimp only
  split
  · rename_i fs hfs
    obtain ⟨t, ht, hobject⟩ := Option.bind_eq_some_iff.mp hfs
    obtain ⟨u, hu, rfl⟩ := Option.map_eq_some_iff.mp ht
    split
    · rename_i t ht
      exact Demand.tidy_fit (((hs.resolve (hctx.declared u hu)).asObject? hobject).lookup ht) name
    · exact Demand.tidy_fit Ty.tidy_any name
  · split
    · rename_i b hb
      exact Demand.tidy_fit (hs.lookupIn? hb) name
    · exact Demand.tidy_derived

/-- A demand after something may have been reported. -/
theorem tidy_first {b : Prop} [Decidable b] {d : Diagnostic} {m : Checking Demand}
    (hm : ∀ t, (m.run t).1.Tidy) (s : Session) :
    ((do
      if b then report d
      m : Checking Demand).run s).1.Tidy := by
  split
  · exact hm (s.report d)
  · exact hm s

theorem prototypeDemand_tidy (hs : s.env.Tidy) (ctor field : String) (line : Nat) :
    ((prototypeDemand ctx ctor field line).run s).1.Tidy := by
  refine tidy_first (tidy_first fun t => ?_) s
  split
  · exact Demand.tidy_free
  · rename_i u hu
    exact fieldDemand_tidy (fun fs hfs => (hs.instanceType? hu).asObject? hfs) _ _ _ t

theorem Target.demand_tidy {target : Target} (htarget : target.Tidy) (hctx : ctx.Tidy)
    (hs : s.env.Tidy) (line : Nat) : ((target.demand ctx line).run s).1.Tidy := by
  cases target with
  | name text =>
    refine tidy_look ?_
    split
    · exact Demand.tidy_loose
    · rename_i t ht
      obtain ⟨b, hb, rfl⟩ := Option.map_eq_some_iff.mp ht
      show (if b.type.isAny then Demand.free else .fit b.type text).Tidy
      split
      · exact Demand.tidy_free
      · exact Demand.tidy_fit (hs.lookup? hb) text
  | exports =>
    refine tidy_pure ?_ s
    split
    · rename_i t ht
      exact Demand.tidy_fit (hctx.declared t ht) _
    · exact Demand.tidy_derived
  | exportProperty key => exact exportPropertyDemand_tidy hctx hs key line
  | prototypeField ctor key => exact prototypeDemand_tidy hs ctor key line
  | field object text key =>
    exact fieldDemand_tidy (fun fs hfs => (hs.resolve htarget).asObject? hfs) _ _ _ s
  | other => exact Demand.tidy_loose

end Demands

/-! ### Operations on sessions -/

namespace Session

variable {s : Session}

theorem declare_tidy (h : s.env.Tidy) {b : Binding} (hb : b.type.Tidy) :
    (s.declare b).env.Tidy := by
  unfold declare
  split
  · rename_i henv
    exact h.modifyScope hb henv
  · exact h

theorem declareVar_tidy (h : s.env.Tidy) {b : Binding} (hb : b.type.Tidy) :
    (s.declareVar b).env.Tidy := by
  unfold declareVar
  split
  · rename_i henv
    exact h.modifyScope hb henv
  · exact h

theorem rebind_tidy (h : s.env.Tidy) (name : String) {t : Ty} (ht : t.Tidy) :
    (s.rebind name t).env.Tidy := by
  unfold rebind
  split
  · rename_i henv
    exact h.rebind? ht henv
  · exact h

theorem foldl_tidy {α : Type} {f : Session → α → Session} {as : List α}
    (hf : ∀ (s : Session), ∀ a ∈ as, s.env.Tidy → (f s a).env.Tidy) (h : s.env.Tidy) :
    (as.foldl f s).env.Tidy := by
  induction as generalizing s with
  | nil => exact h
  | cons a as ih =>
    exact ih (fun s b hb => hf s b (List.mem_cons_of_mem a hb)) (hf s a List.mem_cons_self h)

variable (ctx : Context)

theorem hoistFunction_tidy (h : s.env.Tidy) (site : NameSite) :
    (s.hoistFunction ctx site).env.Tidy := by
  unfold hoistFunction
  split
  · exact h
  · exact declareVar_tidy h (Ty.tidy_ofName _)

theorem hoist_tidy (h : s.env.Tidy) (ss : List Stmt) : (s.hoist ctx ss).env.Tidy :=
  foldl_tidy (fun _ site _ hs => hoistFunction_tidy ctx hs site)
    (foldl_tidy (fun _ _ _ hs =>
      declareVar_tidy hs (Ty.Tidy.getD (headerType?_tidy hs ctx _) Ty.tidy_any)) h)

theorem declareParams_tidy (h : s.env.Tidy) (ps : List Param) {ts : List Ty}
    (hts : ∀ t ∈ ts, t.Tidy) : (s.declareParams ctx ps ts).env.Tidy := by
  induction ps generalizing s ts with
  | nil => exact h
  | cons p ps ih =>
    refine ih (declare_tidy h ?_) fun t ht => hts t (List.mem_of_mem_tail ht)
    cases ts with
    | nil => exact Ty.tidy_any
    | cons t ts => exact hts t List.mem_cons_self

theorem enterFunction_tidy (h : s.env.Tidy) (head : FunctionHead) {plan : FunctionPlan}
    (hplan : plan.Tidy) (body : List Stmt) : (s.enterFunction ctx head plan body).env.Tidy :=
  hoist_tidy ctx (declareParams_tidy ctx (h.push (.ofFunction hplan.receiver)) _ hplan.params) body

theorem declareAs_tidy (h : s.env.Tidy) {kind : DeclKind} {b : Binding} (hb : b.type.Tidy)
    {env : Env} (henv : s.declareAs kind b = .ok env) : env.Tidy := by
  unfold declareAs at henv
  split at henv
  · exact h.modifyScope hb henv
  · exact h.modifyScope hb henv

theorem bindVariable_tidy (h : s.env.Tidy) (kind : DeclKind) {b : Binding} (hb : b.type.Tidy) :
    (s.bindVariable kind b).env.Tidy := by
  unfold bindVariable
  split
  · rename_i henv
    exact declareAs_tidy h hb henv
  · split
    · exact rebind_tidy h _ hb
    · exact h

theorem declareResult_tidy (h : s.env.Tidy) (kind : DeclKind) (name : String) (line : Nat)
    {type : Option Ty} (ht : ∀ t ∈ type, t.Tidy) :
    (s.declareResult kind name line type).env.Tidy := by
  unfold declareResult
  split
  · exact bindVariable_tidy h kind (ht _ rfl)
  · split
    · exact h
    · exact bindVariable_tidy h kind Ty.tidy_any

theorem declareKeys_tidy (h : s.env.Tidy) (l : DeclList) : (s.declareKeys ctx l).env.Tidy := by
  obtain ⟨span, kind, ds⟩ := l
  refine foldl_tidy (fun s d _ hs => ?_) h
  obtain ⟨span, name, init⟩ := d
  unfold declareKey
  dsimp only
  split
  · rename_i henv
    exact declareAs_tidy hs (Ty.tidy_ofName _) henv
  · exact rebind_tidy hs _ (Ty.tidy_ofName _)

end Session
end Verify
end Countersign
