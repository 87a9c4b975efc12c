/-
# Walks from alike sessions

Two sessions are alike if they differ in nothing but the order in which their environments hold
names. Every operation on a session keeps two sessions alike, and every action gives the same
result in both. So two walks through one program that start alike report the same and end alike.

Key definitions: `Session.Alike`, `Agree`.
Key theorems: `Session.Alike.hoist`, `Target.demand_agree`, `Script.checkStmts_agree`.
-/
import Countersign.Verify.Walk
import Countersign.Proofs.Env.Alike
import Countersign.Proofs.Verify.Actions

namespace Countersign
namespace Verify

open Script (Stmt NameSite Param DeclKind Decl DeclList)

/-- Sessions that are the same but for the order in their environments. -/
inductive Session.Alike (s : Session) : Session → Prop
  | intro {env : Env} (h : s.env.Alike env) : Alike s { s with env := env }

/-! ### What depends on the environment -/

section Looks

variable {env env' : Env}

theorem mismatch?_alike (h : env.Alike env') : mismatch? env = mismatch? env' := by
  funext described actual expected line
  unfold mismatch?
  rw [h.isSubtype]

theorem headerType?_alike (h : env.Alike env') (ctx : Context) :
    ctx.headerType? env = ctx.headerType? env' := by
  funext name
  unfold Context.headerType?
  rw [h.lookupIn?]

theorem isConstructor_alike (h : env.Alike env') (ctx : Context) :
    ctx.isConstructor env = ctx.isConstructor env' := by
  funext name
  unfold Context.isConstructor
  rw [h.lookup?]

theorem missingFields_alike (h : env.Alike env') (ctx : Context) :
    ctx.missingFields env = ctx.missingFields env' := by
  funext ctor
  unfold Context.missingFields
  rw [h.instanceType?]

theorem planFunction_alike (h : env.Alike env') : planFunction env = planFunction env' := by
  funext line head declared
  unfold planFunction
  rw [h.resolve]

theorem elementHints_alike (h : env.Alike env') : elementHints env = elementHints env' := by
  funext expected
  unfold elementHints
  rw [h.resolve]

theorem propertyHint_alike (h : env.Alike env') : propertyHint env = propertyHint env' := by
  funext expected key
  unfold propertyHint
  rw [h.resolve]

theorem returnDemand_alike (h : env.Alike env') (ctx : Context) :
    returnDemand ctx env = returnDemand ctx env' := by
  unfold returnDemand
  rw [h.resolve]

theorem returnErrors_alike (h : env.Alike env') (ctx : Context) :
    returnErrors ctx env = returnErrors ctx env' := by
  funext pos given
  unfold returnErrors
  rw [h.resolve]

end Looks

/-! ### Operations -/

namespace Session
namespace Alike

variable {s s' : Session} (ctx : Context)

theorem env (h : Alike s s') : s.env.Alike s'.env := by
  obtain ⟨henv⟩ := h
  exact henv

theorem typeOf? (h : Alike s s') : s.typeOf? = s'.typeOf? := by
  funext name
  unfold Session.typeOf?
  rw [h.env.lookup?]

theorem foldl {α : Type} {f : Session → α → Session}
    (hf : ∀ {s s' : Session} (a : α), Alike s s' → Alike (f s a) (f s' a)) (as : List α)
    (h : Alike s s') : Alike (as.foldl f s) (as.foldl f s') := by
  induction as generalizing s s' with
  | nil => exact h
  | cons a as ih => exact ih (hf a h)

/-- An operation that has nothing to do with the environment. -/
theorem aside {f : Session → Session}
    (hf : ∀ (s : Session) (env : Env), f { s with env := env } = { f s with env := env })
    (h : Alike s s') : Alike (f s) (f s') := by
  obtain @⟨env, henv⟩ := h
  have hkept : (f s).env = s.env := by
    have hsame : f { s with env := s.env } = f s := rfl
    rw [← hsame, hf]
  have hother := hf s env
  rw [hother]
  exact ⟨hkept ▸ henv⟩

theorem reportAll (h : Alike s s') (ds : List Diagnostic) :
    Alike (s.reportAll ds) (s'.reportAll ds) := h.aside (f := (·.reportAll ds)) fun _ _ => rfl

theorem report (h : Alike s s') (d : Diagnostic) : Alike (s.report d) (s'.report d) :=
  h.reportAll [d]

theorem enter (h : Alike s s') (scope : Scope) : Alike (s.enter scope) (s'.enter scope) := by
  obtain ⟨henv⟩ := h
  exact ⟨henv.push scope⟩

theorem leave (h : Alike s s') : Alike s.leave s'.leave := by
  obtain ⟨henv⟩ := h
  exact ⟨henv.pop⟩

theorem declare (h : Alike s s') (b : Binding) : Alike (s.declare b) (s'.declare b) := by
  obtain ⟨henv⟩ := h
  have hboth := henv.declare b
  unfold Session.declare
  dsimp only
  generalize s.env.declare b = x at hboth ⊢
  generalize Env.declare _ b = x' at hboth ⊢
  cases hboth with
  | ok hdeclared => exact ⟨hdeclared⟩
  | error old => exact ⟨henv⟩

theorem declareVar (h : Alike s s') (b : Binding) : Alike (s.declareVar b) (s'.declareVar b) := by
  obtain ⟨henv⟩ := h
  have hboth := henv.declareVar b
  unfold Session.declareVar
  dsimp only
  generalize s.env.declareVar b = x at hboth ⊢
  generalize Env.declareVar _ b = x' at hboth ⊢
  cases hboth with
  | ok hdeclared => exact ⟨hdeclared⟩
  | error old => exact ⟨henv⟩

theorem rebind (h : Alike s s') (name : String) (t : Ty) :
    Alike (s.rebind name t) (s'.rebind name t) := by
  obtain ⟨henv⟩ := h
  have hboth := henv.rebind? name t
  unfold Session.rebind
  dsimp only
  generalize s.env.rebind? name t = x at hboth ⊢
  generalize Env.rebind? _ name t = x' at hboth ⊢
  cases hboth with
  | some hrebound => exact ⟨hrebound⟩
  | none => exact ⟨henv⟩

theorem hoistVar (h : Alike s s') (site : NameSite) :
    Alike (s.hoistVar ctx site) (s'.hoistVar ctx site) := by
  unfold Session.hoistVar
  rw [headerType?_alike h.env]
  exact h.declareVar _

theorem hoistFunction (h : Alike s s') (site : NameSite) :
    Alike (s.hoistFunction ctx site) (s'.hoistFunction ctx site) := by
  unfold Session.hoistFunction
  rw [h.env.lookup?]
  cases s'.env.lookup? site.name with
  | some _ => exact h
  | none =>
    have hdeclared := h.declareVar ⟨site.name, .ofName "Function", ctx.line site.pos⟩
    exact hdeclared.aside (f := fun s => { s with untyped := s.untyped ++ [site.pos] })
      fun _ _ => rfl

theorem hoist (h : Alike s s') (ss : List Stmt) : Alike (s.hoist ctx ss) (s'.hoist ctx ss) :=
  foldl (fun site hsite => hsite.hoistFunction ctx site) _
    (foldl (fun site hsite => hsite.hoistVar ctx site) _ h)

theorem enterBlock (h : Alike s s') (ss : List Stmt) :
    Alike (s.enterBlock ctx ss) (s'.enterBlock ctx ss) := (h.enter _).hoist ctx ss

theorem declareParams (h : Alike s s') (ps : List Param) (ts : List Ty) :
    Alike (s.declareParams ctx ps ts) (s'.declareParams ctx ps ts) := by
  induction ps generalizing s s' ts with
  | nil => exact h
  | cons p ps ih => exact ih (h.declare _) ts.tail

theorem enterFunction (h : Alike s s') (head : FunctionHead) (plan : FunctionPlan)
    (body : List Stmt) :
    Alike (s.enterFunction ctx head plan body) (s'.enterFunction ctx head plan body) :=
  ((h.enter _).declareParams ctx head.params plan.params).hoist ctx body

theorem leaveFunction (h : Alike s s') (head : FunctionHead) (plan : FunctionPlan)
    (body : List Stmt) :
    Alike (s.leaveFunction ctx head plan body) (s'.leaveFunction ctx head plan body) := by
  unfold Session.leaveFunction
  cases plan.result with
  | none => exact h.leave
  | some result =>
    have hnoted := h.leave.aside (f := fun s =>
      { s with checked := s.checked ++ [⟨head.name, head.pos, result, body⟩] }) fun _ _ => rfl
    dsimp only
    rw [h.leave.env.resolve]
    split
    · exact hnoted.report _
    · exact hnoted

theorem checkFields (h : Alike s s') (ctor : String) (line : Nat) :
    Alike (s.checkFields ctx ctor line) (s'.checkFields ctx ctor line) := by
  obtain ⟨henv⟩ := h
  unfold Session.checkFields
  dsimp only
  rw [missingFields_alike henv]
  split
  · exact ⟨henv⟩
  · exact ⟨henv⟩

theorem checkPending (h : Alike s s') : Alike (s.checkPending ctx) (s'.checkPending ctx) := by
  have hpending : s.pendingCtors = s'.pendingCtors := by
    obtain ⟨henv⟩ := h
    rfl
  unfold Session.checkPending
  rw [hpending]
  exact foldl (fun c hc => hc.checkFields ctx c.1 c.2) _ h

theorem noteExport (h : Alike s s') (name : String) (line : Nat) :
    Alike (s.noteExport ctx name line) (s'.noteExport ctx name line) := by
  have hexported := h.aside (f := fun s => { s with exportedCtors := s.exportedCtors ++ [name] })
    fun _ _ => rfl
  unfold Session.noteExport
  rw [isConstructor_alike h.env]
  split
  · exact hexported.checkFields ctx name line
  · exact h

theorem noteDeclaration (h : Alike s s') (name : String) (line : Nat) :
    Alike (s.noteDeclaration ctx name line) (s'.noteDeclaration ctx name line) := by
  obtain ⟨henv⟩ := h
  unfold Session.noteDeclaration
  rw [isConstructor_alike henv]
  split
  · split
    · exact ⟨henv⟩
    · exact checkFields ctx ⟨henv⟩ name line
  · exact ⟨henv⟩

theorem noteValue (h : Alike s s') (valueName : Option String) (line : Nat) :
    Alike (s.noteValue ctx valueName line) (s'.noteValue ctx valueName line) := by
  cases valueName with
  | none => exact h
  | some name => exact h.noteExport ctx name line

theorem assignExports (h : Alike s s') (t : Ty) (line : Nat) :
    Alike (s.assignExports ctx t line) (s'.assignExports ctx t line) := by
  have hsame : s.exported = s'.exported := by
    obtain ⟨henv⟩ := h
    rfl
  unfold Session.assignExports
  rw [hsame]
  cases s'.exported with
  | none =>
    exact h.aside (f := fun s => { s with exported := some (.moduleExports t) }) fun _ _ => rfl
  | some previous =>
    dsimp only
    split
    · exact h
    · exact h.report _

theorem complete (h : Alike s s') (valueName : Option String) (t : Ty) (line : Nat)
    (target : Target) :
    Alike (target.complete ctx valueName t line s) (target.complete ctx valueName t line s') := by
  cases target with
  | exports => exact (h.assignExports ctx t line).noteValue ctx valueName line
  | exportProperty key =>
    have hproperty := h.aside (f := fun s =>
      { s with properties := Ty.setField s.properties key t }) fun _ _ => rfl
    exact hproperty.noteValue ctx valueName line
  | _ => exact h

theorem declareAs (h : Alike s s') (kind : DeclKind) (b : Binding) :
    BothDo Env.Alike (s.declareAs kind b) (s'.declareAs kind b) := by
  unfold Session.declareAs
  split
  · exact h.env.declare b
  · exact h.env.declareVar b

theorem bindVariable (h : Alike s s') (kind : DeclKind) (b : Binding) :
    Alike (s.bindVariable kind b) (s'.bindVariable kind b) := by
  have hboth := h.declareAs kind b
  unfold Session.bindVariable
  rw [mismatch?_alike h.env]
  generalize s.declareAs kind b = x at hboth ⊢
  generalize s'.declareAs kind b = x' at hboth ⊢
  cases hboth with
  | ok hdeclared =>
    obtain ⟨-⟩ := h
    exact ⟨hdeclared⟩
  | error old =>
    dsimp only
    split
    · exact h.rebind b.name b.type
    · exact h.reportAll _

theorem declareResult (h : Alike s s') (kind : DeclKind) (name : String) (line : Nat)
    (type : Option Ty) :
    Alike (s.declareResult kind name line type) (s'.declareResult kind name line type) := by
  unfold Session.declareResult
  cases type with
  | some t => exact h.bindVariable kind _
  | none =>
    dsimp only
    rw [h.env.lookupLocal?]
    split
    · exact h
    · exact h.bindVariable kind _

theorem declareKey (h : Alike s s') (kind : DeclKind) (d : Decl) :
    Alike (s.declareKey ctx kind d) (s'.declareKey ctx kind d) := by
  obtain ⟨span, name, init⟩ := d
  have hboth := h.declareAs kind ⟨name.text, .ofName "String", ctx.line span.pos⟩
  unfold Session.declareKey
  dsimp only
  generalize s.declareAs kind _ = x at hboth ⊢
  generalize s'.declareAs kind _ = x' at hboth ⊢
  cases hboth with
  | ok hdeclared =>
    obtain ⟨-⟩ := h
    exact ⟨hdeclared⟩
  | error old => exact h.rebind name.text (.ofName "String")

theorem declareKeys (h : Alike s s') (l : DeclList) :
    Alike (s.declareKeys ctx l) (s'.declareKeys ctx l) := by
  obtain ⟨span, kind, ds⟩ := l
  exact foldl (fun d hd => hd.declareKey ctx kind d) ds h

theorem unassignedExport? (h : Alike s s') :
    ctx.unassignedExport? s = ctx.unassignedExport? s' := by
  obtain ⟨henv⟩ := h
  rfl

end Alike
end Session

/-! ### Actions -/

/-- The actions give the same in alike sessions, and leave them alike. -/
abbrev Agree {α : Type} (m m' : Checking α) : Prop := InStep Session.Alike Eq m m'

section Actions

variable (ctx : Context)

theorem Demand.settle_agree (d : Demand) (e : Script.Expr) (actual : Ty) (line : Nat) :
    Agree (d.settle e actual line) (d.settle e actual line) := by
  cases d with
  | fit expected name =>
    refine .ite (.look fun s s' h => ?_) (.pure rfl)
    rw [mismatch?_alike h.env]
    exact (InStep.reportAll fun h => h.reportAll _).next fun _ => .pure rfl
  | _ => exact .pure rfl

theorem memberType_agree (object : Ty) (text field : String) (line : Nat) :
    Agree (memberType object text field line) (memberType object text field line) := by
  refine .look fun s s' h => ?_
  dsimp only
  rw [h.env.resolve]
  split
  · split
    · exact .pure rfl
    · exact (InStep.report fun h => h.report _).next fun _ => .pure rfl
  · exact .pure rfl
  · exact .pure rfl

theorem nameType_agree (name : String) (line : Nat) :
    Agree (nameType name line) (nameType name line) := by
  refine .look fun s s' h => ?_
  rw [h.typeOf?]
  split
  · exact .pure rfl
  · exact (InStep.report fun h => h.report _).next fun _ => .pure rfl

theorem fieldDemand_agree (fields : Option (List (String × Ty))) (text field : String)
    (line : Nat) : Agree (fieldDemand fields text field line) (fieldDemand fields text field line) := by
  unfold fieldDemand
  split
  · exact .pure rfl
  · split
    · exact .pure rfl
    · exact (InStep.report fun h => h.report _).next fun _ => .pure rfl

theorem prototypeDemand_agree (ctor field : String) (line : Nat) :
    Agree (prototypeDemand ctx ctor field line) (prototypeDemand ctx ctor field line) := by
  refine .look fun s s' h => ?_
  have hexported : s.exportedCtors = s'.exportedCtors := by
    obtain ⟨henv⟩ := h
    rfl
  rw [h.env.lookup?, hexported, h.env.instanceType?]
  refine .reportIf (fun h => h.report _) (.reportIf (fun h => h.report _) ?_)
  dsimp only
  split
  · exact .pure rfl
  · exact fieldDemand_agree _ _ _ _

theorem exportPropertyDemand_agree (name : String) (line : Nat) :
    Agree (exportPropertyDemand ctx name line) (exportPropertyDemand ctx name line) := by
  refine .look fun s s' h => ?_
  dsimp only
  rw [h.env.resolve, h.env.lookupIn?]
  split
  · split
    · exact .pure rfl
    · exact (InStep.report fun h => h.report _).next fun _ => .pure rfl
  · split
    · exact .pure rfl
    · exact .pure rfl

theorem Target.demand_agree (target : Target) (line : Nat) :
    Agree (target.demand ctx line) (target.demand ctx line) := by
  cases target with
  | name text =>
    refine .look fun s s' h => ?_
    rw [h.typeOf?]
    split
    · exact (InStep.report fun h => h.report _).next fun _ => .pure rfl
    · exact .pure rfl
  | exports => exact .pure rfl
  | exportProperty key => exact exportPropertyDemand_agree ctx key line
  | prototypeField ctor key => exact prototypeDemand_agree ctx ctor key line
  | field object text key =>
    refine .look fun s s' h => ?_
    rw [h.env.resolve]
    exact fieldDemand_agree _ _ _ _
  | other => exact .pure rfl

end Actions

end Verify

/-! ### The walk through a program -/

namespace Script

open Verify

mutual

theorem Expr.infer_agree : ∀ (e : Expr) (ctx : Context) (hint : Hint),
    Agree (e.infer ctx hint) (e.infer ctx hint)
  | .ident _, _, _ => nameType_agree _ _
  | .string _, _, _ => .pure rfl
  | .number _, _, _ => .pure rfl
  | .regex _ _, _, _ => .pure rfl
  | .array _ es, ctx, hint => by
    refine .look fun s s' h => ?_
    rw [elementHints_alike h.env]
    exact (inferElements_agree es ctx _ _).next fun _ => .pure rfl
  | .object _ ps, ctx, hint => by
    refine .look fun s s' h => ?_
    dsimp only
    rw [propertyHint_alike h.env]
    exact (inferProperties_agree ps ctx _).next fun _ => .pure rfl
  | .member _ o n, ctx, hint => by
    refine .look fun s s' h => ?_
    rw [h.unassignedExport?]
    split
    · exact (InStep.report fun h => h.report _).next fun _ => .pure rfl
    · exact (o.infer_agree ctx .free).next fun _ => memberType_agree _ _ _ _
  | .index _ o i, ctx, _ =>
    (o.infer_agree ctx .free).discard.next fun _ =>
      (i.infer_agree ctx .free).discard.next fun _ => .pure rfl
  | .call _ c as, ctx, _ => by
    refine (c.infer_agree ctx .free).next fun callee => .look fun s s' h => ?_
    dsimp only
    rw [h.env.resolve]
    exact (InStep.reportAll fun h => h.reportAll _).next fun _ => (checkArgs_agree as ctx _).next fun _ => .pure rfl
  | .construct _ c _ as, ctx, _ => by
    refine (c.infer_agree ctx .free).next fun callee => .look fun s s' h => ?_
    dsimp only
    rw [h.env.resolve]
    exact (InStep.reportAll fun h => h.reportAll _).next fun _ => (checkArgs_agree as ctx _).next fun _ => .pure rfl
  | .paren _ e, ctx, hint => e.infer_agree ctx hint
  | .function _ _ _ b, ctx, _ => b.checkFunction_agree ctx _ _
  | .wordOp _ .delete e, ctx, _ => (e.infer_agree ctx .free).discard.next fun _ => .pure rfl
  | .wordOp _ .typeof e, ctx, _ => by
    refine .look fun s s' h => ?_
    rw [h.env.lookup?]
    exact .ite ((e.infer_agree ctx .free).discard.next fun _ => .pure rfl) (.pure rfl)
  | .wordOp _ .void e, ctx, _ => (e.infer_agree ctx .free).discard.next fun _ => .pure rfl
  | .before _ _ e, ctx, _ => (e.infer_agree ctx .free).discard.next fun _ => .pure rfl
  | .after _ e _, ctx, _ => (e.infer_agree ctx .free).discard.next fun _ => .pure rfl
  | .binary _ l op r, ctx, hint => by
    have hl := fun hint => l.infer_agree ctx hint
    have hr := fun hint => r.infer_agree ctx hint
    have hassign : ∀ (target : Target) (line : Nat), Agree
        (do
          let demand ← target.demand ctx line
          let actual ← r.infer ctx demand.hint
          let type ← demand.settle r actual line
          modify (target.complete ctx r.identText? type line)
          pure type)
        (do
          let demand ← target.demand ctx line
          let actual ← r.infer ctx demand.hint
          let type ← demand.settle r actual line
          modify (target.complete ctx r.identText? type line)
          pure type) := by
      intro target line
      refine (Target.demand_agree ctx target line).next fun demand => (hr _).next fun actual => ?_
      refine (demand.settle_agree r actual line).next fun type => ?_
      exact (InStep.change fun h => h.complete ctx _ type line target).next fun _ => .pure rfl
    unfold Expr.infer
    split
    · refine (l.target_agree ctx).next fun target => ?_
      split
      · exact (hl _).discard.next fun _ => hassign _ _
      · exact hassign _ _
    · exact (hl _).next fun _ => (hr _).next fun _ => .pure rfl
    · exact (hl _).discard.next fun _ => hr _
    · exact (hl _).discard.next fun _ => (hr _).discard.next fun _ => .pure rfl
    · exact (hl _).next fun _ => (hr _).next fun _ => .pure rfl
    · exact (hl _).discard.next fun _ => (hr _).discard.next fun _ => .pure rfl
  | .conditional _ t y n, ctx, hint =>
    (t.infer_agree ctx .free).discard.next fun _ =>
      (y.infer_agree ctx hint.part).next fun _ =>
        (n.infer_agree ctx hint.part).next fun _ => .pure rfl
  | .omitted _ _, _, _ => .pure rfl
  | .this _, _, _ => by
    refine .look fun s s' h => ?_
    rw [h.env.receiver?]
    exact .pure rfl
  | .null _, _, _ => .pure rfl
  | .boolean _ true, _, _ => .pure rfl
  | .boolean _ false, _, _ => .pure rfl
termination_by structural e => e

theorem Expr.target_agree : ∀ (e : Expr) (ctx : Context), Agree (e.target ctx) (e.target ctx)
  | .paren _ e, ctx => e.target_agree ctx
  | .ident _, _ => .pure rfl
  | .member _ o n, ctx => by
    unfold Expr.target
    split
    · exact .pure rfl
    · exact .pure rfl
    · exact .pure rfl
    · exact (o.infer_agree ctx .free).next fun _ => .pure rfl
  | .string _, _ => .pure rfl
  | .number _, _ => .pure rfl
  | .regex _ _, _ => .pure rfl
  | .array _ _, _ => .pure rfl
  | .object _ _, _ => .pure rfl
  | .index _ _ _, _ => .pure rfl
  | .call _ _ _, _ => .pure rfl
  | .construct _ _ _ _, _ => .pure rfl
  | .function _ _ _ _, _ => .pure rfl
  | .wordOp _ _ _, _ => .pure rfl
  | .before _ _ _, _ => .pure rfl
  | .after _ _ _, _ => .pure rfl
  | .binary _ _ _ _, _ => .pure rfl
  | .conditional _ _ _ _, _ => .pure rfl
  | .omitted _ _, _ => .pure rfl
  | .this _, _ => .pure rfl
  | .null _, _ => .pure rfl
  | .boolean _ _, _ => .pure rfl
termination_by structural e => e

theorem inferElements_agree : ∀ (es : List Expr) (ctx : Context) (items : List Ty)
    (rest : Option Ty), Agree (inferElements ctx items rest es) (inferElements ctx items rest es)
  | [], _, _, _ => .pure rfl
  | e :: es, ctx, _, _ =>
    (e.infer_agree ctx _).next fun _ => (inferElements_agree es ctx _ _).next fun _ => .pure rfl
termination_by structural es => es

theorem inferProperties_agree : ∀ (ps : List Property) (ctx : Context) (hint : String → Hint),
    Agree (inferProperties ctx hint ps) (inferProperties ctx hint ps)
  | [], _, _ => .pure rfl
  | .mk _ _ e :: ps, ctx, hint =>
    (e.infer_agree ctx _).next fun _ => (inferProperties_agree ps ctx hint).next fun _ => .pure rfl
termination_by structural ps => ps

theorem checkArgs_agree : ∀ (es : List Expr) (ctx : Context) (params : List (Option String × Ty)),
    Agree (checkArgs ctx params es) (checkArgs ctx params es)
  | [], _, _ => .pure rfl
  | e :: es, ctx, _ =>
    (e.infer_agree ctx _).next fun _ =>
      (Demand.settle_agree _ _ _ _).discard.next fun _ => checkArgs_agree es ctx _
termination_by structural es => es

theorem supply?_agree : ∀ (e : Option Expr) (ctx : Context) (demand : Demand) (line : Nat),
    Agree (supply? ctx demand line e) (supply? ctx demand line e)
  | none, _, _, _ => .pure rfl
  | some e, ctx, _, _ =>
    (e.infer_agree ctx _).next fun _ => (Demand.settle_agree _ _ _ _).map fun _ _ h => congrArg some h
termination_by structural e => e

theorem Block.checkFunction_agree : ∀ (b : Block) (ctx : Context) (head : FunctionHead)
    (declared : Option Ty),
    Agree (b.checkFunction ctx head declared) (b.checkFunction ctx head declared)
  | .mk span ss, ctx, head, declared => by
    refine .look fun s s' h => ?_
    dsimp only
    rw [planFunction_alike h.env]
    refine (InStep.reportAll fun h => h.reportAll _).next fun _ => .ite ?_ (.pure rfl)
    refine (InStep.change fun hs => hs.enterFunction _ head _ ss).next fun _ => ?_
    refine (checkStmts_agree ss _).next fun _ => ?_
    exact (InStep.change fun hs => hs.leaveFunction _ head _ ss).next fun _ => .pure rfl
termination_by structural b => b

theorem Stmt.check_agree : ∀ (s : Stmt) (ctx : Context), Agree (s.check ctx) (s.check ctx)
  | .declaration _ l, ctx => l.check_agree ctx
  | .function span n _ b, ctx => by
    refine .look fun s s' h => ?_
    have huntyped : s.untyped = s'.untyped := by
      obtain ⟨henv⟩ := h
      rfl
    dsimp only
    rw [h.typeOf?, huntyped]
    refine (b.checkFunction_agree ctx _ _).discard.next fun _ => .ite ?_ (.pure rfl)
    exact .change fun hs => hs.noteDeclaration ctx _ _
  | .block b, ctx => b.check_agree ctx
  | .empty _, _ => .pure rfl
  | .expression _ e, ctx => (e.infer_agree ctx .free).discard
  | .ifElse _ t y n, ctx =>
    (t.infer_agree ctx .free).discard.next fun _ =>
      (y.check_agree ctx).next fun _ => checkStmt?_agree n ctx
  | .doWhile _ b t, ctx => (b.check_agree ctx).next fun _ => (t.infer_agree ctx .free).discard
  | .whileDo _ t b, ctx => (t.infer_agree ctx .free).discard.next fun _ => b.check_agree ctx
  | .forLoop _ i t u b, ctx =>
    (InStep.change fun h => h.enter _).next fun _ =>
      (i.check_agree ctx).next fun _ =>
        (supply?_agree t ctx .free 0).discard.next fun _ =>
          (supply?_agree u ctx .free 0).discard.next fun _ =>
            (b.check_agree ctx).next fun _ => .change fun h => h.leave
  | .forIn _ i o b, ctx =>
    (InStep.change fun h => h.enter _).next fun _ =>
      (i.checkKeys_agree ctx).next fun _ =>
        (o.infer_agree ctx .free).discard.next fun _ =>
          (b.check_agree ctx).next fun _ => .change fun h => h.leave
  | .continueTo _ _, _ => .pure rfl
  | .breakTo _ _, _ => .pure rfl
  | .returnWith span v, ctx => by
    refine .look fun s s' h => ?_
    dsimp only
    rw [returnDemand_alike h.env, returnErrors_alike h.env]
    exact (supply?_agree v ctx _ _).next fun _ => .reportAll fun h => h.reportAll _
  | .switchOn _ e cs, ctx =>
    (e.infer_agree ctx .free).discard.next fun _ => checkClauses_agree cs ctx
  | .labeled _ _ b, ctx => b.check_agree ctx
  | .throwing _ e, ctx => (e.infer_agree ctx .free).discard
  | .tryCatch _ b c f, ctx =>
    (b.check_agree ctx).next fun _ => (c.check_agree ctx).next fun _ => checkBlock?_agree f ctx
  | .debugger _, _ => .pure rfl
termination_by structural s => s

theorem checkStmts_agree : ∀ (ss : List Stmt) (ctx : Context),
    Agree (checkStmts ctx ss) (checkStmts ctx ss)
  | [], _ => .pure rfl
  | s :: ss, ctx => (s.check_agree ctx).next fun _ => checkStmts_agree ss ctx
termination_by structural ss => ss

theorem checkStmt?_agree : ∀ (s : Option Stmt) (ctx : Context),
    Agree (checkStmt? ctx s) (checkStmt? ctx s)
  | none, _ => .pure rfl
  | some s, ctx => s.check_agree ctx
termination_by structural s => s

theorem Block.check_agree : ∀ (b : Block) (ctx : Context), Agree (b.check ctx) (b.check ctx)
  | .mk _ ss, ctx =>
    (InStep.change fun h => h.enterBlock ctx ss).next fun _ =>
      (checkStmts_agree ss ctx).next fun _ => .change fun h => h.leave
termination_by structural b => b

theorem checkBlock?_agree : ∀ (b : Option Block) (ctx : Context),
    Agree (checkBlock? ctx b) (checkBlock? ctx b)
  | none, _ => .pure rfl
  | some b, ctx => b.check_agree ctx
termination_by structural b => b

theorem DeclList.check_agree : ∀ (l : DeclList) (ctx : Context),
    Agree (l.check ctx) (l.check ctx)
  | .mk _ kind ds, ctx => checkDecls_agree ds ctx kind
termination_by structural l => l

theorem checkDecls_agree : ∀ (ds : List Decl) (ctx : Context) (kind : DeclKind),
    Agree (checkDecls ctx kind ds) (checkDecls ctx kind ds)
  | [], _, _ => .pure rfl
  | .mk _ _ init :: ds, ctx, kind => by
    refine .look fun s s' h => ?_
    dsimp only
    rw [headerType?_alike h.env]
    refine (supply?_agree init ctx _ _).next fun _ => ?_
    refine (InStep.change fun hs => hs.declareResult kind _ _ _).next fun _ => ?_
    exact checkDecls_agree ds ctx kind
termination_by structural ds => ds

theorem ForInit.check_agree : ∀ (i : ForInit) (ctx : Context), Agree (i.check ctx) (i.check ctx)
  | .none, _ => .pure rfl
  | .decls l, ctx => l.check_agree ctx
  | .expr e, ctx => (e.infer_agree ctx .free).discard
termination_by structural i => i

theorem ForInit.checkKeys_agree : ∀ (i : ForInit) (ctx : Context),
    Agree (i.checkKeys ctx) (i.checkKeys ctx)
  | .none, _ => .pure rfl
  | .decls l, ctx => .change fun h => h.declareKeys ctx l
  | .expr e, ctx => (e.infer_agree ctx .free).discard
termination_by structural i => i

theorem checkClauses_agree : ∀ (cs : List Clause) (ctx : Context),
    Agree (checkClauses ctx cs) (checkClauses ctx cs)
  | [], _ => .pure rfl
  | .mk _ t ss :: cs, ctx =>
    (supply?_agree t ctx .free 0).discard.next fun _ =>
      (InStep.change fun h => h.enterBlock ctx ss).next fun _ =>
        (checkStmts_agree ss ctx).next fun _ =>
          (InStep.change fun h => h.leave).next fun _ => checkClauses_agree cs ctx
termination_by structural cs => cs

theorem Handler.check_agree : ∀ (c : Handler) (ctx : Context), Agree (c.check ctx) (c.check ctx)
  | .none, _ => .pure rfl
  | .catching _ _ b, ctx =>
    (InStep.change fun h => (h.enter _).declare _).next fun _ =>
      (b.check_agree ctx).next fun _ => .change fun h => h.leave
termination_by structural c => c

end

end Script
end Countersign
