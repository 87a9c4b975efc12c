/-
# What operations report and what they bind

Unknown names are reported where names are used, and missing fields where the fields of constructors
are checked. Nothing else reports either: all other diagnostics are ordinary ones. And whatever is
done to a session outside of entering and leaving scopes, every name that was known stays known.

Key definitions: `DiagnosticKind.isOrdinary`, `Session.Calm`, `Reports`, `Target.unknown`.
Key theorems: `Session.Binds.calm`, `Session.Binds.covers`, `Session.hoist_knows_var`,
`Session.hoist_knows_function`, `settle_reports`, `Target.demand_reports`.
-/
import Countersign.Proofs.Env.Covers
import Countersign.Proofs.Verify.Balance

namespace Countersign

/-- Whether diagnostics of the kind are neither about unknown names nor about missing fields. -/
def DiagnosticKind.isOrdinary (k : DiagnosticKind) : Bool :=
  k != .unknownIdentifier && k != .missingFieldInConstructor

namespace Verify

open Script (Stmt Param NameSite DeclKind Decl DeclList)

/-! ### Ordinary diagnostics -/

/-- All of the diagnostics are ordinary. -/
def Ordinary (ds : List Diagnostic) : Prop := ∀ d ∈ ds, d.kind.isOrdinary = true

theorem Ordinary.nil : Ordinary [] := fun _ hd => absurd hd List.not_mem_nil

theorem Ordinary.append {ds ds' : List Diagnostic} (h : Ordinary ds) (h' : Ordinary ds') :
    Ordinary (ds ++ ds') := fun d hd => (List.mem_append.mp hd).elim (h d) (h' d)

theorem Ordinary.singleton {d : Diagnostic} (h : d.kind.isOrdinary = true) : Ordinary [d] := by
  intro e he
  rwa [List.mem_singleton.mp he]

theorem mismatch?_ordinary (env : Env) (described : String) (actual expected : Ty) (line : Nat) :
    Ordinary (mismatch? env described actual expected line).toList := by
  unfold mismatch?
  dsimp only
  split
  · exact .nil
  · split <;> exact .singleton rfl
  · exact .singleton rfl

theorem callErrors_ordinary (signature : Option FunctionTy) (callee : String) (found line : Nat) :
    Ordinary (callErrors signature callee found line) := by
  unfold callErrors
  dsimp only
  split
  · exact .nil
  · split
    · exact .singleton rfl
    · split
      · exact .singleton rfl
      · exact .nil

theorem planFunction_ordinary (env : Env) (line : Nat) (head : FunctionHead)
    (declared : Option Ty) : Ordinary (planFunction env line head declared).errors := by
  unfold planFunction
  dsimp only
  split
  · exact .singleton rfl
  · split
    · exact .nil
    · split
      · exact .singleton rfl
      · split
        · exact .nil
        · refine .singleton ?_
          dsimp only
          split <;> exact rfl

theorem returnErrors_ordinary (ctx : Context) (env : Env) (pos : Nat) (given : Option Ty) :
    Ordinary (returnErrors ctx env pos given) := by
  unfold returnErrors
  dsimp only
  split
  · exact .nil
  · split
    · exact .nil
    · split
      · split
        · exact .singleton rfl
        · exact .nil
      · split
        · exact .singleton rfl
        · exact .nil

theorem missingExport_ordinary (declared : Option Ty) (line : Nat) :
    Ordinary (declared.map (missingExport · line)).toList := by
  cases declared with
  | none => exact .nil
  | some t => exact .singleton rfl

namespace Session

/-! ### Calm operations -/

/-- A session that was led on to another one, with ordinary diagnostics and without a word about
constructors. -/
structure Calm (s s' : Session) : Prop where
  errors : ∃ ds, Ordinary ds ∧ s'.errors = s.errors ++ ds
  completed : s'.completedCtors = s.completedCtors
  pending : s'.pendingCtors = s.pendingCtors

namespace Calm

variable {s s' s'' : Session}

/-- Nothing is reported. -/
theorem quiet (herrors : s'.errors = s.errors) (hcompleted : s'.completedCtors = s.completedCtors)
    (hpending : s'.pendingCtors = s.pendingCtors) : Calm s s' :=
  ⟨⟨[], .nil, by rw [herrors, List.append_nil]⟩, hcompleted, hpending⟩

theorem refl (s : Session) : Calm s s := quiet rfl rfl rfl

theorem trans (h : Calm s s') (h' : Calm s' s'') : Calm s s'' := by
  obtain ⟨ds, hds, herrors⟩ := h.errors
  obtain ⟨ds', hds', herrors'⟩ := h'.errors
  refine ⟨⟨ds ++ ds', hds.append hds', ?_⟩, h'.completed.trans h.completed,
    h'.pending.trans h.pending⟩
  rw [herrors', herrors, List.append_assoc]

end Calm

section Operations

variable (ctx : Context) (s : Session)

theorem reportAll_calm {ds : List Diagnostic} (h : Ordinary ds) : Calm s (s.reportAll ds) :=
  ⟨⟨ds, h, rfl⟩, rfl, rfl⟩

theorem enter_calm (scope : Scope) : Calm s (s.enter scope) := .quiet rfl rfl rfl

theorem leave_calm : Calm s s.leave := .quiet rfl rfl rfl

theorem Binds.calm {s s' : Session} (h : Binds s s') : Calm s s' := by
  induction h with
  | refl s => exact .refl s
  | trans _ _ ih ih' => exact ih.trans ih'
  | declared _ => exact .quiet rfl rfl rfl
  | rebound _ _ => exact .quiet rfl rfl rfl
  | noted s pos => exact .quiet rfl rfl rfl
  | mismatched s described actual expected line =>
    exact s.reportAll_calm (mismatch?_ordinary _ _ _ _ _)

theorem enterFunction_calm (head : FunctionHead) (plan : FunctionPlan) (body : List Stmt) :
    Calm s (s.enterFunction ctx head plan body) :=
  (s.enter_calm _).trans (s.enterFunction_binds ctx head plan body).calm

theorem leaveFunction_calm (head : FunctionHead) (plan : FunctionPlan) (body : List Stmt) :
    Calm s (s.leaveFunction ctx head plan body) := by
  unfold leaveFunction
  split
  · exact s.leave_calm
  · dsimp only
    split
    · exact ⟨⟨_, .singleton rfl, rfl⟩, rfl, rfl⟩
    · exact .quiet rfl rfl rfl

theorem assignExports_calm (t : Ty) (line : Nat) : Calm s (s.assignExports ctx t line) := by
  unfold assignExports
  split
  · exact .quiet rfl rfl rfl
  · split
    · exact .refl s
    · exact ⟨⟨_, .singleton rfl, rfl⟩, rfl, rfl⟩

end Operations

/-! ### Known names stay known -/

section Names

variable (ctx : Context) (s : Session)

theorem declareAs_covers {kind : DeclKind} {b : Binding} {env : Env}
    (h : s.declareAs kind b = .ok env) : s.env.Covers env := by
  unfold declareAs at h
  split at h
  · exact .modifyScope h
  · exact .modifyScope h

theorem Binds.covers {s s' : Session} (h : Binds s s') : s.env.Covers s'.env := by
  induction h with
  | refl s => exact .refl _
  | trans _ _ ih ih' => exact ih.trans ih'
  | declared henv => exact declareAs_covers _ henv
  | rebound _ henv => exact .rebind? henv
  | noted s pos => exact .refl _
  | mismatched s described actual expected line => exact .refl _

/-! ### What is bound is known -/

/-- A name is known after it was declared, even if that failed. -/
theorem declare_knows (b : Binding) : (s.declare b).env.Knows b.name := by
  unfold declare
  split
  · rename_i henv
    exact Env.modifyScope_knows henv
  · rename_i henv
    exact Env.knows_of_modifyScope henv

theorem declareVar_knows (b : Binding) : (s.declareVar b).env.Knows b.name := by
  unfold declareVar
  split
  · rename_i henv
    exact Env.modifyScope_knows henv
  · rename_i henv
    exact Env.knows_of_modifyScope henv

theorem hoistVar_knows (site : NameSite) : (s.hoistVar ctx site).env.Knows site.name :=
  s.declareVar_knows _

theorem hoistFunction_knows (site : NameSite) :
    (s.hoistFunction ctx site).env.Knows site.name := by
  unfold hoistFunction
  split
  · rename_i hknown
    rw [Env.Knows, hknown]
    rfl
  · exact s.declareVar_knows _

/-- Where each step binds a name, all of them are known after the last step. -/
theorem foldl_knows {α : Type} {f : Session → α → Session} (name : α → String)
    (hbinds : ∀ (s : Session) a, Binds s (f s a))
    (hknows : ∀ (s : Session) a, (f s a).env.Knows (name a)) {as : List α} {a : α} (ha : a ∈ as) :
    (as.foldl f s).env.Knows (name a) := by
  induction as generalizing s with
  | nil => cases ha
  | cons b as ih =>
    rcases List.mem_cons.mp ha with rfl | ha
    · exact (Binds.foldl hbinds as _).covers.knows (hknows s a)
    · exact ih _ ha

/-- All variables of the statements are known after hoisting. -/
theorem hoist_knows_var {ss : List Stmt} {site : NameSite} (h : site ∈ Script.varsOfStmts ss) :
    (s.hoist ctx ss).env.Knows site.name := by
  have hvars : ((Script.varsOfStmts ss).foldl (hoistVar ctx) s).env.Knows site.name :=
    s.foldl_knows NameSite.name (fun s _ => s.declareVar_binds _)
      (fun s site => s.hoistVar_knows ctx site) h
  exact (Binds.foldl (fun s site => s.hoistFunction_binds ctx site) _ _).covers.knows hvars

/-- All functions that the statements declare are known after hoisting. -/
theorem hoist_knows_function {ss : List Stmt} {site : NameSite}
    (h : site ∈ Script.declaredFunctions ss) : (s.hoist ctx ss).env.Knows site.name :=
  foldl_knows _ NameSite.name (fun s site => s.hoistFunction_binds ctx site)
    (fun s site => s.hoistFunction_knows ctx site) h

theorem declareParams_knows {ps : List Param} {ts : List Ty} {p : Param} (h : p ∈ ps) :
    (s.declareParams ctx ps ts).env.Knows p.name.text := by
  induction ps generalizing s ts with
  | nil => cases h
  | cons q ps ih =>
    rcases List.mem_cons.mp h with rfl | h
    · exact (declareParams_binds ctx _ ps ts.tail).covers.knows (s.declare_knows _)
    · exact ih _ h

end Names

@[simp] theorem reportAll_nil (s : Session) : s.reportAll [] = s := by
  rw [reportAll, List.append_nil]

@[simp] theorem reportAll_append (s : Session) (ds ds' : List Diagnostic) :
    (s.reportAll ds).reportAll ds' = s.reportAll (ds ++ ds') := by
  rw [reportAll, reportAll, reportAll, List.append_assoc]

end Session

/-! ### Actions that only report -/

/-- In a session, an action does nothing but report `ds` and then ordinary diagnostics. -/
def Reports {α : Type} (m : Checking α) (s : Session) (ds : List Diagnostic) : Prop :=
  ∃ ds', Ordinary ds' ∧ (m.run s).2 = s.reportAll (ds ++ ds')

namespace Reports

variable {α β : Type} {s : Session} {ds : List Diagnostic}

theorem pure (a : α) (s : Session) : Reports (Pure.pure a) s [] :=
  ⟨[], .nil, s.reportAll_nil.symm⟩

theorem look {f : Session → Checking α} (h : Reports (f s) s ds) : Reports (get >>= f) s ds := h

/-- An ordinary diagnostic is reported last. -/
theorem report {d : Diagnostic} (hd : d.kind.isOrdinary = true) (a : α) (s : Session) :
    Reports (do Verify.report d; Pure.pure a) s [] :=
  ⟨[d], .singleton hd, rfl⟩

/-- Something may be reported before. -/
theorem first {b : Prop} [Decidable b] {d : Diagnostic} {m : Checking α}
    (hm : ∀ t, Reports m t ds) :
    Reports (do
      if b then Verify.report d
      m) s ((if b then [d] else []) ++ ds) := by
  split
  · obtain ⟨ds', hds', hrun⟩ := hm (s.reportAll [d])
    refine ⟨ds', hds', ?_⟩
    rw [List.append_assoc, ← Session.reportAll_append]
    exact hrun
  · exact hm s

/-- Something ordinary may be reported before. -/
theorem firstOrdinary {b : Prop} [Decidable b] {d : Diagnostic} {m : Checking α}
    (hd : d.kind.isOrdinary = true) (hm : ∀ t, Reports m t []) :
    Reports (do
      if b then Verify.report d
      m) s [] := by
  split
  · obtain ⟨ds', hds', hrun⟩ := hm (s.reportAll [d])
    refine ⟨d :: ds', (Ordinary.singleton hd).append hds', hrun.trans ?_⟩
    rw [Session.reportAll_append]
    rfl
  · exact hm s

end Reports

theorem memberType_reports (object : Ty) (text field : String) (line : Nat) (s : Session) :
    Reports (memberType object text field line) s [] := by
  refine .look ?_
  dsimp only
  split
  · split
    · exact .pure _ s
    · exact .report rfl _ s
  · exact .pure _ s
  · exact .pure _ s

/-- The name is reported if it is not known. -/
def unknown (env : Env) (name : String) (line : Nat) : List Diagnostic :=
  if (env.lookup? name).isNone then [unknownName name line] else []

theorem nameType_reports (name : String) (line : Nat) (s : Session) :
    Reports (nameType name line) s (unknown s.env name line) := by
  refine .look ?_
  unfold Session.typeOf? unknown
  cases s.env.lookup? name with
  | none => exact ⟨[], .nil, rfl⟩
  | some b => exact .pure _ s

theorem settle_reports (d : Demand) (e : Script.Expr) (actual : Ty) (line : Nat) (s : Session) :
    Reports (d.settle e actual line) s [] := by
  cases d with
  | fit expected name =>
    show Reports (if _ then _ else _) s []
    split
    · exact ⟨_, mismatch?_ordinary s.env (describe e actual) actual expected line, rfl⟩
    · exact .pure _ s
  | _ => exact .pure _ s

theorem fieldDemand_reports (fields : Option (List (String × Ty))) (text field : String)
    (line : Nat) (s : Session) : Reports (fieldDemand fields text field line) s [] := by
  unfold fieldDemand
  split
  · exact .pure _ s
  · split
    · exact .pure _ s
    · exact .report rfl _ s

theorem exportPropertyDemand_reports (ctx : Context) (name : String) (line : Nat) (s : Session) :
    Reports (exportPropertyDemand ctx name line) s [] := by
  refine .look ?_
  dsimp only
  split
  · split
    · exact .pure _ s
    · exact .report rfl _ s
  · split
    · exact .pure _ s
    · exact .pure _ s

theorem prototypeDemand_reports (ctx : Context) (ctor field : String) (line : Nat) (s : Session) :
    Reports (prototypeDemand ctx ctor field line) s (unknown s.env ctor line) := by
  have hall : Reports (prototypeDemand ctx ctor field line) s
      ((if (s.env.lookup? ctor).isNone then [unknownName ctor line] else []) ++ []) := by
    refine Reports.first fun t => Reports.firstOrdinary rfl fun t' => ?_
    split
    · exact .pure _ t'
    · exact fieldDemand_reports _ _ _ _ t'
  rwa [List.append_nil] at hall

/-- What is reported about the name in a target, if it is not known. -/
def Target.unknown (env : Env) (line : Nat) : Target → List Diagnostic
  | .name text => Verify.unknown env text line
  | .prototypeField ctor _ => Verify.unknown env ctor line
  | _ => []

theorem Target.demand_reports (target : Target) (ctx : Context) (line : Nat) (s : Session) :
    Reports (target.demand ctx line) s (target.unknown s.env line) := by
  cases target with
  | name text =>
    show Reports _ s (Verify.unknown s.env text line)
    refine .look ?_
    unfold Session.typeOf? Verify.unknown
    cases s.env.lookup? text with
    | none => exact ⟨[], .nil, rfl⟩
    | some b => exact .pure _ s
  | exports => exact .pure _ s
  | exportProperty key => exact exportPropertyDemand_reports ctx key line s
  | prototypeField ctor key => exact prototypeDemand_reports ctx ctor key line s
  | field object text key => exact fieldDemand_reports _ _ _ _ s
  | other => exact .pure _ s

end Verify
end Countersign
