/-
# Operations that do not look at the account

The account of a session is what it reports and what it has exported. Nearly everything that is done
to a session goes on in the same way whatever the account is: it exports nothing, and it reports
diagnostics that no policy lets pass. What is left are assignments.

Key definitions: `Diagnostic.isPlain`, `Account`, `Session.Plain`.
Key theorems: `Session.Plain.agree`, `Session.Plain.trans`, `Session.Plain.foldl`.
-/
import Countersign.Verify
import Mathlib.Tactic

namespace Countersign

/-- Whether a diagnostic is reported under every policy. -/
def Diagnostic.isPlain (d : Diagnostic) : Bool :=
  d.kind != .reassigningModuleExports && d.kind != .prototypeAssignmentAfterExport

namespace Verify

/-- The same context under another policy. -/
def Context.under (ctx : Context) (p : ExportPolicy) : Context := { ctx with policy := p }

/-! ### Plain diagnostics -/

theorem isPlain_of_mem_singleton {d : Diagnostic} (h : d.isPlain = true) :
    ∀ e ∈ [d], e.isPlain = true := by
  intro e he
  rwa [List.mem_singleton.mp he]

theorem missingExport_plain (declared : Option Ty) (line : Nat) :
    ∀ d ∈ (declared.map (missingExport · line)).toList, d.isPlain = true := by
  intro d hd
  obtain ⟨t, -, rfl⟩ := Option.map_eq_some_iff.mp (Option.mem_toList.mp hd)
  rfl

theorem mismatch?_plain (env : Env) (described : String) (actual expected : Ty) (line : Nat) :
    ∀ d ∈ (mismatch? env described actual expected line).toList, d.isPlain = true := by
  intro d hd
  unfold mismatch? at hd
  dsimp only at hd
  split at hd
  · cases hd
  · split at hd <;> cases List.mem_singleton.mp hd <;> rfl
  · cases List.mem_singleton.mp hd
    rfl

theorem callErrors_plain (signature : Option FunctionTy) (callee : String) (found line : Nat) :
    ∀ d ∈ callErrors signature callee found line, d.isPlain = true := by
  intro d hd
  unfold callErrors at hd
  dsimp only at hd
  split at hd
  · cases hd
  · split at hd
    · exact isPlain_of_mem_singleton rfl d hd
    · split at hd
      · exact isPlain_of_mem_singleton rfl d hd
      · cases hd

theorem planFunction_plain (env : Env) (line : Nat) (head : FunctionHead) (declared : Option Ty) :
    ∀ d ∈ (planFunction env line head declared).errors, d.isPlain = true := by
  intro d hd
  unfold planFunction at hd
  dsimp only at hd
  split at hd
  · exact isPlain_of_mem_singleton rfl d hd
  · split at hd
    · cases hd
    · split at hd
      · exact isPlain_of_mem_singleton rfl d hd
      · split at hd
        · cases hd
        · refine isPlain_of_mem_singleton ?_ d hd
          unfold Diagnostic.isPlain
          dsimp only
          split <;> rfl

theorem returnErrors_plain (ctx : Context) (env : Env) (pos : Nat) (given : Option Ty) :
    ∀ d ∈ returnErrors ctx env pos given, d.isPlain = true := by
  intro d hd
  unfold returnErrors at hd
  dsimp only at hd
  split at hd
  · cases hd
  · split at hd
    · cases hd
    · split at hd
      · split at hd
        · exact isPlain_of_mem_singleton rfl d hd
        · cases hd
      · split at hd
        · exact isPlain_of_mem_singleton rfl d hd
        · cases hd

/-! ### Accounts -/

/-- What was reported and what was exported. -/
structure Account where
  errors : List Diagnostic
  exported : Option Ty
  properties : List (String × Ty)

namespace Account

/-- The account with more diagnostics. -/
def add (a : Account) (ds : List Diagnostic) : Account := { a with errors := a.errors ++ ds }

@[simp] theorem add_nil (a : Account) : a.add [] = a := by
  rw [add, List.append_nil]

@[simp] theorem add_add (a : Account) (ds ds' : List Diagnostic) :
    (a.add ds).add ds' = a.add (ds ++ ds') := by
  rw [add, add, add, List.append_assoc]

end Account

namespace Session

/-- The account of a session. -/
def account (s : Session) : Account := ⟨s.errors, s.exported, s.properties⟩

/-- The session with another account. -/
def withAccount (s : Session) (a : Account) : Session :=
  { s with errors := a.errors, exported := a.exported, properties := a.properties }

@[simp] theorem env_withAccount (s : Session) (a : Account) : (s.withAccount a).env = s.env := rfl

/-- An operation that, in one session, does not look at the account and adds only plain diagnostics
to it. -/
def PlainAt (f : Session → Session) (s : Session) : Prop :=
  ∃ ds : List Diagnostic, (∀ d ∈ ds, d.isPlain = true) ∧
    ∀ a, f (s.withAccount a) = (f s).withAccount (a.add ds)

/-- An operation that never looks at the account and adds only plain diagnostics to it. -/
def Plain (f : Session → Session) : Prop := ∀ s, PlainAt f s

namespace Plain

variable {f g : Session → Session} {s : Session}

/-- What a plain operation adds to the account. -/
theorem account (hf : Plain f) (s : Session) : ∃ ds : List Diagnostic,
    (∀ d ∈ ds, d.isPlain = true) ∧ (f s).account = s.account.add ds := by
  obtain ⟨ds, hds, hfs⟩ := hf s
  exact ⟨ds, hds, congrArg Session.account (hfs s.account)⟩

theorem silent (h : ∀ s a, f (s.withAccount a) = (f s).withAccount a) : Plain f :=
  fun s => ⟨[], fun _ hd => absurd hd List.not_mem_nil, fun a => by rw [h, Account.add_nil]⟩

theorem refl : Plain fun s => s := silent fun _ _ => rfl

/-- In a session, an operation does what a plain one does, whatever the account is. -/
theorem agree (hg : Plain g) (h : ∀ a, f (s.withAccount a) = g (s.withAccount a)) :
    PlainAt f s := by
  obtain ⟨ds, hds, hgs⟩ := hg s
  have hs : f s = g s := h s.account
  exact ⟨ds, hds, fun a => by rw [h, hgs, hs]⟩

theorem trans (hf : Plain f) (hg : Plain g) : Plain fun s => g (f s) := by
  intro s
  obtain ⟨ds, hds, hfs⟩ := hf s
  obtain ⟨ds', hds', hgs⟩ := hg (f s)
  refine ⟨ds ++ ds', ?_, fun a => ?_⟩
  · intro d hd
    rcases List.mem_append.mp hd with hd | hd
    · exact hds d hd
    · exact hds' d hd
  · dsimp only
    rw [hfs, hgs, Account.add_add]

theorem foldl {α : Type} {f : Session → α → Session} (h : ∀ a, Plain (f · a)) (as : List α) :
    Plain fun s => as.foldl f s := by
  induction as with
  | nil => exact refl
  | cons a as ih => exact (h a).trans ih

end Plain

/-! ### Operations -/

variable (ctx : Context)

theorem reportAll_plain {ds : List Diagnostic} (h : ∀ d ∈ ds, d.isPlain = true) :
    Plain (·.reportAll ds) := fun _ => ⟨ds, h, fun _ => rfl⟩

theorem enter_plain (scope : Scope) : Plain (·.enter scope) := .silent fun _ _ => rfl

theorem leave_plain : Plain leave := .silent fun _ _ => rfl

/-- Going on in another environment. -/
theorem env_plain (env : Env) : Plain fun s => { s with env := env } := .silent fun _ _ => rfl

theorem declare_plain (b : Binding) : Plain (·.declare b) := by
  intro s
  cases h : s.env.declare b with
  | ok env => exact (env_plain env).agree fun a => by simp only [declare, env_withAccount, h]
  | error old => exact Plain.refl.agree fun a => by simp only [declare, env_withAccount, h]

theorem declareVar_plain (b : Binding) : Plain (·.declareVar b) := by
  intro s
  cases h : s.env.declareVar b with
  | ok env => exact (env_plain env).agree fun a => by simp only [declareVar, env_withAccount, h]
  | error old => exact Plain.refl.agree fun a => by simp only [declareVar, env_withAccount, h]

theorem rebind_plain (name : String) (t : Ty) : Plain (·.rebind name t) := by
  intro s
  cases h : s.env.rebind? name t with
  | some env => exact (env_plain env).agree fun a => by simp only [rebind, env_withAccount, h]
  | none => exact Plain.refl.agree fun a => by simp only [rebind, env_withAccount, h]

theorem hoistVar_plain (site : Script.NameSite) : Plain (·.hoistVar ctx site) := by
  intro s
  let b : Binding := ⟨site.name, (ctx.headerType? s.env site.name).getD .any, ctx.line site.pos⟩
  exact (declareVar_plain b).agree fun _ => rfl

theorem hoistFunction_plain (site : Script.NameSite) : Plain (·.hoistFunction ctx site) := by
  intro s
  cases h : s.env.lookup? site.name with
  | some b => exact Plain.refl.agree fun a => by simp only [hoistFunction, env_withAccount, h]
  | none =>
    let b : Binding := ⟨site.name, .ofName "Function", ctx.line site.pos⟩
    have hnote : Plain fun s => { s with untyped := s.untyped ++ [site.pos] } :=
      .silent fun _ _ => rfl
    exact ((declareVar_plain b).trans hnote).agree fun a => by
      simp only [hoistFunction, env_withAccount, h, b]

theorem hoist_plain (ss : List Script.Stmt) : Plain (·.hoist ctx ss) :=
  (Plain.foldl (hoistVar_plain ctx) _).trans (.foldl (hoistFunction_plain ctx) _)

theorem declareParams_plain (ps : List Script.Param) (ts : List Ty) :
    Plain (·.declareParams ctx ps ts) := by
  induction ps generalizing ts with
  | nil => exact .refl
  | cons p ps ih => exact (declare_plain _).trans (ih ts.tail)

theorem enterFunction_plain (head : FunctionHead) (plan : FunctionPlan)
    (body : List Script.Stmt) : Plain (·.enterFunction ctx head plan body) :=
  ((enter_plain _).trans (declareParams_plain ctx _ _)).trans (hoist_plain ctx body)

theorem leaveFunction_plain (head : FunctionHead) (plan : FunctionPlan)
    (body : List Script.Stmt) : Plain (·.leaveFunction ctx head plan body) := by
  intro s
  cases hplan : plan.result with
  | none => exact leave_plain.agree fun a => by simp only [leaveFunction, hplan]
  | some result =>
    have hnote : Plain fun s =>
        { s with checked := s.checked ++ [⟨head.name, head.pos, result, body⟩] } :=
      .silent fun _ _ => rfl
    have hleave : ∀ a, (s.withAccount a).leave.env = s.leave.env := fun _ => rfl
    cases h : (ctx.summary.functionAt? head.pos).any (·.completion == .fallsThrough) &&
        !(s.leave.env.resolve result).admitsUndefined with
    | true =>
      let d := missingReturn head.name result (ctx.line head.pos)
      have hreport : Plain (·.reportAll [d]) := reportAll_plain (isPlain_of_mem_singleton rfl)
      exact ((leave_plain.trans hnote).trans hreport).agree fun a => by
        simp only [leaveFunction, hplan, hleave, h, if_true]
        rfl
    | false =>
      exact (leave_plain.trans hnote).agree fun a => by
        simp only [leaveFunction, hplan, hleave, h, Bool.false_eq_true, if_false]

theorem checkFields_plain (ctor : String) (line : Nat) : Plain (·.checkFields ctx ctor line) := by
  intro s
  have hcompleted : ∀ a, (s.withAccount a).completedCtors = s.completedCtors := fun _ => rfl
  cases h : s.completedCtors.contains ctor with
  | true =>
    exact Plain.refl.agree fun a => by
      simp only [checkFields, hcompleted, h, if_true]
  | false =>
    have hnote : Plain fun s => { s with completedCtors := s.completedCtors ++ [ctor] } :=
      .silent fun _ _ => rfl
    have hmissing : ∀ d ∈ (ctx.missingFields s.env ctor).map (missingField ctor · line),
        d.isPlain = true := by
      intro d hd
      obtain ⟨field, -, rfl⟩ := List.mem_map.mp hd
      rfl
    exact (hnote.trans (reportAll_plain hmissing)).agree fun a => by
      simp only [checkFields, hcompleted, h, env_withAccount]
      rfl

theorem checkPending_plain : Plain (·.checkPending ctx) := by
  intro s
  exact (Plain.foldl (fun c : String × Nat => checkFields_plain ctx c.1 c.2) s.pendingCtors).agree
    fun _ => rfl

theorem noteExport_plain (name : String) (line : Nat) : Plain (·.noteExport ctx name line) := by
  intro s
  cases h : ctx.isConstructor s.env name with
  | true =>
    have hnote : Plain fun s => { s with exportedCtors := s.exportedCtors ++ [name] } :=
      .silent fun _ _ => rfl
    exact (hnote.trans (checkFields_plain ctx name line)).agree fun a => by
      simp only [noteExport, env_withAccount, h, if_true]
  | false =>
    exact Plain.refl.agree fun a => by
      simp only [noteExport, env_withAccount, h, Bool.false_eq_true, if_false]

theorem noteValue_plain (valueName : Option String) (line : Nat) :
    Plain (·.noteValue ctx valueName line) := by
  cases valueName with
  | none => exact .refl
  | some name => exact noteExport_plain ctx name line

theorem noteDeclaration_plain (name : String) (line : Nat) :
    Plain (·.noteDeclaration ctx name line) := by
  intro s
  have hcompleted : ∀ a, (s.withAccount a).completedCtors = s.completedCtors := fun _ => rfl
  cases h : ctx.isConstructor s.env name && !s.completedCtors.contains name with
  | true =>
    cases hexport : (ctx.summary.exportOf? name).isSome with
    | true =>
      have hnote : Plain fun s => { s with pendingCtors := s.pendingCtors ++ [(name, line)] } :=
        .silent fun _ _ => rfl
      exact hnote.agree fun a => by
        simp only [noteDeclaration, env_withAccount, hcompleted, h, hexport, if_true]
    | false =>
      exact (checkFields_plain ctx name line).agree fun a => by
        simp only [noteDeclaration, env_withAccount, hcompleted, h, hexport, if_true,
          Bool.false_eq_true, if_false]
  | false =>
    exact Plain.refl.agree fun a => by
      simp only [noteDeclaration, env_withAccount, hcompleted, h, Bool.false_eq_true, if_false]

theorem bindVariable_plain (kind : Script.DeclKind) (b : Binding) :
    Plain (·.bindVariable kind b) := by
  intro s
  have hdeclare : ∀ a, (s.withAccount a).declareAs kind b = s.declareAs kind b := fun _ => rfl
  cases h : s.declareAs kind b with
  | ok env => exact (env_plain env).agree fun a => by simp only [bindVariable, hdeclare, h]
  | error old =>
    cases hany : old.type.isAny with
    | true =>
      exact (rebind_plain b.name b.type).agree fun a => by
        simp only [bindVariable, hdeclare, h, hany, if_true]
    | false =>
      exact (reportAll_plain (mismatch?_plain s.env _ b.type old.type b.line)).agree fun a => by
        simp only [bindVariable, hdeclare, h, hany, Bool.false_eq_true, if_false]
        rfl

theorem declareResult_plain (kind : Script.DeclKind) (name : String) (line : Nat)
    (type : Option Ty) : Plain (·.declareResult kind name line type) := by
  cases type with
  | some t => exact bindVariable_plain kind _
  | none =>
    intro s
    cases h : (s.env.lookupLocal? name).isSome || !kind.isBlockScoped with
    | true =>
      exact Plain.refl.agree fun a => by simp only [declareResult, env_withAccount, h, if_true]
    | false =>
      exact (bindVariable_plain kind ⟨name, .any, line⟩).agree fun a => by
        simp only [declareResult, env_withAccount, h, Bool.false_eq_true, if_false]

theorem declareKey_plain (kind : Script.DeclKind) (d : Script.Decl) :
    Plain (declareKey ctx kind · d) := by
  obtain ⟨span, name, init⟩ := d
  intro s
  have hdeclare : ∀ a b, (s.withAccount a).declareAs kind b = s.declareAs kind b :=
    fun _ _ => rfl
  cases h : s.declareAs kind ⟨name.text, .ofName "String", ctx.line span.pos⟩ with
  | ok env => exact (env_plain env).agree fun a => by simp only [declareKey, hdeclare, h]
  | error old =>
    exact (rebind_plain name.text (.ofName "String")).agree fun a => by
      simp only [declareKey, hdeclare, h]

theorem declareKeys_plain (l : Script.DeclList) : Plain (·.declareKeys ctx l) := by
  obtain ⟨span, kind, ds⟩ := l
  exact .foldl (declareKey_plain ctx kind) ds

theorem declareValue_plain (v : ValueStatement) : Plain (·.declareValue v) := by
  intro s
  cases h : s.env.declare ⟨v.name, v.type, v.line⟩ with
  | ok env => exact (env_plain env).agree fun a => by simp only [declareValue, env_withAccount, h]
  | error old =>
    exact (reportAll_plain (mismatch?_plain s.env v.name v.type old.type v.line)).agree
      fun a => by simp only [declareValue, env_withAccount, h]

end Session

/-! ### What is demanded of an assigned value -/

/-- In a session, an action gives `v` and does nothing but report `ds`, whatever the account is. -/
def Tells {α : Type} (m : Checking α) (s : Session) (v : α) (ds : List Diagnostic) : Prop :=
  ∀ a, m.run (s.withAccount a) = (v, s.withAccount (a.add ds))

namespace Tells

variable {α β : Type} {s : Session} {v : α} {w : β} {ds ds' : List Diagnostic}

theorem pure (v : α) (s : Session) : Tells (Pure.pure v) s v [] := fun a => by
  rw [Account.add_nil]
  rfl

theorem bind {m : Checking α} {f : α → Checking β} (hm : Tells m s v ds)
    (hf : Tells (f v) s w ds') : Tells (m >>= f) s w (ds ++ ds') := by
  intro a
  rw [StateT.run_bind, hm a, ← Account.add_add]
  exact hf (a.add ds)

theorem reportAll (ds : List Diagnostic) (s : Session) : Tells (Verify.reportAll ds) s () ds :=
  fun _ => rfl

theorem report (d : Diagnostic) (s : Session) : Tells (Verify.report d) s () [d] := fun _ => rfl

/-- What an action gives may be left aside. -/
theorem giving {m : Checking α} (hm : Tells m s v ds) (w : β) :
    Tells (m >>= fun _ => Pure.pure w) s w ds := by
  have hboth := hm.bind (f := fun _ => Pure.pure w) (.pure w s)
  rwa [List.append_nil] at hboth

/-- Something may be reported before. -/
theorem first {b : Prop} [Decidable b] {d : Diagnostic} {m : Checking α} (hm : Tells m s v ds) :
    Tells (do
      if b then Verify.report d
      m) s v ((if b then [d] else []) ++ ds) := by
  split
  · exact (report d s).bind hm
  · exact hm

/-- Looking at the session, but not at its account. -/
theorem look {f : Session → Checking α} (hf : Tells (f s) s v ds)
    (h : ∀ a, f (s.withAccount a) = f s) : Tells (get >>= f) s v ds := fun a => by
  rw [StateT.run_bind]
  show (f (s.withAccount a)).run _ = _
  rw [h]
  exact hf a

/-- The account of a session after an action. -/
theorem run {m : Checking α} (h : Tells m s v ds) :
    m.run s = (v, s.withAccount (s.account.add ds)) := h s.account

end Tells

/-- The type that counts once a value of type `actual` has been compared with the demand. -/
def Demand.given : Demand → Ty → Ty
  | .free, actual => actual
  | .loose, actual => actual
  | .derived, actual => actual.widen
  | .fit expected _, _ => expected

theorem Demand.settle_tells (d : Demand) (e : Script.Expr) (actual : Ty) (line : Nat)
    (s : Session) : ∃ ds : List Diagnostic, (∀ d ∈ ds, d.isPlain = true) ∧
      Tells (d.settle e actual line) s (d.given actual) ds := by
  cases d with
  | fit expected name =>
    unfold settle
    cases isFunction e with
    | true => exact ⟨[], fun _ hd => absurd hd List.not_mem_nil, .pure _ s⟩
    | false =>
      refine ⟨_, mismatch?_plain s.env (describe e actual) actual expected line, ?_⟩
      refine .look ?_ fun _ => rfl
      exact (Tells.reportAll _ s).giving expected
  | _ => exact ⟨[], fun _ hd => absurd hd List.not_mem_nil, .pure _ s⟩

/-- A demand after plain diagnostics. -/
def Asks (m : Checking Demand) (s : Session) : Prop :=
  ∃ d ds, (∀ d ∈ ds, d.isPlain = true) ∧ Tells m s d ds

namespace Asks

theorem pure (d : Demand) (s : Session) : Asks (Pure.pure d) s :=
  ⟨d, [], fun _ hd => absurd hd List.not_mem_nil, .pure d s⟩

theorem report {d : Diagnostic} (h : d.isPlain = true) (demand : Demand) (s : Session) :
    Asks (do Verify.report d; Pure.pure demand) s :=
  ⟨demand, [d], isPlain_of_mem_singleton h, (Tells.report d s).bind (.pure demand s)⟩

theorem look {f : Session → Checking Demand} {s : Session} (hf : Asks (f s) s)
    (h : ∀ a, f (s.withAccount a) = f s) : Asks (get >>= f) s := by
  obtain ⟨d, ds, hds, htells⟩ := hf
  exact ⟨d, ds, hds, htells.look h⟩

end Asks

theorem fieldDemand_asks (fields : Option (List (String × Ty))) (text field : String) (line : Nat)
    (s : Session) : Asks (fieldDemand fields text field line) s := by
  unfold fieldDemand
  split
  · exact .pure _ s
  · split
    · exact .pure _ s
    · exact .report rfl _ s

theorem exportPropertyDemand_asks (ctx : Context) (name : String) (line : Nat) (s : Session) :
    Asks (exportPropertyDemand ctx name line) s := by
  refine .look ?_ fun _ => rfl
  dsimp only
  split
  · split
    · exact .pure _ s
    · exact .report rfl _ s
  · split
    · exact .pure _ s
    · exact .pure _ s

/-- A demand that does not depend on the policy. Among plain diagnostics, the policy may let pass
that a prototype is late. -/
def AsksUnder (m : ExportPolicy → Checking Demand) (s : Session) : Prop :=
  ∃ (d : Demand) (before late after : List Diagnostic), (∀ d ∈ before, d.isPlain = true) ∧
    (∀ d ∈ late, d.kind = .prototypeAssignmentAfterExport) ∧ (∀ d ∈ after, d.isPlain = true) ∧
      ∀ p, Tells (m p) s d (before ++ ((if p.allowPrototypeAfterExport then [] else late) ++ after))

theorem Asks.under {m : Checking Demand} {s : Session} (h : Asks m s) :
    AsksUnder (fun _ => m) s := by
  obtain ⟨d, ds, hds, htells⟩ := h
  refine ⟨d, ds, [], [], hds, fun _ hd => absurd hd List.not_mem_nil,
    fun _ hd => absurd hd List.not_mem_nil, fun p => ?_⟩
  rwa [ite_self, List.append_nil, List.append_nil]

theorem prototypeDemand_asks (ctx : Context) (ctor field : String) (line : Nat) (s : Session) :
    AsksUnder (fun p => prototypeDemand (ctx.under p) ctor field line) s := by
  let late : Diagnostic :=
    { kind := .prototypeAssignmentAfterExport, line := line, fieldName := some field
      funcName := some ctor }
  have hfield : Asks ((s.env.instanceType? ctor).elim (pure .free) fun t =>
      fieldDemand t.asObject? (ctor ++ ".prototype") field line) s := by
    cases s.env.instanceType? ctor with
    | none => exact .pure _ s
    | some t => exact fieldDemand_asks _ _ _ _ s
  obtain ⟨d, ds, hds, htells⟩ := hfield
  refine ⟨d, if (s.env.lookup? ctor).isNone then [unknownName ctor line] else [],
    if s.exportedCtors.contains ctor then [late] else [], ds, ?_, ?_, hds, fun p => ?_⟩
  · intro e he
    split at he
    · exact isPlain_of_mem_singleton rfl e he
    · cases he
  · intro e he
    split at he
    · rw [List.mem_singleton.mp he]
    · cases he
  · refine .look (.first ?_) fun _ => rfl
    have hlate : (if p.allowPrototypeAfterExport then []
        else if s.exportedCtors.contains ctor then [late] else []) =
        if !p.allowPrototypeAfterExport && s.exportedCtors.contains ctor then [late] else [] := by
      cases p.allowPrototypeAfterExport <;> rfl
    rw [hlate]
    refine .first ?_
    revert htells
    cases s.env.instanceType? ctor with
    | none => exact id
    | some t => exact id

/-- The demand on an assigned value depends neither on the policy nor on the account. -/
theorem Target.demand_asks (target : Target) (ctx : Context) (line : Nat) (s : Session) :
    AsksUnder (fun p => target.demand (ctx.under p) line) s := by
  cases target with
  | name text =>
    refine Asks.under (.look ?_ fun _ => rfl)
    split
    · exact .report rfl _ s
    · exact .pure _ s
  | exports => exact Asks.under (m := Target.exports.demand ctx line) (.pure _ s)
  | exportProperty key => exact (exportPropertyDemand_asks ctx key line s).under
  | prototypeField ctor key => exact prototypeDemand_asks ctx ctor key line s
  | field object text key => exact (Asks.look (fieldDemand_asks _ _ _ _ s) fun _ => rfl).under
  | other => exact (Asks.pure _ s).under

/-- The exports of the module are given a type `t` after they had one. -/
def reassignment (previous t : Ty) (line : Nat) : Diagnostic :=
  { kind := .reassigningModuleExports, line := line, expected := some previous.className
    actual := some t.className }

theorem Session.assignExports_of_none {ctx : Context} {s : Session} (h : s.exported = none)
    (t : Ty) (line : Nat) :
    s.assignExports ctx t line = { s with exported := some (.moduleExports t) } := by
  rw [assignExports, h]

theorem Session.assignExports_of_some {ctx : Context} {s : Session} {previous : Ty}
    (h : s.exported = some previous) (t : Ty) (line : Nat) :
    s.assignExports ctx t line = s.withAccount (s.account.add
      (if ctx.policy.allowReassignment then [] else [reassignment previous t line])) := by
  rw [assignExports, h]
  cases hallow : ctx.policy.allowReassignment with
  | true => simp only [if_true, Account.add_nil]; rfl
  | false => rfl

end Verify
end Countersign
