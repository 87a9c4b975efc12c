/-
# Policies only filter

A policy that allows more changes nothing but what is reported: of the diagnostics under the
stricter policy, those of the kinds that are newly allowed are gone, and everything else is the same.
Two walks under the two policies go through sessions that differ in nothing else.

Key definitions: `ExportPolicy.allows`, `newlyAllowed`, `Session.without`.
Key theorems: `Course.run_without`, `policy_only_filters`.
-/
import Countersign.Proofs.Verify.Courses
import Countersign.Script.Parse

namespace Countersign

/-- Whether a policy lets pass what a diagnostic of this kind would report. -/
def ExportPolicy.allows (p : ExportPolicy) : DiagnosticKind → Bool
  | .reassigningModuleExports => p.allowReassignment
  | .prototypeAssignmentAfterExport => p.allowPrototypeAfterExport
  | _ => false

/-- Whether a kind is allowed by the second policy and not by the first. -/
def newlyAllowed (p p' : ExportPolicy) (kind : DiagnosticKind) : Bool :=
  p'.allows kind && !p.allows kind

theorem newlyAllowed_of_isPlain (p p' : ExportPolicy) {d : Diagnostic} (h : d.isPlain = true) :
    newlyAllowed p p' d.kind = false := by
  obtain ⟨hreassigning, hprototype⟩ :
      d.kind ≠ .reassigningModuleExports ∧ d.kind ≠ .prototypeAssignmentAfterExport := by
    simpa [Diagnostic.isPlain] using h
  unfold newlyAllowed ExportPolicy.allows
  split
  · exact absurd ‹_› hreassigning
  · exact absurd ‹_› hprototype
  · rfl

/-- The diagnostics of all other kinds. -/
def without (drop : DiagnosticKind → Bool) (ds : List Diagnostic) : List Diagnostic :=
  ds.filter fun d => !drop d.kind

theorem without_append (drop : DiagnosticKind → Bool) (ds ds' : List Diagnostic) :
    without drop (ds ++ ds') = without drop ds ++ without drop ds' := List.filter_append _ _

theorem without_plain (p p' : ExportPolicy) {ds : List Diagnostic}
    (h : ∀ d ∈ ds, d.isPlain = true) : without (newlyAllowed p p') ds = ds := by
  refine List.filter_eq_self.mpr fun d hd => ?_
  rw [newlyAllowed_of_isPlain p p' (h d hd)]
  rfl

namespace Verify

/-- The session without the diagnostics of some kinds. -/
def Session.without (drop : DiagnosticKind → Bool) (s : Session) : Session :=
  { s with errors := Countersign.without drop s.errors }

/-- What is left of the diagnostics after more were added. -/
theorem Session.without_add (drop : DiagnosticKind → Bool) (s s' : Session)
    (ds : List Diagnostic) : (s'.withAccount (s.account.add ds)).without drop =
      s'.withAccount ((s.without drop).account.add (Countersign.without drop ds)) := by
  have herrors := without_append drop s.errors ds
  exact congrArg (fun errors => s'.withAccount ⟨errors, s.exported, s.properties⟩) herrors

/-! ### Operations that the policy plays no part in -/

theorem Session.declareParams_under (ctx : Context) (p : ExportPolicy) (s : Session)
    (ps : List Script.Param) (ts : List Ty) :
    s.declareParams (ctx.under p) ps ts = s.declareParams ctx ps ts := by
  induction ps generalizing s ts with
  | nil => rfl
  | cons q ps ih => exact ih _ _

theorem Session.enterFunction_under (ctx : Context) (p : ExportPolicy) (s : Session)
    (head : FunctionHead) (plan : FunctionPlan) (body : List Script.Stmt) :
    s.enterFunction (ctx.under p) head plan body = s.enterFunction ctx head plan body := by
  rw [enterFunction, declareParams_under]
  rfl

section TwoWalks

variable {p p' : ExportPolicy}

/-- A plain operation does the same whatever was reported before. -/
theorem Session.Plain.without {f : Session → Session} (hf : Plain f) (p p' : ExportPolicy)
    (s : Session) :
    f (s.without (newlyAllowed p p')) = (f s).without (newlyAllowed p p') := by
  obtain ⟨ds, hds, hfs⟩ := hf s
  have hs : f s = (f s).withAccount (s.account.add ds) := hfs s.account
  rw [hs, without_add, without_plain p p' hds]
  exact hfs (s.without _).account

theorem Tells.without {α : Type} {m : Checking α} {s : Session} {v : α} {ds : List Diagnostic}
    {drop : DiagnosticKind → Bool} (h : Tells m s v (Countersign.without drop ds)) :
    m.run (s.without drop) = (v, (s.withAccount (s.account.add ds)).without drop) := by
  rw [Session.without_add]
  exact h (s.without drop).account

/-- What is reported unless it is allowed. -/
theorem without_unless {kind : DiagnosticKind} {ds : List Diagnostic}
    (hds : ∀ d ∈ ds, d.kind = kind) (hallows : p.allows kind = true → p'.allows kind = true) :
    without (newlyAllowed p p') (if p.allows kind then [] else ds) =
      if p'.allows kind then [] else ds := by
  cases hp : p.allows kind with
  | true =>
    rw [hallows hp]
    rfl
  | false =>
    have hnew : ∀ d ∈ ds, newlyAllowed p p' d.kind = p'.allows kind := fun d hd => by
      rw [hds d hd, newlyAllowed, hp, Bool.not_false, Bool.and_true]
    cases hp' : p'.allows kind with
    | true => exact List.filter_eq_nil_iff.mpr fun d hd => by simp [hnew d hd, hp']
    | false => exact List.filter_eq_self.mpr fun d hd => by simp [hnew d hd, hp']

/-- What is wrong with a header is reported under every policy. -/
theorem Session.ofHeader_without (header : Header) (imports : List ImportedType) :
    (ofHeader header imports).without (newlyAllowed p p') = ofHeader header imports := by
  exact ((Plain.foldl declareValue_plain header.values).without p p' _).symm

theorem finish_without (ctx : Context) (exportLine : Nat) (s : Session) :
    finish (ctx.under p') exportLine (s.without (newlyAllowed p p')) =
      ⟨without (newlyAllowed p p') (finish (ctx.under p) exportLine s).errors,
        (finish (ctx.under p) exportLine s).exportsType⟩ := by
  let declared := ctx.unassignedExport? (s.checkPending ctx)
  let missing := (declared.map (missingExport · exportLine)).toList
  have hmissing : ∀ d ∈ missing, d.isPlain = true := missingExport_plain declared exportLine
  have hpending : (s.without (newlyAllowed p p')).checkPending (ctx.under p') =
      (s.checkPending ctx).without (newlyAllowed p p') :=
    (Session.checkPending_plain ctx).without p p' s
  have herrors : without (newlyAllowed p p') ((s.checkPending ctx).errors ++ missing) =
      without (newlyAllowed p p') (s.checkPending ctx).errors ++ missing := by
    rw [without_append, without_plain p p' hmissing]
  unfold finish
  rw [hpending]
  exact congrArg (Outcome.mk · _) herrors.symm

variable (hallows : ∀ kind, p.allows kind = true → p'.allows kind = true)

include hallows

theorem Target.demand_without (target : Target) (ctx : Context) (line : Nat) (s : Session) :
    ∃ d ds, (target.demand (ctx.under p) line).run s = (d, s.withAccount (s.account.add ds)) ∧
      (target.demand (ctx.under p') line).run (s.without (newlyAllowed p p')) =
        (d, (s.withAccount (s.account.add ds)).without (newlyAllowed p p')) := by
  obtain ⟨d, before, late, after, hbefore, hlate, hafter, htells⟩ := target.demand_asks ctx line s
  refine ⟨d, _, (htells p).run, Tells.without ?_⟩
  have hreports := without_unless hlate (hallows .prototypeAssignmentAfterExport)
  rw [without_append, without_append, without_plain p p' hbefore, without_plain p p' hafter]
  exact hreports ▸ htells p'

theorem Session.assignExports_without (ctx : Context) (s : Session) (t : Ty) (line : Nat) :
    (s.without (newlyAllowed p p')).assignExports (ctx.under p') t line =
      (s.assignExports (ctx.under p) t line).without (newlyAllowed p p') := by
  cases h : s.exported with
  | none =>
    have h' : (s.without (newlyAllowed p p')).exported = none := h
    rw [assignExports_of_none h, assignExports_of_none h']
    rfl
  | some previous =>
    have h' : (s.without (newlyAllowed p p')).exported = some previous := h
    have hkind : ∀ d ∈ [reassignment previous t line], d.kind = .reassigningModuleExports :=
      fun d hd => by rw [List.mem_singleton.mp hd]; rfl
    have hreports := without_unless hkind (hallows .reassigningModuleExports)
    rw [assignExports_of_some h, assignExports_of_some h', without_add]
    exact congrArg (fun ds => s.withAccount ((s.without _).account.add ds)) hreports.symm

theorem Target.complete_without (target : Target) (ctx : Context) (valueName : Option String)
    (t : Ty) (line : Nat) (s : Session) :
    target.complete (ctx.under p') valueName t line (s.without (newlyAllowed p p')) =
      (target.complete (ctx.under p) valueName t line s).without (newlyAllowed p p') := by
  have hnote := (Session.noteValue_plain ctx valueName line).without p p'
  cases target with
  | exports =>
    have hassign := Session.assignExports_without hallows ctx s t line
    exact (congrArg (·.noteValue ctx valueName line) hassign).trans (hnote _)
  | exportProperty key => exact hnote { s with properties := Ty.setField s.properties key t }
  | _ => rfl

/-- Two walks under the two policies differ in the reports of the kinds that are newly allowed. -/
theorem Course.run_without {α : Type} (c : Course α) (ctx : Context) (s : Session) :
    c.value (ctx.under p') (s.without (newlyAllowed p p')) = c.value (ctx.under p) s ∧
      c.after (ctx.under p') (s.without (newlyAllowed p p')) =
        (c.after (ctx.under p) s).without (newlyAllowed p p') := by
  let drop := newlyAllowed p p'
  induction c generalizing ctx s with
  | pure a => exact ⟨rfl, rfl⟩
  | bind c f ihc ihf =>
    obtain ⟨hvalue, hafter⟩ := ihc ctx s
    rw [value_bind, value_bind, after_bind, after_bind, hvalue, hafter]
    exact ihf _ ctx _
  | session => exact ⟨rfl, rfl⟩
  | step st =>
    refine ⟨rfl, ?_⟩
    show st.apply (ctx.under p') (s.without drop) = (st.apply (ctx.under p) s).without _
    rw [st.apply_under, st.apply_under]
    exact (st.apply_plain ctx).without p p' s
  | assign target e line body ih =>
    obtain ⟨d, ds, hdemand, hdemand'⟩ := target.demand_without hallows ctx line s
    let s₁ := s.withAccount (s.account.add ds)
    let v := (body d).value (ctx.under p) s₁
    let s₂ := (body d).after (ctx.under p) s₁
    obtain ⟨hvalue, hafter⟩ := ih d ctx s₁
    obtain ⟨ds', hplain, hsettle⟩ := d.settle_tells e v line s₂
    have hsettle' : (d.settle e ((body d).value (ctx.under p') (s₁.without drop)) line).run
        ((body d).after (ctx.under p') (s₁.without drop)) =
          (d.given v, (s₂.withAccount (s₂.account.add ds')).without drop) := by
      dsimp only [drop]
      rw [hvalue, hafter]
      exact Tells.without ((without_plain p p' hplain).symm ▸ hsettle)
    have hrun := run_assign hdemand hsettle.run
    have hrun' := run_assign hdemand' hsettle'
    refine ⟨(congrArg Prod.fst hrun').trans (congrArg Prod.fst hrun).symm, ?_⟩
    calc (assign target e line body).after (ctx.under p') (s.without drop)
        = _ := congrArg Prod.snd hrun'
      _ = (target.complete (ctx.under p) e.identText? (d.given v) line
            (s₂.withAccount (s₂.account.add ds'))).without drop :=
          target.complete_without hallows ctx _ _ line _
      _ = _ := congrArg (Session.without drop) (congrArg Prod.snd hrun).symm
  | inBlock c ih =>
    have hc := (ih ctx (s.enter (.ofKind .block))).2
    exact ⟨rfl, congrArg Session.leave hc⟩
  | function head plan ss c ih =>
    let inner := ctx.inside (plan.frame head)
    have henter := (Session.enterFunction_plain inner head plan ss).without p p' s
    have hleave := (Session.leaveFunction_plain inner head plan ss).without p p'
    have hc := (ih inner (s.enterFunction inner head plan ss)).2
    refine ⟨rfl, ?_⟩
    show Session.leaveFunction inner
        (c.after (inner.under p') ((s.without drop).enterFunction (inner.under p') head plan ss))
        head plan ss =
      (Session.leaveFunction inner
        (c.after (inner.under p) (s.enterFunction (inner.under p) head plan ss))
        head plan ss).without drop
    rw [Session.enterFunction_under, Session.enterFunction_under, henter, hc]
    exact hleave _

/-- The session at the end of a module. -/
theorem checkModule_without (ctx : Context) (start : Session) (ss : List Script.Stmt) :
    checkModule (ctx.under p') (start.without (newlyAllowed p p')) ss =
      (checkModule (ctx.under p) start ss).without (newlyAllowed p p') := by
  have hstart := ((Session.enter_plain (.ofKind .module)).trans
    (Session.hoist_plain ctx ss)).without p p' start
  have hwalk := (Course.run_without hallows (Script.courseOfStmts ctx ss) ctx
    (moduleStart ctx start ss)).2
  rw [checkModule_eq, checkModule_eq]
  exact (congrArg (Course.after _ _) hstart).trans hwalk

end TwoWalks

/-- **Policies only filter.** Under a policy that allows all that another one allows, the module
exports the same type, and what is reported is what is reported under the other one, in the same
order, less the diagnostics of the kinds that are newly allowed. -/
theorem policy_only_filters (script : Script) (lines : LineMap) (header : Header)
    (imports : List ImportedType) (p p' : ExportPolicy)
    (hallows : ∀ kind, p.allows kind = true → p'.allows kind = true) :
    verify script lines header imports p' =
      ⟨without (newlyAllowed p p') (verify script lines header imports p).errors,
        (verify script lines header imports p).exportsType⟩ := by
  let start := Session.ofHeader header imports
  let ctx := moduleContext script lines header p start.env
  have hmodule := checkModule_without hallows ctx start script.statements
  rw [Session.ofHeader_without] at hmodule
  exact (congrArg (finish (ctx.under p') _) hmodule).trans (finish_without ctx _ _)

/-- A constructor whose prototype is given a field after it was exported, twice. -/
def lateText : String :=
  "function Node() \x7b missing; \x7d\nmodule.exports = Node;\nNode.prototype.size = 1;\n" ++
    "module.exports = Node;"

/-- Its header: `Node : () => void`. -/
def lateHeader : Header :=
  ⟨[.value ⟨"Node", .function [] (.ofName "void") none, 1⟩]⟩

theorem policy_only_filters_late :
    let strict := verify (Script.parse lateText) (.ofText lateText) lateHeader [] ⟨false, false⟩
    let loose := verify (Script.parse lateText) (.ofText lateText) lateHeader [] ⟨true, true⟩
    strict.errors.map (·.kind) = [.unknownIdentifier, .prototypeAssignmentAfterExport,
      .reassigningModuleExports] ∧
    (∀ kind, ExportPolicy.allows ⟨false, false⟩ kind = true →
      ExportPolicy.allows ⟨true, true⟩ kind = true) ∧
    loose = ⟨without (newlyAllowed ⟨false, false⟩ ⟨true, true⟩) strict.errors,
      strict.exportsType⟩ := by
  have hallows : ∀ kind, ExportPolicy.allows ⟨false, false⟩ kind = true →
      ExportPolicy.allows ⟨true, true⟩ kind = true := by
    intro kind h
    cases kind <;> cases h
  exact ⟨by decide +kernel, hallows,
    policy_only_filters (Script.parse lateText) (.ofText lateText) lateHeader [] _ _ hallows⟩

end Verify
end Countersign
