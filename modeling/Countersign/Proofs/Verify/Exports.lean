/-
# What a module exports

Assignments to the exports may stand anywhere in a program, also in each other's values. In the
order in which they are completed, they are all that the type of the module depends on: the first
value that `module.exports` is given decides, or else the properties make up an object.

Key definitions: `Export`, `Course.exports`, `Ledger`, `Ledger.record`, `exportsMade`.
Key theorems: `Course.after_ledger`, `Ledger.record_all`, `exports_recorded`.
-/
import Countersign.Proofs.Ty.Fields
import Countersign.Proofs.Verify.Courses
import Countersign.Script.Parse

namespace Countersign
namespace Verify

open Script (courseOfStmts)

/-- A completed assignment that exports something. -/
inductive Export where
  /-- The exports as a whole are given a value, whose type was found to be `inferred`. -/
  | module (inferred : Ty)
  /-- A property of the exports is given a value, and is known by a type from then on. -/
  | property (name : String) (type : Ty)

namespace Export

/-- The type of the value that the exports as a whole are given. -/
def module? : Export → Option Ty
  | .module inferred => some inferred
  | property _ _ => none

/-- The property that is exported. -/
def property? : Export → Option (String × Ty)
  | .module _ => none
  | property name type => some (name, type)

end Export

/-- What an assignment exports, given what is demanded of its value and the type of the value. -/
def Target.exported (demand : Demand) (actual : Ty) : Target → List Export
  | .exports => [.module actual]
  | .exportProperty key => [.property key (demand.given actual)]
  | _ => []

/-- The exports that a course makes, in the order in which they are completed. -/
def Course.exports : {α : Type} → Course α → Context → Session → List Export
  | _, .pure _, _, _ => []
  | _, .bind c f, ctx, s =>
    c.exports ctx s ++ (f (c.value ctx s)).exports ctx (c.after ctx s)
  | _, .session, _, _ => []
  | _, .step _, _, _ => []
  | _, .assign target _ line body, ctx, s =>
    let (demand, s') := (target.demand ctx line).run s
    (body demand).exports ctx s' ++ target.exported demand ((body demand).value ctx s')
  | _, .inBlock c, ctx, s => c.exports ctx (s.enter (.ofKind .block))
  | _, .function head plan ss c, ctx, s =>
    let inner := ctx.inside (plan.frame head)
    c.exports inner (s.enterFunction inner head plan ss)

/-! ### The ledger -/

/-- What a session has recorded about exports. -/
@[ext]
structure Ledger where
  exported : Option Ty
  properties : List (String × Ty)
  /-- How many times it was reported that the exports are assigned again. -/
  reassigned : Nat

namespace Ledger

/-- Nothing was exported. -/
def empty : Ledger := ⟨none, [], 0⟩

/-- What an export changes; `declared` is the type that the header declares. -/
def record (declared : Option Ty) (policy : ExportPolicy) (l : Ledger) : Export → Ledger
  | .module inferred =>
    match l.exported with
    | none => { l with exported := some (.moduleExports (declared.getD inferred.widen)) }
    | some _ => { l with reassigned := l.reassigned + if policy.allowReassignment then 0 else 1 }
  | .property name t => { l with properties := Ty.setField l.properties name t }

/-- After all exports: the first value of the whole counts, of each property the first place and the
last type, and every value of the whole after the first is reported unless that is allowed. -/
theorem record_all (declared : Option Ty) (policy : ExportPolicy) (es : List Export) :
    es.foldl (record declared policy) empty =
      { exported := (es.filterMap Export.module?).head?.map fun t =>
          .moduleExports (declared.getD t.widen)
        properties := Ty.collect [] (es.filterMap Export.property?)
        reassigned :=
          if policy.allowReassignment then 0 else (es.filterMap Export.module?).length - 1 } := by
  induction es using List.reverseRecOn with
  | nil => simp [empty, Ty.collect]
  | append_singleton es e ih =>
    rw [List.foldl_append, ih, List.filterMap_append, List.filterMap_append]
    cases e with
    | property name t =>
      have hmodule : [Export.property name t].filterMap Export.module? = [] := rfl
      have hproperty : [Export.property name t].filterMap Export.property? = [(name, t)] := rfl
      rw [hmodule, hproperty, List.append_nil, Ty.collect_append]
      rfl
    | module inferred =>
      have hmodule : [Export.module inferred].filterMap Export.module? = [inferred] := rfl
      have hproperty : [Export.module inferred].filterMap Export.property? = [] := rfl
      rw [hmodule, hproperty, List.append_nil]
      cases es.filterMap Export.module? with
      | nil => simp [record]
      | cons first rest =>
        cases hallow : policy.allowReassignment <;> simp [record, hallow]

end Ledger

/-- The ledger of a session. -/
def Session.ledger (s : Session) : Ledger :=
  ⟨s.exported, s.properties, s.errors.countP (·.kind == .reassigningModuleExports)⟩

theorem reassigned_eq_zero {ds : List Diagnostic}
    (h : ∀ d ∈ ds, d.kind ≠ .reassigningModuleExports) :
    ds.countP (·.kind == .reassigningModuleExports) = 0 :=
  List.countP_eq_zero.mpr fun d hd => by simpa using h d hd

/-- Reporting anything else leaves the ledger as it is. -/
theorem Session.ledger_add (s s' : Session) {ds : List Diagnostic}
    (h : ∀ d ∈ ds, d.kind ≠ .reassigningModuleExports) :
    (s'.withAccount (s.account.add ds)).ledger = s.ledger := by
  have hall : (s.errors ++ ds).countP (·.kind == .reassigningModuleExports) =
      s.errors.countP (·.kind == .reassigningModuleExports) := by
    rw [List.countP_append, reassigned_eq_zero h, Nat.add_zero]
  exact congrArg (Ledger.mk s.exported s.properties) hall

theorem kind_ne_of_isPlain {d : Diagnostic} (h : d.isPlain = true) :
    d.kind ≠ .reassigningModuleExports := by
  rintro hkind
  simp [Diagnostic.isPlain, hkind] at h

theorem Session.Plain.ledger {f : Session → Session} (hf : Plain f) (s : Session) :
    (f s).ledger = s.ledger := by
  obtain ⟨ds, hds, hfs⟩ := hf s
  have hs : f s = (f s).withAccount (s.account.add ds) := hfs s.account
  rw [hs]
  exact s.ledger_add _ fun d hd => kind_ne_of_isPlain (hds d hd)

/-- What the exports as a whole are given by an assignment. -/
theorem Target.exports_demand {ctx : Context} {line : Nat} {s s' : Session} {d : Demand}
    (h : (Target.exports.demand ctx line).run s = (d, s')) (actual : Ty) :
    d.given actual = ctx.declared.getD actual.widen := by
  obtain rfl : ((Target.exports.demand ctx line).run s).1 = d := congrArg Prod.fst h
  rw [demand]
  cases ctx.declared <;> rfl

theorem Session.assignExports_ledger (ctx : Context) (s : Session) (inferred : Ty) (line : Nat) :
    (s.assignExports ctx (ctx.declared.getD inferred.widen) line).ledger =
      s.ledger.record ctx.declared ctx.policy (.module inferred) := by
  cases h : s.exported with
  | none =>
    rw [assignExports_of_none h]
    simp [ledger, Ledger.record, h]
  | some previous =>
    rw [assignExports_of_some h]
    cases hallow : ctx.policy.allowReassignment <;>
      simp [ledger, Ledger.record, h, hallow, withAccount, account, Account.add, reassignment]

/-- A completed assignment changes the ledger by what it exports. -/
theorem Target.complete_ledger {target : Target} {ctx : Context} {line : Nat} {s₀ s₁ : Session}
    {d : Demand} (hdemand : (target.demand ctx line).run s₀ = (d, s₁)) (valueName : Option String)
    (actual : Ty) (s : Session) :
    (target.complete ctx valueName (d.given actual) line s).ledger =
      (target.exported d actual).foldl (Ledger.record ctx.declared ctx.policy) s.ledger := by
  have hnote := (Session.noteValue_plain ctx valueName line).ledger
  cases target with
  | exports =>
    rw [exports_demand hdemand]
    exact (hnote _).trans (s.assignExports_ledger ctx actual line)
  | exportProperty key => exact hnote _
  | _ => rfl

/-- A course changes the ledger by the exports that it makes. -/
theorem Course.after_ledger {α : Type} (c : Course α) (ctx : Context) (s : Session) :
    (c.after ctx s).ledger =
      (c.exports ctx s).foldl (Ledger.record ctx.declared ctx.policy) s.ledger := by
  induction c generalizing ctx s with
  | pure a => rfl
  | bind c f ihc ihf =>
    rw [after_bind, ihf, ihc, exports, List.foldl_append]
  | session => rfl
  | step st => exact (st.apply_plain ctx).ledger s
  | assign target e line body ih =>
    obtain ⟨d, before, late, after, hbefore, hlate, hafter, htells⟩ :=
      target.demand_asks ctx line s
    have hdemand : Tells (target.demand ctx line) s d _ := htells ctx.policy
    let reports := before ++ ((if ctx.policy.allowPrototypeAfterExport then [] else late) ++ after)
    have hreports : ∀ d ∈ reports, d.kind ≠ .reassigningModuleExports := by
      intro e he
      rcases List.mem_append.mp he with he | he
      · exact kind_ne_of_isPlain (hbefore e he)
      · rcases List.mem_append.mp he with he | he
        · split at he
          · cases he
          · exact hlate e he ▸ nofun
        · exact kind_ne_of_isPlain (hafter e he)
    let s₁ := s.withAccount (s.account.add reports)
    let actual := (body d).value ctx s₁
    let s₂ := (body d).after ctx s₁
    obtain ⟨ds, hds, hsettle⟩ := d.settle_tells e actual line s₂
    have hrun := congrArg Prod.snd (run_assign hdemand.run hsettle.run)
    have hexports : (assign target e line body).exports ctx s =
        (body d).exports ctx s₁ ++ target.exported d actual := by
      rw [exports, hdemand.run]
    calc ((assign target e line body).after ctx s).ledger
        = (target.exported d actual).foldl (Ledger.record ctx.declared ctx.policy)
            (s₂.withAccount (s₂.account.add ds)).ledger :=
          (congrArg Session.ledger hrun).trans (Target.complete_ledger hdemand.run _ actual _)
      _ = (target.exported d actual).foldl (Ledger.record ctx.declared ctx.policy)
            (((body d).exports ctx s₁).foldl (Ledger.record ctx.declared ctx.policy) s.ledger) := by
          rw [s₂.ledger_add s₂ fun d hd => kind_ne_of_isPlain (hds d hd), ih d ctx s₁,
            s.ledger_add s hreports]
      _ = _ := by rw [hexports, List.foldl_append]
  | inBlock c ih => exact ih ctx _
  | function head plan ss c ih =>
    let inner := ctx.inside (plan.frame head)
    have hleave := (Session.leaveFunction_plain inner head plan ss).ledger
    have henter := (Session.enterFunction_plain inner head plan ss).ledger s
    have hbody := ih inner (s.enterFunction inner head plan ss)
    rw [henter] at hbody
    exact (hleave _).trans hbody

/-! ### Modules -/

/-- The exports that the statements of a module make, in the order in which they are completed. -/
def exportsMade (ctx : Context) (start : Session) (ss : List Script.Stmt) : List Export :=
  (courseOfStmts ctx ss).exports ctx (moduleStart ctx start ss)

/-- Nothing is exported before the statements of a module are checked. -/
theorem moduleStart_ledger (ctx : Context) (header : Header) (imports : List ImportedType)
    (ss : List Script.Stmt) :
    (moduleStart ctx (Session.ofHeader header imports) ss).ledger = .empty := by
  have hstart := (Session.enter_plain (.ofKind .module)).trans (Session.hoist_plain ctx ss)
  have hheader := Session.Plain.foldl Session.declareValue_plain header.values
  exact (hstart.ledger _).trans (hheader.ledger _)

theorem Session.checkFields_errors (ctx : Context) (s : Session) (ctor : String) (line : Nat) :
    ∃ ds, (∀ d ∈ ds, d.kind = .missingFieldInConstructor) ∧
      (s.checkFields ctx ctor line).errors = s.errors ++ ds := by
  unfold checkFields
  split
  · exact ⟨[], fun _ hd => absurd hd List.not_mem_nil, (List.append_nil _).symm⟩
  · refine ⟨_, fun d hd => ?_, rfl⟩
    obtain ⟨field, -, rfl⟩ := List.mem_map.mp hd
    rfl

/-- The constructors that still wait are checked for their fields. -/
theorem Session.checkPending_errors (ctx : Context) (s : Session) :
    ∃ ds, (∀ d ∈ ds, d.kind = .missingFieldInConstructor) ∧
      (s.checkPending ctx).errors = s.errors ++ ds := by
  unfold checkPending
  induction s.pendingCtors generalizing s with
  | nil => exact ⟨[], fun _ hd => absurd hd List.not_mem_nil, (List.append_nil _).symm⟩
  | cons c ctors ih =>
    obtain ⟨ds, hds, hfirst⟩ := s.checkFields_errors ctx c.1 c.2
    obtain ⟨ds', hds', hrest⟩ := ih (s.checkFields ctx c.1 c.2)
    refine ⟨ds ++ ds', fun d hd => (List.mem_append.mp hd).elim (hds d) (hds' d), ?_⟩
    rw [List.foldl_cons, hrest, hfirst, List.append_assoc]

/-- The ledger at the end of a module. -/
theorem checkModule_ledger (script : Script) (lines : LineMap) (header : Header)
    (imports : List ImportedType) (policy : ExportPolicy) :
    let start := Session.ofHeader header imports
    let ctx := moduleContext script lines header policy start.env
    let made := exportsMade ctx start script.statements
    ((checkModule ctx start script.statements).checkPending ctx).ledger =
      made.foldl (Ledger.record ctx.declared policy) .empty := by
  intro start ctx made
  have hmodule : checkModule ctx start script.statements =
      (courseOfStmts ctx script.statements).after ctx (moduleStart ctx start script.statements) :=
    checkModule_eq ctx policy start script.statements
  rw [(Session.checkPending_plain ctx).ledger, hmodule, Course.after_ledger, moduleStart_ledger]
  rfl

/-- **What a module exports is recorded.** Let `modules` be the types of the values that the exports
as a whole are given and `properties` the exported properties, in the order in which the assignments
are completed. The module has no type just if there are neither. Otherwise the declared type counts
if there is one, or else the class of the first of `modules`, or else the object of `properties`:
its fields are their names in the order of the first export, with their last types. All values of
the whole after the first are reported, unless that is allowed. At the end it is reported that the
exports are missing just if they are declared and there are none. -/
theorem exports_recorded (script : Script) (lines : LineMap) (header : Header)
    (imports : List ImportedType) (policy : ExportPolicy) :
    let start := Session.ofHeader header imports
    let ctx := moduleContext script lines header policy start.env
    let made := exportsMade ctx start script.statements
    let modules := made.filterMap Export.module?
    let properties := made.filterMap Export.property?
    let outcome := verify script lines header imports policy
    (outcome.exportsType = none ↔ modules = [] ∧ properties = []) ∧
    (∀ first rest, modules = first :: rest →
      outcome.exportsType = some (.moduleExports (ctx.declared.getD first.widen))) ∧
    (modules = [] → properties ≠ [] → ∃ fields,
      outcome.exportsType = some (.moduleExports (ctx.declared.getD (.object fields))) ∧
      fields.map (·.1) = (properties.map (·.1)).eraseDups ∧
      ∀ name, fields.lookup name = properties.reverse.lookup name) ∧
    (outcome.errorsOf .reassigningModuleExports).length =
      (if policy.allowReassignment then 0 else modules.length - 1) ∧
    ∃ pending, (∀ d ∈ pending, d.kind = .missingFieldInConstructor) ∧
      outcome.errors = (checkModule ctx start script.statements).errors ++ pending ++
        if modules = [] ∧ properties = [] then
          (ctx.declared.map
            (missingExport · ((header.exportDefault?.map (·.line)).getD 0))).toList
        else [] := by
  intro start ctx made modules properties outcome
  let walked := checkModule ctx start script.statements
  let exportLine := (header.exportDefault?.map (·.line)).getD 0
  have hledger : (walked.checkPending ctx).ledger = _ :=
    (checkModule_ledger script lines header imports policy).trans (Ledger.record_all _ _ _)
  have hexported : (walked.checkPending ctx).exported =
      modules.head?.map fun t => .moduleExports (ctx.declared.getD t.widen) :=
    congrArg Ledger.exported hledger
  have hproperties : (walked.checkPending ctx).properties = Ty.collect [] properties :=
    congrArg Ledger.properties hledger
  have hreassigned := congrArg Ledger.reassigned hledger
  let missing := ((ctx.unassignedExport? (walked.checkPending ctx)).map
    (missingExport · exportLine)).toList
  have herrors : outcome.errors = (walked.checkPending ctx).errors ++ missing := rfl
  have htype : outcome.exportsType = exportsType ctx (walked.checkPending ctx) := rfl
  have hempty : (Ty.collect [] properties).isEmpty = properties.isEmpty := by
    rw [Bool.eq_iff_iff, List.isEmpty_iff, List.isEmpty_iff, Ty.collect_eq_nil]
  rw [htype, exportsType, hexported, hproperties, hempty]
  refine ⟨?_, ?_, ?_, ?_, ?_⟩
  · cases modules with
    | nil => cases properties <;> simp
    | cons first rest => simp
  · rintro first rest hmodules
    rw [hmodules]
    rfl
  · intro hmodules hnonempty
    refine ⟨Ty.collect [] properties, ?_, Ty.collect_names _, Ty.collect_lookup _⟩
    have hfalse : properties.isEmpty = false := by simpa using hnonempty
    rw [hmodules, hfalse]
    rfl
  · have hmissing : missing.countP (·.kind == .reassigningModuleExports) = 0 :=
      reassigned_eq_zero fun d hd => kind_ne_of_isPlain (missingExport_plain _ exportLine d hd)
    rw [Outcome.errorsOf, ← List.countP_eq_length_filter, herrors, List.countP_append, hmissing]
    exact hreassigned
  · obtain ⟨pending, hpending, hchecked⟩ := walked.checkPending_errors ctx
    refine ⟨pending, hpending, ?_⟩
    have hmissing : missing = if modules = [] ∧ properties = [] then
        (ctx.declared.map (missingExport · exportLine)).toList else [] := by
      dsimp only [missing]
      rw [Context.unassignedExport?, hexported, hproperties, hempty]
      cases modules <;> cases properties <;> simp
    rw [herrors, hchecked, hmissing]

/-- An assignment in the value of another one. -/
def nestedText : String := "module.exports = (module.exports = 1, 'one');\nexports.size = 2;"

/-- Properties only, one of them exported twice. -/
def propertiesText : String := "exports.size = 1;\nmodule.exports.name = 'a';\nexports.size = null;"

theorem exports_recorded_nested :
    (let script := Script.parse nestedText
    let start := Session.ofHeader ⟨[]⟩ []
    let ctx := moduleContext script (.ofText nestedText) ⟨[]⟩ {} start.env
    ∃ inner outer,
      (exportsMade ctx start script.statements).filterMap Export.module? = [inner, outer] ∧
      inner.widen.source = "Number" ∧ outer.widen.source = "String" ∧
      (verify script (.ofText nestedText) ⟨[]⟩ [] {}).exportsType =
        some (.moduleExports inner.widen) ∧
      ((verify script (.ofText nestedText) ⟨[]⟩ [] {}).errorsOf .reassigningModuleExports).length =
        1) ∧
    let script := Script.parse propertiesText
    let start := Session.ofHeader ⟨[]⟩ []
    let ctx := moduleContext script (.ofText propertiesText) ⟨[]⟩ {} start.env
    let made := exportsMade ctx start script.statements
    made.filterMap Export.module? = [] ∧
      (made.filterMap Export.property?).map (fun p => (p.1, p.2.source)) =
        [("size", "Number"), ("name", "String"), ("size", "null")] ∧
      ∃ fields, (verify script (.ofText propertiesText) ⟨[]⟩ [] {}).exportsType =
          some (.moduleExports (.object fields)) ∧
        fields.map (·.1) = ["size", "name"] ∧
        (fields.lookup "size").map (·.source) = some "null" ∧
        (fields.lookup "name").map (·.source) = some "String" := by
  constructor
  · intro script start ctx
    have hsources : ((exportsMade ctx start script.statements).filterMap Export.module?).map
        (·.widen.source) = ["Number", "String"] := by
      decide +kernel
    obtain ⟨inner, rest, hmodules, hinner, hrest⟩ := List.map_eq_cons_iff.mp hsources
    obtain ⟨outer, rfl, houter⟩ := List.map_eq_singleton_iff.mp hrest
    obtain ⟨-, hfirst, -, hcount, -⟩ :=
      exports_recorded script (.ofText nestedText) ⟨[]⟩ [] {}
    rw [if_neg Bool.false_ne_true, hmodules] at hcount
    exact ⟨inner, outer, hmodules, hinner, houter, hfirst inner [outer] hmodules, hcount⟩
  · intro script start ctx made
    have hmodules : made.filterMap Export.module? = [] := by
      refine List.isEmpty_iff.mp ?_
      decide +kernel
    have hsources : (made.filterMap Export.property?).map (fun p => (p.1, p.2.source)) =
        [("size", "Number"), ("name", "String"), ("size", "null")] := by
      decide +kernel
    obtain ⟨⟨_, size⟩, _, hmade, hsize, hrest⟩ := List.map_eq_cons_iff.mp hsources
    obtain ⟨⟨_, name⟩, _, rfl, hname, hlast⟩ := List.map_eq_cons_iff.mp hrest
    obtain ⟨⟨_, again⟩, rfl, hagain⟩ := List.map_eq_singleton_iff.mp hlast
    obtain ⟨rfl, -⟩ := Prod.mk.inj hsize
    obtain ⟨rfl, hname⟩ := Prod.mk.inj hname
    obtain ⟨rfl, hagain⟩ := Prod.mk.inj hagain
    obtain ⟨-, -, hproperties, -, -⟩ :=
      exports_recorded script (.ofText propertiesText) ⟨[]⟩ [] {}
    obtain ⟨fields, htype, hnames, hlookup⟩ :=
      hproperties hmodules (hmade ▸ List.cons_ne_nil _ _)
    have hfields : ∀ key, fields.lookup key =
        [("size", again), ("name", name), ("size", size)].lookup key := fun key =>
      (hlookup key).trans (congrArg (·.reverse.lookup key) hmade)
    refine ⟨hmodules, hsources, fields, htype,
      hnames.trans (congrArg (fun ps => (ps.map (·.1)).eraseDups) hmade), ?_, ?_⟩
    · rw [hfields "size"]
      exact congrArg some hagain
    · rw [hfields "name"]
      exact congrArg some hname

end Verify
end Countersign
