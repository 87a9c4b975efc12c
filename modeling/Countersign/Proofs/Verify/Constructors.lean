/-
# Constructors are checked once

The fields of a constructor are checked when it is exported, when it is declared without being
exported, or at the end of the module, whichever comes first. Which checks a walk makes is a list,
`Session.Audited`: every one of them is for another constructor, and all that is reported about
missing fields is what they find, each in the environment in which it is made.

Key definitions: `FieldCheck`, `FieldCheck.found`, `Session.Audited`, `Course.Triggers`.
Key theorems: `Context.mem_missingFields`, `Course.audits`, `Course.Passes.remembers`,
`constructor_fields_checked_once`.
-/
import Countersign.Proofs.Verify.Untyped
import Countersign.Proofs.Verify.Yields

namespace Countersign
namespace Verify

open Script (Expr Stmt courseOfStmts)

/-! ### Missing fields -/

/-- What the declaration of a constructor or its prototype provides. -/
theorem Context.provides_iff {ctx : Context} {ctor field : String} :
    ctx.provides ctor field = true ↔
      (∃ f, ctx.summary.declarationOf? ctor = some f ∧ f.writes field = true) ∨
        ∃ p ∈ ctx.summary.prototypes, p.ctor = ctor ∧ p.field = field := by
  rw [provides, Bool.or_eq_true, Option.any_eq_true, List.any_eq_true]
  refine or_congr Iff.rfl ?_
  simp only [Summary.prototypesOf, List.mem_filter, beq_iff_eq, and_assoc]

/-- The fields that are missing are those of the instance type, if that is an object, which must
have a value and which nothing provides. -/
theorem Context.mem_missingFields {ctx : Context} {env : Env} {ctor field : String} :
    field ∈ ctx.missingFields env ctor ↔
      ∃ fields t, (env.instanceType? ctor).bind (·.asObject?) = some fields ∧
        (field, t) ∈ fields ∧ isOptional t = false ∧ ctx.provides ctor field = false := by
  unfold missingFields
  cases (env.instanceType? ctor).bind (·.asObject?) with
  | none => simp
  | some fields => simp

/-- No field is missing twice. -/
theorem Context.missingFields_nodup (ctx : Context) {env : Env} (henv : env.Tidy) (ctor : String) :
    (ctx.missingFields env ctor).Nodup := by
  unfold missingFields
  refine List.Nodup.sublist (List.filter_sublist.map _) ?_
  cases hfields : (env.instanceType? ctor).bind (·.asObject?) with
  | none => exact List.nodup_nil
  | some fields =>
    obtain ⟨t, ht, hobject⟩ := Option.bind_eq_some_iff.mp hfields
    exact ((henv.instanceType? ht).asObject? hobject).distinct

/-! ### Checks -/

/-- A check of the fields of a constructor, in an environment. -/
structure FieldCheck where
  ctor : String
  line : Nat
  env : Env

/-- What the check reports. -/
def FieldCheck.found (ctx : Context) (c : FieldCheck) : List Diagnostic :=
  (ctx.missingFields c.env c.ctor).map (missingField c.ctor · c.line)

/-- The diagnostics about missing fields. -/
def missingOf (ds : List Diagnostic) : List Diagnostic :=
  ds.filter (·.kind == .missingFieldInConstructor)

theorem missingOf_append (ds ds' : List Diagnostic) :
    missingOf (ds ++ ds') = missingOf ds ++ missingOf ds' := List.filter_append ..

theorem FieldFree.missingOf {ds : List Diagnostic} (h : FieldFree ds) :
    Verify.missingOf ds = [] :=
  List.filter_eq_nil_iff.mpr fun d hd hkind => h d hd (eq_of_beq hkind)

theorem FieldCheck.missingOf_found (ctx : Context) (c : FieldCheck) :
    missingOf (c.found ctx) = c.found ctx := by
  refine List.filter_eq_self.mpr fun d hd => ?_
  obtain ⟨field, -, rfl⟩ := List.mem_map.mp hd
  rfl

namespace Session

/-- A session that was led on to another one by these checks and by what has nothing to do with the
fields of constructors. -/
structure Audited (ctx : Context) (checks : List FieldCheck) (s s' : Session) : Prop where
  completed : s'.completedCtors = s.completedCtors ++ checks.map (·.ctor)
  /-- No constructor is checked that was checked before. -/
  distinct : s.completedCtors.Nodup → s'.completedCtors.Nodup
  errors : missingOf s'.errors = missingOf s.errors ++ checks.flatMap (·.found ctx)
  pending : s.pendingCtors <+: s'.pendingCtors

/-- A session that was led on to another one by checks that satisfy `P`. -/
def Audits (ctx : Context) (P : FieldCheck → Prop) (s s' : Session) : Prop :=
  ∃ checks, Audited ctx checks s s' ∧ ∀ c ∈ checks, P c

namespace Audits

variable {ctx : Context} {P Q : FieldCheck → Prop} {s s' s'' : Session}

/-- No check is made. -/
theorem none {ds : List Diagnostic} (hds : FieldFree ds) (herrors : s'.errors = s.errors ++ ds)
    (hcompleted : s'.completedCtors = s.completedCtors)
    (hpending : s.pendingCtors <+: s'.pendingCtors) : Audits ctx P s s' := by
  refine ⟨[], ⟨?_, ?_, ?_, hpending⟩, nofun⟩
  · rw [hcompleted, List.map_nil, List.append_nil]
  · rw [hcompleted]
    exact id
  · rw [herrors, missingOf_append, hds.missingOf, List.flatMap_nil]

theorem ofCalm (h : s.Calm s') : Audits ctx P s s' := by
  obtain ⟨ds, hds, herrors⟩ := h.errors
  exact .none hds.fieldFree herrors h.completed (h.pending ▸ List.prefix_refl _)

theorem reportAll {ds : List Diagnostic} (h : FieldFree ds) : Audits ctx P s (s.reportAll ds) :=
  .none h rfl rfl (List.prefix_refl _)

theorem trans (h : Audits ctx P s s') (h' : Audits ctx P s' s'') : Audits ctx P s s'' := by
  obtain ⟨checks, haudited, hP⟩ := h
  obtain ⟨checks', haudited', hP'⟩ := h'
  refine ⟨checks ++ checks', ⟨?_, fun h => haudited'.distinct (haudited.distinct h), ?_,
    haudited.pending.trans haudited'.pending⟩, List.forall_mem_append.mpr ⟨hP, hP'⟩⟩
  · rw [haudited'.completed, haudited.completed, List.map_append, List.append_assoc]
  · rw [haudited'.errors, haudited.errors, List.flatMap_append, List.append_assoc]

/-- The frame of a function plays no part. -/
theorem outside {frame : Frame} (h : Audits (ctx.inside frame) P s s') : Audits ctx P s s' := by
  obtain ⟨checks, haudited, hP⟩ := h
  exact ⟨checks, ⟨haudited.completed, haudited.distinct, haudited.errors, haudited.pending⟩, hP⟩

theorem mono (h : Audits ctx P s s') (hPQ : ∀ c, P c → Q c) : Audits ctx Q s s' := by
  obtain ⟨checks, haudited, hP⟩ := h
  exact ⟨checks, haudited, fun c hc => hPQ c (hP c hc)⟩

end Audits

section Operations

variable {ctx : Context} {P : FieldCheck → Prop} (s : Session)

/-- A constructor is checked, unless that was done before. -/
theorem checkFields_audits {ctor : String} {line : Nat} (h : P ⟨ctor, line, s.env⟩) :
    Audits ctx P s (s.checkFields ctx ctor line) := by
  unfold checkFields
  split
  · exact .ofCalm (.refl s)
  · rename_i hnew
    let check : FieldCheck := ⟨ctor, line, s.env⟩
    refine ⟨[check], ⟨rfl, fun hdistinct => ?_, ?_, List.prefix_refl _⟩,
      List.forall_mem_singleton.mpr h⟩
    · have hfresh : ctor ∉ s.completedCtors := by simpa using hnew
      exact List.nodup_append_comm.mp (List.nodup_cons.mpr ⟨hfresh, hdistinct⟩)
    · rw [List.flatMap_singleton]
      exact (missingOf_append _ _).trans (congrArg _ (check.missingOf_found ctx))

theorem mem_checkFields (ctx : Context) (ctor : String) (line : Nat) :
    ctor ∈ (s.checkFields ctx ctor line).completedCtors := by
  unfold checkFields
  split
  · rename_i hcompleted
    simpa using hcompleted
  · exact List.mem_append_right _ (List.mem_singleton_self _)

theorem noteExport_audits {name : String} {line : Nat}
    (h : ctx.isConstructor s.env name = true → P ⟨name, line, s.env⟩) :
    Audits ctx P s (s.noteExport ctx name line) := by
  unfold noteExport
  split
  · rename_i hctor
    have hnoted : s.Calm { s with exportedCtors := s.exportedCtors ++ [name] } := .quiet rfl rfl rfl
    exact (Audits.ofCalm hnoted).trans (checkFields_audits _ (h hctor))
  · exact .ofCalm (.refl s)

theorem noteValue_audits {valueName : Option String} {line : Nat}
    (h : ∀ name ∈ valueName, ctx.isConstructor s.env name = true → P ⟨name, line, s.env⟩) :
    Audits ctx P s (s.noteValue ctx valueName line) := by
  cases valueName with
  | none => exact .ofCalm (.refl s)
  | some name => exact s.noteExport_audits (h name rfl)

theorem noteDeclaration_audits {name : String} {line : Nat}
    (h : ctx.isConstructor s.env name = true → P ⟨name, line, s.env⟩) :
    Audits ctx P s (s.noteDeclaration ctx name line) := by
  unfold noteDeclaration
  split
  · rename_i hctor
    split
    · exact .none .nil (List.append_nil _).symm rfl (List.prefix_append _ _)
    · exact s.checkFields_audits (h (Bool.and_eq_true_iff.mp hctor).1)
  · exact .ofCalm (.refl s)

/-- After a constructor was declared, it has been checked or waits to be. -/
theorem noteDeclaration_noted {name : String} {line : Nat}
    (h : ctx.isConstructor s.env name = true) :
    name ∈ (s.noteDeclaration ctx name line).completedCtors ∨
      ∃ c ∈ (s.noteDeclaration ctx name line).pendingCtors, c.1 = name := by
  unfold noteDeclaration
  rw [h, Bool.true_and]
  split
  · split
    · exact .inr ⟨(name, line), List.mem_append_right _ (List.mem_singleton_self _), rfl⟩
    · exact .inl (s.mem_checkFields ctx name line)
  · rename_i hcompleted
    exact .inl (by simpa using hcompleted)

/-- Those that wait are checked one after the other. -/
theorem checkAll_audits (waiting : List (String × Nat))
    (h : ∀ c ∈ waiting, P ⟨c.1, c.2, s.env⟩) :
    Audits ctx P s (waiting.foldl (fun s c => s.checkFields ctx c.1 c.2) s) := by
  induction waiting generalizing s with
  | nil => exact .ofCalm (.refl s)
  | cons c waiting ih =>
    refine (s.checkFields_audits (h c List.mem_cons_self)).trans (ih _ fun d hd => ?_)
    rw [(s.checkFields_records ctx c.1 c.2).env]
    exact h d (List.mem_cons_of_mem c hd)

end Operations

/-- A session that was led on to another one without forgetting a constructor. -/
structure Remembers (s s' : Session) : Prop where
  completed : s.completedCtors <+: s'.completedCtors
  pending : s.pendingCtors <+: s'.pendingCtors

namespace Remembers

variable {s s' s'' : Session}

theorem refl (s : Session) : Remembers s s := ⟨List.prefix_refl _, List.prefix_refl _⟩

theorem trans (h : Remembers s s') (h' : Remembers s' s'') : Remembers s s'' :=
  ⟨h.completed.trans h'.completed, h.pending.trans h'.pending⟩

end Remembers

theorem Audits.remembers {ctx : Context} {P : FieldCheck → Prop} {s s' : Session}
    (h : Audits ctx P s s') : Remembers s s' := by
  obtain ⟨checks, haudited, -⟩ := h
  exact ⟨haudited.completed ▸ List.prefix_append _ _, haudited.pending⟩

theorem Calm.remembers {s s' : Session} (h : s.Calm s') : Remembers s s' :=
  ⟨h.completed ▸ List.prefix_refl _, h.pending ▸ List.prefix_refl _⟩

theorem reportAll_remembers (s : Session) (ds : List Diagnostic) :
    s.Remembers (s.reportAll ds) := ⟨List.prefix_refl _, List.prefix_refl _⟩

theorem checkAll_remembers (ctx : Context) (s : Session) (waiting : List (String × Nat)) :
    Remembers s (waiting.foldl (fun s c => s.checkFields ctx c.1 c.2) s) :=
  (s.checkAll_audits (P := fun _ => True) waiting fun _ _ => trivial).remembers

/-- All constructors that wait have been checked in the end. -/
theorem mem_checkAll (ctx : Context) (s : Session) {waiting : List (String × Nat)}
    {c : String × Nat} (hc : c ∈ waiting) :
    c.1 ∈ (waiting.foldl (fun s c => s.checkFields ctx c.1 c.2) s).completedCtors := by
  induction waiting generalizing s with
  | nil => cases hc
  | cons d waiting ih =>
    rcases List.mem_cons.mp hc with rfl | hc
    · exact (checkAll_remembers ctx _ waiting).completed.subset (s.mem_checkFields ctx c.1 c.2)
    · exact ih _ hc

end Session

/-! ### Courses -/

/-- Whether an assignment to the target exports its value. -/
def Target.isExport : Target → Bool
  | exports => true
  | exportProperty _ => true
  | _ => false

theorem Target.complete_audits {ctx : Context} {P : FieldCheck → Prop} {valueName : Option String}
    {line : Nat} {target : Target} {s : Session} (t : Ty)
    (h : target.isExport = true → ∀ name ∈ valueName, ctx.isConstructor s.env name = true →
      P ⟨name, line, s.env⟩) :
    s.Audits ctx P (target.complete ctx valueName t line s) := by
  cases target with
  | exports =>
    refine (Session.Audits.ofCalm (s.assignExports_calm ctx t line)).trans ?_
    refine Session.noteValue_audits _ ?_
    rw [(s.assignExports_records ctx t line).env]
    exact h rfl
  | exportProperty key =>
    have hset : s.Calm { s with properties := Ty.setField s.properties key t } :=
      .quiet rfl rfl rfl
    exact (Session.Audits.ofCalm hset).trans (Session.noteValue_audits _ (h rfl))
  | _ => exact .ofCalm (.refl s)

theorem Target.complete_remembers (ctx : Context) (valueName : Option String) (t : Ty)
    (line : Nat) (target : Target) (s : Session) :
    s.Remembers (target.complete ctx valueName t line s) :=
  (complete_audits (P := fun _ => True) t fun _ _ _ _ => trivial).remembers

theorem Step.apply_audits {ctx : Context} {P : FieldCheck → Prop} {st : Step} {s : Session}
    (hreports : FieldFree st.reports)
    (h : ∀ name line, st = .noteDeclaration name line → ctx.isConstructor s.env name = true →
      P ⟨name, line, s.env⟩) : s.Audits ctx P (st.apply ctx s) := by
  cases st with
  | report ds plain => exact .reportAll hreports
  | hoist ss => exact .ofCalm (s.hoist_binds ctx ss).calm
  | declare b => exact .ofCalm (s.declare_binds b).calm
  | declareResult kind name line type =>
    exact .ofCalm (s.declareResult_binds kind name line type).calm
  | declareKeys l => exact .ofCalm (s.declareKeys_binds ctx l).calm
  | noteDeclaration name line => exact s.noteDeclaration_audits (h name line rfl)

theorem Step.apply_remembers (ctx : Context) (st : Step) (s : Session) :
    s.Remembers (st.apply ctx s) := by
  cases st with
  | report ds plain => exact s.reportAll_remembers ds
  | _ =>
    refine (apply_audits (P := fun _ => True) ?_ fun _ _ _ _ => trivial).remembers
    exact .nil

theorem Target.unknown_fieldFree (env : Env) (line : Nat) (target : Target) :
    FieldFree (target.unknown env line) := by
  have hname : ∀ name, FieldFree (Verify.unknown env name line) := fun name => by
    unfold Verify.unknown
    split
    · exact .singleton nofun
    · exact .nil
  cases target with
  | name text => exact hname text
  | prototypeField ctor key => exact hname ctor
  | _ => exact .nil

namespace Course

/-- Before and after an assignment looks at its value, it reports nothing about fields. -/
theorem assign_steps (target : Target) (e : Expr) (line : Nat) (body : Demand → Course Ty)
    (ctx : Context) (s : Session) :
    ∃ d t ds ds', FieldFree ds ∧ FieldFree ds' ∧
      (target.demand ctx line).run s = (d, s.reportAll ds) ∧
      (assign target e line body).after ctx s = target.complete ctx e.identText? t line
        (((body d).after ctx (s.reportAll ds)).reportAll ds') := by
  obtain ⟨ds, hds, hasked⟩ := target.demand_reports ctx line s
  let d := ((target.demand ctx line).run s).1
  let asked := s.reportAll (target.unknown s.env line ++ ds)
  let looked := (body d).after ctx asked
  have hdemand : (target.demand ctx line).run s = (d, asked) := Prod.ext rfl hasked
  obtain ⟨ds', hds', hfitted⟩ := settle_reports d e ((body d).value ctx asked) line looked
  have hsettle : (d.settle e ((body d).value ctx asked) line).run looked =
      (_, looked.reportAll ds') := Prod.ext rfl hfitted
  refine ⟨d, _, _, ds', ?_, hds'.fieldFree, hdemand, congrArg Prod.snd (run_assign hdemand hsettle)⟩
  exact (target.unknown_fieldFree s.env line).append hds.fieldFree

/-- What a walk does when the fields of a constructor are checked: a constructor was declared, or it
is the value of an assignment that exports it. -/
inductive Triggers {α : Type} (c : Course α) (ctx : Context) (s : Session) : FieldCheck → Prop
  | declared {inner : Context} {t : Session} {name : String} {line : Nat} :
      (Course.step (.noteDeclaration name line)).Passes inner t c ctx s →
      inner.isConstructor t.env name = true → Triggers c ctx s ⟨name, line, t.env⟩
  | exported {inner : Context} {t t' : Session} {target : Target} {e : Expr} {line : Nat}
      {body : Demand → Course Ty} {d : Demand} {name : String} :
      (Course.assign target e line body).Passes inner t c ctx s →
      target.isExport = true → e.identText? = some name →
      (target.demand inner line).run t = (d, t') →
      inner.isConstructor ((body d).after inner t').env name = true →
      Triggers c ctx s ⟨name, line, ((body d).after inner t').env⟩

/-- What a part of a course triggers, the course triggers. -/
theorem Triggers.lift {α β : Type} {c : Course α} {c' : Course β} {ctx ctx' : Context}
    {s s' : Session} {check : FieldCheck}
    (hlift : ∀ {γ : Type} {d : Course γ} {inner : Context} {t : Session},
      d.Passes inner t c ctx s → d.Passes inner t c' ctx' s')
    (h : Triggers c ctx s check) : Triggers c' ctx' s' check := by
  cases h with
  | declared hpasses hctor => exact .declared (hlift hpasses) hctor
  | exported hpasses htarget hname hdemand hctor =>
    exact .exported (hlift hpasses) htarget hname hdemand hctor

/-- **A course makes the checks that it triggers**, if it reports nothing about fields otherwise. -/
theorem audits {α : Type} (c : Course α) (ctx : Context) (s : Session)
    (h : FieldFree (c.reports ctx s)) : s.Audits ctx (c.Triggers ctx s) (c.after ctx s) := by
  induction c generalizing ctx s with
  | pure a => exact .ofCalm (.refl s)
  | bind c f ihc ihf =>
    obtain ⟨hfirst, hrest⟩ := List.forall_mem_append.mp h
    exact ((ihc ctx s hfirst).mono fun _ => .lift .first).trans
      ((ihf _ ctx _ hrest).mono fun _ => .lift .next)
  | session => exact .ofCalm (.refl s)
  | step st =>
    refine st.apply_audits h ?_
    rintro name line rfl hctor
    exact .declared .here hctor
  | assign target e line body ih =>
    obtain ⟨d, t, ds, ds', hds, hds', hdemand, hafter⟩ := assign_steps target e line body ctx s
    unfold reports at h
    rw [hdemand] at h
    rw [hafter]
    -- only when it is completed does an assignment check fields, and only if it exports
    refine (Session.Audits.reportAll hds).trans ?_
    refine ((ih d ctx _ h).mono fun _ => .lift (.value hdemand)).trans ?_
    refine (Session.Audits.reportAll hds').trans (target.complete_audits _ ?_)
    exact fun htarget name hname hctor => .exported .here htarget hname hdemand hctor
  | inBlock c ih =>
    have hinside := (ih ctx (s.enter (.ofKind .block)) h).mono fun _ => Triggers.lift .block
    exact (Session.Audits.ofCalm (s.enter_calm _)).trans
      (hinside.trans (.ofCalm (Session.leave_calm _)))
  | function head plan ss c ih =>
    let inner := ctx.inside (plan.frame head)
    have hinside := (ih inner _ h).outside.mono fun _ => Triggers.lift .body
    exact (Session.Audits.ofCalm (s.enterFunction_calm inner head plan ss)).trans
      (hinside.trans (.ofCalm (Session.leaveFunction_calm inner _ head plan ss)))

/-- No course forgets a constructor. -/
theorem remembers {α : Type} (c : Course α) (ctx : Context) (s : Session) :
    s.Remembers (c.after ctx s) := by
  induction c generalizing ctx s with
  | pure a => exact .refl s
  | bind c f ihc ihf => exact (ihc ctx s).trans (ihf _ ctx _)
  | session => exact .refl s
  | step st => exact st.apply_remembers ctx s
  | assign target e line body ih =>
    obtain ⟨d, t, ds, ds', -, -, -, hafter⟩ := assign_steps target e line body ctx s
    rw [hafter]
    have hbody := (s.reportAll_remembers ds).trans (ih d ctx (s.reportAll ds))
    exact (hbody.trans (Session.reportAll_remembers _ ds')).trans
      (target.complete_remembers _ _ _ _ _)
  | inBlock c ih =>
    have hinside := (s.enter_calm _).remembers.trans (ih ctx (s.enter (.ofKind .block)))
    exact hinside.trans (Session.leave_calm _).remembers
  | function head plan ss c ih =>
    let inner := ctx.inside (plan.frame head)
    exact ((s.enterFunction_calm inner head plan ss).remembers.trans (ih inner _)).trans
      (Session.leaveFunction_calm inner _ head plan ss).remembers

namespace Passes

variable {α β : Type} {d : Course β} {inner ctx : Context} {t s : Session} {c : Course α}

/-- What was noted about constructors on the way is still noted at the end. -/
theorem remembers (h : Passes d inner t c ctx s) :
    (d.after inner t).Remembers (c.after ctx s) := by
  induction h with
  | here => exact .refl _
  | @first _ _ c f ctx s _ ih =>
    exact ih.trans ((f (c.value ctx s)).remembers ctx (c.after ctx s))
  | next _ ih => exact ih
  | @value target e line body ctx s s' demand hdemand _ ih =>
    obtain ⟨d', type, ds, ds', -, -, hrun, hafter⟩ := assign_steps target e line body ctx s
    cases hdemand.symm.trans hrun
    rw [hafter]
    exact (ih.trans (Session.reportAll_remembers _ ds')).trans
      (target.complete_remembers _ _ _ _ _)
  | block _ ih => exact ih.trans (Session.leave_calm _).remembers
  | @body head plan ss c ctx s _ ih =>
    let inside := ctx.inside (plan.frame head)
    exact ih.trans (Session.leaveFunction_calm inside _ head plan ss).remembers

/-- What a part of a course comes to, the course comes to. -/
theorem points_subset (h : Passes d inner t c ctx s) : d.points inner t ⊆ c.points ctx s := by
  induction h with
  | here => exact List.Subset.refl _
  | first _ ih => exact List.Subset.trans ih (List.subset_append_left _ _)
  | next _ ih => exact List.Subset.trans ih (List.subset_append_right _ _)
  | value hdemand _ ih =>
    rw [points_assign hdemand]
    exact List.Subset.trans ih fun _ hpt => List.mem_append_left _ (List.mem_cons_of_mem _ hpt)
  | block _ ih =>
    exact List.Subset.trans ih fun _ hpt => List.mem_append_left _ (List.mem_cons_of_mem _ hpt)
  | body _ ih =>
    exact List.Subset.trans ih fun _ hpt => List.mem_append_left _ (List.mem_cons_of_mem _ hpt)

end Passes

/-- Checks are made in environments that the walk comes to. -/
theorem Triggers.reached {α : Type} {c : Course α} {ctx : Context} {s : Session}
    {check : FieldCheck} (h : c.Triggers ctx s check) :
    ∃ pt ∈ c.points ctx s, pt.2.env = check.env := by
  cases h with
  | @declared inner t name line hpasses hctor =>
    exact ⟨(inner, t), hpasses.points_subset (mem_points _ inner t), rfl⟩
  | @exported inner t t' target e line body d name hpasses _ _ hdemand _ =>
    have hbody : (body d).Passes inner t' (.assign target e line body) inner t :=
      .value hdemand .here
    exact ⟨(inner, (body d).after inner t'),
      hpasses.points_subset (hbody.points_subset ((body d).after_mem_points inner t')), rfl⟩

end Course

/-! ### Declared functions -/

/-- Checking a function leads back to the environment in which it stands. -/
theorem functionCourse_env (b : Script.Block) (ctx : Context) (head : FunctionHead)
    (declared : Option Ty) (s : Session) :
    ((b.functionCourse ctx head declared).after ctx s).env = s.env := by
  obtain ⟨span, ss⟩ := b
  let plan := planFunction s.env (ctx.line head.pos) head declared
  show ((if plan.visits = true then _ else _ : Course Ty).after ctx (s.reportAll plan.errors)).env =
    s.env
  split
  · let body := courseOfStmts (ctx.inside (plan.frame head)) ss
    show ((Course.function head plan ss body).after ctx (s.reportAll plan.errors)).env = s.env
    exact Course.function_env (fun ctx s => body.balanced ctx s) ctx (s.reportAll plan.errors)
  · rfl

/-- A declared function with a type is noted if it is a constructor. -/
theorem function_noted {span : Span} {name : Script.Ident} {ps : List Script.Param}
    {b : Script.Block} {ctx : Context} {s : Session} (htyped : span.pos ∉ s.untyped)
    (hknown : s.env.Knows name.text) (hctor : ctx.isConstructor s.env name.text = true) :
    name.text ∈ (((Stmt.function span name ps b).course ctx).after ctx s).completedCtors ∨
      ∃ c ∈ (((Stmt.function span name ps b).course ctx).after ctx s).pendingCtors,
        c.1 = name.text := by
  let declared := if s.untyped.contains span.pos then none else s.typeOf? name.text
  have hdeclared : declared.isSome = true := by
    have hfalse : s.untyped.contains span.pos = false := by simpa using htyped
    dsimp only [declared]
    rw [hfalse, if_neg Bool.false_ne_true, Session.typeOf?, Option.isSome_map]
    exact hknown
  let head : FunctionHead := ⟨name.text, span.pos, ps⟩
  -- whether it is a constructor is asked after its body, in the environment from before
  have henv := functionCourse_env b ctx head declared s
  show name.text ∈ ((if declared.isSome = true then _ else _ : Course Unit).after ctx
    ((b.functionCourse ctx head declared).after ctx s)).completedCtors ∨
    ∃ c ∈ ((if declared.isSome = true then _ else _ : Course Unit).after ctx
      ((b.functionCourse ctx head declared).after ctx s)).pendingCtors, c.1 = name.text
  rw [if_pos hdeclared]
  exact Session.noteDeclaration_noted _ (henv.symm ▸ hctor)

/-! ### Programs -/

/-- The fields of a constructor are checked while a program is, or at its end. -/
def Due (script : Script) (lines : LineMap) (header : Header) (imports : List ImportedType)
    (policy : ExportPolicy) (c : FieldCheck) : Prop :=
  let start := Session.ofHeader header imports
  let ctx := moduleContext script lines header policy start.env
  let walked := checkModule ctx start script.statements
  (courseOfStmts ctx script.statements).Triggers ctx (moduleStart ctx start script.statements) c ∨
    (c.ctor, c.line) ∈ walked.pendingCtors ∧ c.env = walked.env

section Programs

variable {script : Script} {lines : LineMap} {header : Header} {imports : List ImportedType}
  {policy : ExportPolicy} (hheader : header.Tidy) (himports : ∀ i ∈ imports, i.type.Tidy)

include hheader himports

/-- Checks are made in environments of tidy types. -/
theorem Due.tidy {c : FieldCheck} (h : Due script lines header imports policy c) : c.env.Tidy := by
  have htidy : ∀ {ctx s}, Reached script lines header imports policy ctx s → s.env.Tidy :=
    reached_tidy hheader himports
  rcases h with htriggers | ⟨-, henv⟩
  · obtain ⟨pt, hpt, henv⟩ := htriggers.reached
    exact henv ▸ htidy hpt
  · rw [henv, checkModule_after]
    exact htidy (Course.after_mem_points _ _ _)

variable (script lines policy)

/-- The checks that are made while a program is checked. -/
theorem verify_audits :
    let start := Session.ofHeader header imports
    let ctx := moduleContext script lines header policy start.env
    (moduleStart ctx start script.statements).Audits ctx (Due script lines header imports policy)
      ((checkModule ctx start script.statements).checkPending ctx) := by
  intro start ctx
  let walked := checkModule ctx start script.statements
  have hstart : (moduleStart ctx start script.statements).env.Tidy :=
    Session.hoist_tidy ctx ((Session.ofHeader_tidy hheader himports).push (.ofKind .module)) _
  have hyields := Script.courseOfStmts_yields script.statements ctx
    (moduleContext_tidy hheader himports script lines policy) _ hstart
  have hwalk := (courseOfStmts ctx script.statements).audits ctx _ hyields.reports
  rw [← checkModule_after] at hwalk
  exact (hwalk.mono fun _ => .inl).trans
    (walked.checkAll_audits walked.pendingCtors fun c hc => .inr ⟨hc, rfl⟩)

end Programs

/-- Nothing is known of constructors when the walk through a module starts. -/
theorem moduleStart_calm (ctx : Context) (header : Header) (imports : List ImportedType)
    (ss : List Stmt) :
    Session.Calm { env := (imports.foldl Env.withImport
      (Env.initial.push (.ofKind .header))).withAliases header }
      (moduleStart ctx (Session.ofHeader header imports) ss) :=
  ((Session.ofHeader_binds header imports).calm.trans (Session.enter_calm _ _)).trans
    (Session.hoist_binds ctx _ ss).calm

/-- What a check reports is told apart by constructor and field. -/
theorem FieldCheck.found_names (ctx : Context) (c : FieldCheck) :
    (c.found ctx).map (fun d => (d.funcName, d.fieldName)) =
      (ctx.missingFields c.env c.ctor).map fun field => (some c.ctor, some field) := by
  rw [found, List.map_map]
  rfl

/-- Checks of different constructors in tidy environments report no field of any twice. -/
theorem found_nodup (ctx : Context) {checks : List FieldCheck}
    (hdistinct : (checks.map (·.ctor)).Nodup) (htidy : ∀ c ∈ checks, c.env.Tidy) :
    ((checks.flatMap (·.found ctx)).map fun d => (d.funcName, d.fieldName)).Nodup := by
  rw [List.map_flatMap, List.nodup_flatMap]
  constructor
  · intro c hc
    rw [c.found_names]
    refine (ctx.missingFields_nodup (htidy c hc) c.ctor).map ?_
    rintro field field' heq
    exact Option.some.inj (congrArg Prod.snd heq)
  · refine (List.pairwise_map.mp hdistinct).imp fun {c c'} hne => ?_
    intro pair hpair hpair'
    replace hpair : pair ∈ (c.found ctx).map fun d => (d.funcName, d.fieldName) := hpair
    replace hpair' : pair ∈ (c'.found ctx).map fun d => (d.funcName, d.fieldName) := hpair'
    rw [c.found_names] at hpair
    rw [c'.found_names] at hpair'
    obtain ⟨field, -, rfl⟩ := List.mem_map.mp hpair
    obtain ⟨field', -, heq⟩ := List.mem_map.mp hpair'
    exact hne (Option.some.inj (congrArg Prod.fst heq)).symm

/-- What a check reports, field by field. -/
theorem FieldCheck.mem_found {ctx : Context} {c : FieldCheck} {d : Diagnostic} :
    d ∈ c.found ctx ↔ ∃ fields field t, d = missingField c.ctor field c.line ∧
      (c.env.instanceType? c.ctor).bind (·.asObject?) = some fields ∧ (field, t) ∈ fields ∧
      isOptional t = false ∧
      ¬ (∃ f, ctx.summary.declarationOf? c.ctor = some f ∧ f.writes field = true) ∧
      ¬ ∃ p ∈ ctx.summary.prototypes, p.ctor = c.ctor ∧ p.field = field := by
  have hprovides : ∀ field, ctx.provides c.ctor field = false ↔
      ¬ (∃ f, ctx.summary.declarationOf? c.ctor = some f ∧ f.writes field = true) ∧
      ¬ ∃ p ∈ ctx.summary.prototypes, p.ctor = c.ctor ∧ p.field = field := fun field => by
    rw [← Bool.not_eq_true, Context.provides_iff, not_or]
  rw [found, List.mem_map]
  constructor
  · rintro ⟨field, hfield, rfl⟩
    obtain ⟨fields, t, hfields, hmem, hoptional, hmissing⟩ := Context.mem_missingFields.mp hfield
    exact ⟨fields, field, t, rfl, hfields, hmem, hoptional, (hprovides field).mp hmissing⟩
  · rintro ⟨fields, field, t, rfl, hfields, hmem, hoptional, hmissing⟩
    exact ⟨field, Context.mem_missingFields.mpr
      ⟨fields, t, hfields, hmem, hoptional, (hprovides field).mpr hmissing⟩, rfl⟩

/-- **Constructors are checked exactly once.** No field is reported twice as missing from the same
constructor. All that is reported about missing fields is what some checks report, one after the
other, of which no two are for the same constructor. Each of them is made when its constructor is
exported or declared, or at the end, and reports the fields of the instance type that is found then
(none if it is not an object) which may not be left out and which neither the first declaration
of the constructor nor an assignment to its prototype provides. And wherever the walk comes to a
declared function with a type that is a constructor there, one of the checks is for it.

That types are tidy holds of every header that is read (`parseHeaderAt_tidy`) and of what such
headers lend to others (`Header.Tidy.exportedAlias?`). -/
theorem constructor_fields_checked_once (script : Script) (lines : LineMap) (header : Header)
    (imports : List ImportedType) (policy : ExportPolicy) (hheader : header.Tidy)
    (himports : ∀ i ∈ imports, i.type.Tidy) :
    let start := Session.ofHeader header imports
    let ctx := moduleContext script lines header policy start.env
    let missing := (verify script lines header imports policy).errorsOf .missingFieldInConstructor
    (missing.map fun d => (d.funcName, d.fieldName)).Nodup ∧
    ∃ checks : List FieldCheck, (checks.map (·.ctor)).Nodup ∧
      missing = checks.flatMap (·.found ctx) ∧
      (∀ c ∈ checks, Due script lines header imports policy c ∧
        ∀ d, d ∈ c.found ctx ↔ ∃ fields field t, d = missingField c.ctor field c.line ∧
          (c.env.instanceType? c.ctor).bind (·.asObject?) = some fields ∧ (field, t) ∈ fields ∧
          isOptional t = false ∧
          ¬ (∃ f, ctx.summary.declarationOf? c.ctor = some f ∧ f.writes field = true) ∧
          ¬ ∃ p ∈ ctx.summary.prototypes, p.ctor = c.ctor ∧ p.field = field) ∧
      ∀ inner s span name ps b,
        Takes script lines header imports policy ((Stmt.function span name ps b).course inner)
          inner s →
        span.pos ∉ s.untyped → s.env.Knows name.text →
        inner.isConstructor s.env name.text = true → ∃ c ∈ checks, c.ctor = name.text := by
  intro start ctx missing
  let walked := checkModule ctx start script.statements
  obtain ⟨checks, haudited, hdue⟩ := verify_audits script lines policy hheader himports
  have hstart := moduleStart_calm ctx header imports script.statements
  obtain ⟨ds, hds, hstarted⟩ := hstart.errors
  have hcompleted : (walked.checkPending ctx).completedCtors = checks.map (·.ctor) := by
    rw [haudited.completed, hstart.completed]
    rfl
  have hdistinct : (checks.map (·.ctor)).Nodup := by
    rw [← hcompleted]
    refine haudited.distinct ?_
    rw [hstart.completed]
    exact List.nodup_nil
  have hmissing : missing = checks.flatMap (·.found ctx) := by
    show missingOf ((walked.checkPending ctx).errors ++ _) = _
    rw [missingOf_append, (missingExport_ordinary _ _).fieldFree.missingOf, List.append_nil,
      haudited.errors, hstarted, missingOf_append, hds.fieldFree.missingOf]
    rfl
  refine ⟨?_, checks, hdistinct, hmissing, fun c hc => ⟨hdue c hc, fun d => c.mem_found⟩, ?_⟩
  · rw [hmissing]
    exact found_nodup ctx hdistinct fun c hc => (hdue c hc).tidy hheader himports
  · intro inner s span name ps b htakes htyped hknown hctor
    have hremembers := Course.Passes.remembers htakes
    have hfinal : name.text ∈ (walked.checkPending ctx).completedCtors := by
      rw [← checkModule_after] at hremembers
      -- what still waits after the walk is checked at the end
      rcases function_noted htyped hknown hctor with hdone | ⟨c, hc, hname⟩
      · exact (Session.checkAll_remembers ctx walked _).completed.subset
          (hremembers.completed.subset hdone)
      · exact hname ▸ Session.mem_checkAll ctx walked (hremembers.pending.subset hc)
    rw [hcompleted] at hfinal
    exact List.mem_map.mp hfinal

/-- A constructor of pairs that sets one field, and its export. -/
def pairText : String := "function Pair() \x7b this.x = 1; \x7d\nexports.Pair = Pair;"

/-- The body of the constructor. -/
def pairBody : Script.Block :=
  .mk ⟨16, 31⟩ [.expression ⟨18, 28⟩ (.binary ⟨18, 28⟩
    (.member ⟨18, 24⟩ (.this ⟨18, 22⟩) ⟨⟨23, 24⟩, "x", false⟩) (.mark .assign)
    (.number ⟨⟨27, 28⟩, "1", false, false, false⟩))]

/-- The program as read from its text. -/
def pairScript : Script where
  length := 52
  statements :=
    [.function ⟨0, 31⟩ ⟨⟨9, 13⟩, "Pair", false⟩ [] pairBody,
      .expression ⟨32, 51⟩ (.binary ⟨32, 51⟩
        (.member ⟨32, 44⟩ (.ident ⟨⟨32, 39⟩, "exports", false⟩) ⟨⟨40, 44⟩, "Pair", false⟩)
        (.mark .assign) (.ident ⟨⟨47, 51⟩, "Pair", false⟩))]
  comments := []
  errors := []

/-- The header `type Pair = {'x': Number, 'y': Number}`, `Pair : (this: Pair) => void`. -/
def pairHeader : Header :=
  ⟨[.typeAlias ⟨"Pair", [], .object [("x", .ofName "Number"), ("y", .ofName "Number")], 1⟩,
    .value ⟨"Pair", .function [] (.ofName "void") (some (.ofName "Pair")), 2⟩]⟩

theorem pairHeader_tidy : pairHeader.Tidy := by
  refine List.forall_mem_cons.mpr ⟨?_, List.forall_mem_singleton.mpr ?_⟩
  · refine Ty.tidy_object_iff.mpr ⟨by decide, ?_⟩
    exact List.forall_mem_cons.mpr ⟨Ty.tidy_ofName _,
      List.forall_mem_singleton.mpr (Ty.tidy_ofName _)⟩
  · refine Ty.tidy_of_children nofun ?_
    exact List.forall_mem_cons.mpr ⟨Ty.tidy_ofName _,
      List.forall_mem_singleton.mpr (Ty.tidy_ofName _)⟩

/-- The declaration leaves the check to the export, which reports the other field. -/
theorem constructor_fields_checked_once_pair :
    let missing := (verify pairScript (.ofText pairText) pairHeader [] {}).errorsOf
      .missingFieldInConstructor
    missing = [missingField "Pair" "y" 2] ∧
      ∃ c, c.ctor = "Pair" ∧ Due pairScript (.ofText pairText) pairHeader [] {} c ∧
        c.found (moduleContext pairScript (.ofText pairText) pairHeader {}
          (Session.ofHeader pairHeader []).env) ⊆ missing := by
  let start := Session.ofHeader pairHeader []
  let ctx := moduleContext pairScript (.ofText pairText) pairHeader {} start.env
  let s := moduleStart ctx start pairScript.statements
  obtain ⟨-, checks, -, hmissing, hchecks, hreached⟩ := constructor_fields_checked_once pairScript
    (.ofText pairText) pairHeader [] {} pairHeader_tidy nofun
  have hpair : Takes pairScript (.ofText pairText) pairHeader [] {}
      ((Stmt.function ⟨0, 31⟩ ⟨⟨9, 13⟩, "Pair", false⟩ [] pairBody).course ctx) ctx s :=
    .first .here
  have hknown : (s.env.lookup? "Pair").isSome = true := by decide +kernel
  obtain ⟨c, hc, hctor⟩ := hreached ctx s ⟨0, 31⟩ ⟨⟨9, 13⟩, "Pair", false⟩ []
    pairBody hpair (by decide +kernel) hknown (by decide +kernel)
  refine ⟨by decide +kernel, c, hctor, (hchecks c hc).1, fun d hd => ?_⟩
  rw [hmissing]
  exact List.mem_flatMap.mpr ⟨c, hc, hd⟩

end Verify
end Countersign
