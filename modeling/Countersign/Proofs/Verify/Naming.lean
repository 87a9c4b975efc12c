/-
# Names that are not known

A name is reported as not known where it occurs, and only if no scope in force binds it. What is
bound around an occurrence is in force there: the parameters, hoisted variables and hoisted
functions of a body are bound before it is looked at, and no scope is left before what it belongs to
has been checked. Whatever a region binds is known for all of it.

`Names` says that a part of a walk reports some of the occurrences in that part, in their order, and
none whose name is known at its beginning or bound by a region around it. An expression that is a
function does not bind its own name: in its body that name is known if it is known around it.

Key definitions: `Occurrence.unknown`, `Session.Named`, `Names`.
Key theorems: `Names.inRegion`, `Script.checkStmts_names`, `variables_known`,
`function_names_known`.
-/
import Countersign.Proofs.Script.Occurrences
import Countersign.Proofs.Verify.Actions
import Countersign.Proofs.Verify.Calm

namespace Countersign

open Script (Occurrence Region Stmt around)

/-- The name is not known where it occurs. -/
def Script.Occurrence.unknown (lines : LineMap) (o : Occurrence) : Diagnostic :=
  Verify.unknownName o.name (lines.lineNumber o.pos)

/-- The region binds the name, as a variable or as a function. -/
def Script.Region.Binds (r : Region) (name : String) : Prop := r.Variable name ∨ r.Function name

/-- No region around the occurrence binds its name. -/
def Script.Occurrence.Unbound (o : Occurrence) : Prop := ∀ r ∈ o.regions, ¬ r.Binds o.name

namespace Verify

/-- The diagnostics about names that are not known. -/
def unknownsOf (ds : List Diagnostic) : List Diagnostic := ds.filter (·.kind == .unknownIdentifier)

theorem unknownsOf_append (ds ds' : List Diagnostic) :
    unknownsOf (ds ++ ds') = unknownsOf ds ++ unknownsOf ds' := List.filter_append ..

theorem Ordinary.unknownsOf {ds : List Diagnostic} (h : Ordinary ds) :
    Verify.unknownsOf ds = [] := by
  refine List.filter_eq_nil_iff.mpr fun d hd hkind => ?_
  have hordinary := h d hd
  rw [eq_of_beq hkind] at hordinary
  cases hordinary

/-! ### Reporting occurrences -/

/-- Of these occurrences some were reported, none of which is bound around, or known at first. -/
structure Session.Named (lines : LineMap) (os : List Occurrence) (s s' : Session) : Prop where
  covers : s.env.Covers s'.env
  errors : ∃ (ds : List Diagnostic) (free : List Occurrence), s'.errors = s.errors ++ ds ∧
    unknownsOf ds = free.map (·.unknown lines) ∧ free.Sublist os ∧
    ∀ o ∈ free, o.Unbound ∧ ¬ s.env.Knows o.name

namespace Session.Named

variable {lines : LineMap} {os os' : List Occurrence} {s s' s'' : Session}

/-- Whatever was reported was ordinary. -/
theorem ofCalm (h : s.Calm s') (hcovers : s.env.Covers s'.env) : Named lines [] s s' := by
  obtain ⟨ds, hds, herrors⟩ := h.errors
  exact ⟨hcovers, ds, [], herrors, hds.unknownsOf, .slnil, nofun⟩

theorem trans (h : Named lines os s s') (h' : Named lines os' s' s'') :
    Named lines (os ++ os') s s'' := by
  obtain ⟨ds, free, herrors, hunknown, hsub, hfree⟩ := h.errors
  obtain ⟨ds', free', herrors', hunknown', hsub', hfree'⟩ := h'.errors
  refine ⟨h.covers.trans h'.covers, ds ++ ds', free ++ free', ?_, ?_, hsub.append hsub', ?_⟩
  · rw [herrors', herrors, List.append_assoc]
  · rw [unknownsOf_append, hunknown, hunknown', List.map_append]
  · intro o ho
    rcases List.mem_append.mp ho with ho | ho
    · exact hfree o ho
    · -- names stay known, so what is not known later was not known at first
      obtain ⟨hunbound, hunknown⟩ := hfree' o ho
      exact ⟨hunbound, fun hknown => hunknown (h.covers.knows hknown)⟩

theorem weaken (h : Named lines os s s') (hsub : os.Sublist os') : Named lines os' s s' := by
  obtain ⟨ds, free, herrors, hunknown, hfree, hunbound⟩ := h.errors
  exact ⟨h.covers, ds, free, herrors, hunknown, hfree.trans hsub, hunbound⟩

/-- What a region binds is not reported where it was known at first. -/
theorem around {r : Region} (h : Named lines os s s')
    (hr : ∀ name, r.Binds name → s.env.Knows name) : Named lines (around r os) s s' := by
  obtain ⟨ds, free, herrors, hunknown, hfree, hunbound⟩ := h.errors
  refine ⟨h.covers, ds, free.map (·.within r), herrors, ?_, hfree.map _, ?_⟩
  · rw [hunknown, List.map_map]
    rfl
  · intro o ho
    obtain ⟨o, hmem, rfl⟩ := List.mem_map.mp ho
    obtain ⟨hinner, hunknown⟩ := hunbound o hmem
    refine ⟨fun r' hr' hbinds => ?_, hunknown⟩
    rcases List.mem_append.mp hr' with hr' | hr'
    · exact hinner r' hr' hbinds
    · obtain rfl := List.mem_singleton.mp hr'
      exact hunknown (hr _ hbinds)

/-- What was known before a scope was entered is known inside it, and so it is not reported; leaving
the scope leaves the names that were known before. -/
theorem leave {scope : Scope} {inner : Session} (h : Named lines os inner s')
    (henter : s.Calm inner) (hcovers : (s.env.push scope).Covers inner.env)
    (hleave : s'.Calm s'') (hpop : s''.env = s'.env.pop) : Named lines os s s'' := by
  obtain ⟨ds₀, hds₀, hfirst⟩ := henter.errors
  obtain ⟨ds, free, herrors, hunknown, hfree, hunbound⟩ := h.errors
  obtain ⟨ds₁, hds₁, hlast⟩ := hleave.errors
  refine ⟨hpop ▸ (hcovers.trans h.covers).leave, ds₀ ++ (ds ++ ds₁), free, ?_, ?_, hfree, ?_⟩
  · rw [hlast, herrors, hfirst, List.append_assoc, List.append_assoc]
  · rw [unknownsOf_append, unknownsOf_append, hds₀.unknownsOf, hds₁.unknownsOf, hunknown,
      List.nil_append, List.append_nil]
  · intro o ho
    obtain ⟨hinner, hunknown⟩ := hunbound o ho
    exact ⟨hinner, fun hknown => hunknown (hcovers.knows (hknown.push scope))⟩

theorem ofReports {α : Type} {m : Checking α} (h : Reports m s []) :
    Named lines [] s (m.run s).2 := by
  obtain ⟨ds, hds, hrun⟩ := h
  rw [hrun]
  exact ofCalm (s.reportAll_calm hds) (.refl _)

/-- A name is looked up where it occurs. -/
theorem ofName {α : Type} {m : Checking α} {name : String} {pos : Nat}
    (h : Reports m s (unknown s.env name (lines.lineNumber pos))) :
    Named lines [⟨name, pos, []⟩] s (m.run s).2 := by
  obtain ⟨ds, hds, hrun⟩ := h
  rw [hrun]
  refine ⟨.refl _, unknown s.env name (lines.lineNumber pos) ++ ds,
    if (s.env.lookup? name).isNone then [⟨name, pos, []⟩] else [], rfl, ?_, ?_, ?_⟩
  · rw [unknownsOf_append, hds.unknownsOf, List.append_nil, unknown]
    split <;> rfl
  · split
    · exact .refl _
    · exact List.nil_sublist _
  · intro o ho
    split at ho
    · rename_i hnone
      obtain rfl := List.mem_singleton.mp ho
      exact ⟨nofun, Env.not_knows_iff.mpr (Option.isNone_iff_eq_none.mp hnone)⟩
    · cases ho

end Session.Named

instance (lines : LineMap) : Passage (Session.Named lines) where
  refl s := .ofCalm (.refl s) (.refl _)
  trans := .trans

/-- Wherever it is carried out, the action reports some of the occurrences. -/
abbrev Names {α : Type} (lines : LineMap) (m : Checking α) (os : List Occurrence) : Prop :=
  Leads (Session.Named lines) m os

namespace Names

variable {α : Type} {lines : LineMap} {os os' : List Occurrence}

theorem change {f : Session → Session} (h : ∀ s : Session, s.Calm (f s))
    (hcovers : ∀ s : Session, s.env.Covers (f s).env) :
    Names lines (modify f : Checking Unit) [] := fun s => .ofCalm (h s) (hcovers s)

theorem binds {f : Session → Session} (h : ∀ s : Session, s.Binds (f s)) :
    Names lines (modify f : Checking Unit) [] := change (fun s => (h s).calm) fun s => (h s).covers

theorem weaken {m : Checking α} (h : Names lines m os) (hsub : os.Sublist os') :
    Names lines m os' := fun s => (h s).weaken hsub

/-- No name is looked at. -/
theorem nothing {m : Checking α} (h : Names lines m []) : Names lines m os :=
  h.weaken (List.nil_sublist _)

theorem ofReports {m : Checking α} (h : ∀ s, Reports m s []) : Names lines m [] :=
  fun s => .ofReports (h s)

theorem reportAll {ds : List Diagnostic} (h : Ordinary ds) :
    Names lines (Verify.reportAll ds) [] :=
  change (fun s => s.reportAll_calm h) (fun _ => .refl _)

/-- In a block's scope without names of its own. -/
theorem inBlock {m : Checking Unit} (hm : Names lines m os) :
    Names lines (do modify (·.enter (.ofKind .block)); m; modify (·.leave)) os :=
  fun s => (hm (s.enter (.ofKind .block))).leave (s.enter_calm _) (.refl _)
    (Session.leave_calm _) rfl

end Names

/-! ### Entering regions -/

namespace Session

/-- Entering a scope and binding in it what a region binds. -/
structure Opens (r : Region) (enter : Session → Session) : Prop where
  calm : ∀ s : Session, s.Calm (enter s)
  covers : ∀ s : Session, ∃ scope, (s.env.push scope).Covers (enter s).env
  knows : ∀ s name, r.Binds name → (enter s).env.Knows name

/-- Where a region is entered by binding names in a scope of its own. -/
theorem Opens.ofBinds {r : Region} {enter : Session → Session} (scope : Scope)
    (h : ∀ s : Session, (s.enter scope).Binds (enter s))
    (hknows : ∀ s name, r.Binds name → (enter s).env.Knows name) : Opens r enter :=
  ⟨fun s => (s.enter_calm scope).trans (h s).calm, fun s => ⟨scope, (h s).covers⟩, hknows⟩

/-- Leaving a scope. -/
structure Closes (leave : Session → Session) : Prop where
  calm : ∀ s : Session, s.Calm (leave s)
  pop : ∀ s : Session, (leave s).env = s.env.pop

theorem leave_closes : Closes (·.leave) := ⟨leave_calm, fun _ => rfl⟩

theorem leaveFunction_closes (ctx : Context) (head : FunctionHead) (plan : FunctionPlan)
    (ss : List Stmt) : Closes (·.leaveFunction ctx head plan ss) :=
  ⟨fun s => s.leaveFunction_calm ctx head plan ss, fun s => s.leaveFunction_env ctx head plan ss⟩

/-- What statements declare for the body around them is known once they are hoisted. -/
theorem hoist_knows (ctx : Context) (s : Session) {ss : List Stmt} {name : String}
    (h : Script.DeclaresVar ss name ∨ Script.DeclaresFunction ss name) :
    (s.hoist ctx ss).env.Knows name := by
  rcases h with h | h
  · obtain ⟨site, hsite, rfl⟩ := h.hoisted
    exact s.hoist_knows_var ctx hsite
  · obtain ⟨site, hsite, rfl⟩ := h.hoisted
    exact s.hoist_knows_function ctx hsite

theorem enterBlock_opens (ctx : Context) (ss : List Stmt) :
    Opens (.block ss) (·.enterBlock ctx ss) :=
  .ofBinds (.ofKind .block) (fun s => (s.enter (.ofKind .block)).hoist_binds ctx ss)
    fun _ _ h => hoist_knows ctx _ (.inr (h.resolve_left id))

theorem enterModule_opens (ctx : Context) (ss : List Stmt) :
    Opens (.module ss) fun s => (s.enter (.ofKind .module)).hoist ctx ss :=
  .ofBinds (.ofKind .module) (fun s => (s.enter (.ofKind .module)).hoist_binds ctx ss)
    fun _ _ h => hoist_knows ctx _ h

theorem enterFunction_opens (ctx : Context) (own : Option Script.Ident) (head : FunctionHead)
    (plan : FunctionPlan) (ss : List Stmt) :
    Opens (.function own head.params ss) (·.enterFunction ctx head plan ss) := by
  refine .ofBinds (.ofFunction plan.receiver) (fun s => s.enterFunction_binds ctx head plan ss) ?_
  intro s name h
  rcases h with (⟨p, hp, rfl⟩ | h) | h
  · exact (hoist_binds ctx _ ss).covers.knows (declareParams_knows ctx _ hp)
  · exact hoist_knows ctx _ (.inl h)
  · exact hoist_knows ctx _ (.inr h)

theorem enterHandler_opens (ctx : Context) (caught : Script.Ident) :
    Opens (.handler caught) fun s =>
      (s.enter (.ofKind .block)).declare ⟨caught.text, .any, ctx.line caught.span.pos⟩ := by
  refine .ofBinds (.ofKind .block) (fun s => (s.enter (.ofKind .block)).declare_binds _) ?_
  intro s name h
  obtain rfl : caught.text = name := h.resolve_right id
  exact declare_knows _ _

end Session

/-- In the scope of a region. -/
theorem Names.inRegion {lines : LineMap} {os : List Occurrence} {m : Checking Unit}
    {enter leave : Session → Session} {r : Region} (hm : Names lines m os)
    (henter : Session.Opens r enter) (hleave : Session.Closes leave) :
    Names lines (do modify enter; m; modify leave) (around r os) := by
  intro s
  obtain ⟨scope, hcovers⟩ := henter.covers s
  exact ((hm (enter s)).around (henter.knows s)).leave (henter.calm s) hcovers
    (hleave.calm _) (hleave.pop _)

/-! ### Targets of assignments -/

/-- The name that occurs in the target of an assignment at an offset, apart from the object of a
field. -/
def Target.occurrences (pos : Nat) : Target → List Occurrence
  | .name text => [⟨text, pos, []⟩]
  | .prototypeField ctor _ => [⟨ctor, pos, []⟩]
  | _ => []

theorem Target.demand_names (target : Target) (ctx : Context) (pos : Nat) :
    Names ctx.lines (target.demand ctx (ctx.line pos)) (target.occurrences pos) := by
  intro s
  have hreports := target.demand_reports ctx (ctx.line pos) s
  cases target with
  | name text => exact .ofName hreports
  | prototypeField ctor key => exact .ofName hreports
  | _ => exact .ofReports hreports

/-! ### Constructors and exports -/

section Constructors

variable {lines : LineMap} (ctx : Context) (s : Session)

theorem Session.checkFields_named (ctor : String) (line : Nat) :
    s.Named lines [] (s.checkFields ctx ctor line) := by
  unfold checkFields
  split
  · exact .ofCalm (.refl s) (.refl _)
  · refine ⟨.refl _, _, [], rfl, ?_, .slnil, nofun⟩
    refine List.filter_eq_nil_iff.mpr fun d hd => ?_
    obtain ⟨field, -, rfl⟩ := List.mem_map.mp hd
    exact Bool.false_ne_true

theorem Session.noteExport_named (name : String) (line : Nat) :
    s.Named lines [] (s.noteExport ctx name line) := by
  unfold noteExport
  split
  · have hnoted : s.Named lines [] { s with exportedCtors := s.exportedCtors ++ [name] } :=
      .ofCalm (.quiet rfl rfl rfl) (.refl _)
    exact hnoted.trans (checkFields_named ctx _ name line)
  · exact .ofCalm (.refl s) (.refl _)

theorem Session.noteValue_named (valueName : Option String) (line : Nat) :
    s.Named lines [] (s.noteValue ctx valueName line) := by
  cases valueName with
  | none => exact .ofCalm (.refl s) (.refl _)
  | some name => exact s.noteExport_named ctx name line

theorem Session.noteDeclaration_named (name : String) (line : Nat) :
    s.Named lines [] (s.noteDeclaration ctx name line) := by
  unfold noteDeclaration
  split
  · split
    · exact ⟨.refl _, [], [], (List.append_nil _).symm, rfl, .slnil, nofun⟩
    · exact s.checkFields_named ctx name line
  · exact .ofCalm (.refl s) (.refl _)

theorem Target.complete_named (valueName : Option String) (t : Ty) (line : Nat) (target : Target) :
    s.Named lines [] (target.complete ctx valueName t line s) := by
  cases target with
  | exports =>
    have hassigned : s.Named lines [] (s.assignExports ctx t line) :=
      .ofCalm (s.assignExports_calm ctx t line) ((s.assignExports_records ctx t line).env ▸ .refl _)
    exact hassigned.trans (Session.noteValue_named ctx _ valueName line)
  | exportProperty key =>
    have hset : s.Named lines [] { s with properties := Ty.setField s.properties key t } :=
      .ofCalm (.quiet rfl rfl rfl) (.refl _)
    exact hset.trans (Session.noteValue_named ctx _ valueName line)
  | _ => exact .ofCalm (.refl s) (.refl _)

end Constructors

/-- The rule of assignments is that of one operator. -/
theorem operatorRule_assign (op : Script.TokenKind) :
    (op == .mark .assign) = (operatorRule op == .assign) := by
  cases op with
  | mark m => cases m <;> rfl
  | word w => cases w <;> rfl
  | _ => rfl

/-- An assignment, given the target and how the value is looked at. -/
theorem assign_names {ctx : Context} {os : List Occurrence} {infer : Hint → Checking Ty}
    {r : Script.Expr} {pos : Nat} (hinfer : ∀ hint, Names ctx.lines (infer hint) os)
    (target : Target) :
    Names ctx.lines (do
      let demand ← target.demand ctx (ctx.line pos)
      let actual ← infer demand.hint
      let type ← demand.settle r actual (ctx.line pos)
      modify (target.complete ctx r.identText? type (ctx.line pos))
      pure type) (target.occurrences pos ++ os) := by
  refine (target.demand_names ctx pos).seq fun demand => (hinfer _).last fun actual => ?_
  refine (Names.ofReports (settle_reports demand r actual _)).bind fun type => ?_
  exact .bind (fun s => Target.complete_named ctx s _ type _ target) fun _ => .pure _

end Verify

namespace Script

open Verify

mutual

theorem Expr.infer_names : ∀ (e : Expr) (ctx : Context) (hint : Hint),
    Names ctx.lines (e.infer ctx hint) (e.occurrences none)
  | .ident i, ctx, _ => fun s => .ofName (nameType_reports i.text (ctx.line i.span.pos) s)
  | .string _, _, _ => .pure _
  | .number _, _, _ => .pure _
  | .regex _ _, _, _ => .pure _
  | .array _ es, ctx, _ =>
    .look fun _ => (inferElements_names es ctx _ _).last fun _ => .pure _
  | .object _ ps, ctx, _ =>
    .look fun _ => (inferProperties_names ps ctx _).last fun _ => .pure _
  | .member _ o n, ctx, _ => by
    refine .look fun s => ?_
    split
    · exact Names.nothing ((Names.reportAll (.singleton rfl)).bind fun _ => .pure _)
    · exact (o.infer_names ctx .free).last fun _ => Names.ofReports (memberType_reports _ _ _ _)
  | .index _ o i, ctx, _ =>
    (o.infer_names ctx .free).discard.seq fun _ =>
      (i.infer_names ctx .free).discard.last fun _ => .pure _
  | .call _ c as, ctx, _ =>
    (c.infer_names ctx .free).seq fun _ => .look fun _ =>
      (Names.reportAll (callErrors_ordinary _ _ _ _)).bind fun _ =>
        (checkArgs_names as ctx _).last fun _ => .pure _
  | .construct _ c _ as, ctx, _ =>
    (c.infer_names ctx .free).seq fun _ => .look fun _ =>
      (Names.reportAll (callErrors_ordinary _ _ _ _)).bind fun _ =>
        (checkArgs_names as ctx _).last fun _ => .pure _
  | .paren _ e, ctx, hint => e.infer_names ctx hint
  | .function span n ps b, ctx, hint =>
    b.checkFunction_names ctx n ⟨_, span.pos, ps⟩ hint.type
  | .wordOp _ .delete e, ctx, _ => (e.infer_names ctx .free).discard.last fun _ => .pure _
  | .wordOp _ .typeof e, ctx, _ => .look fun _ =>
    .ite ((e.infer_names ctx .free).discard.last fun _ => .pure _) (Names.nothing (.pure _))
  | .wordOp _ .void e, ctx, _ => (e.infer_names ctx .free).discard.last fun _ => .pure _
  | .before _ _ e, ctx, _ => (e.infer_names ctx .free).discard.last fun _ => .pure _
  | .after _ e _, ctx, _ => (e.infer_names ctx .free).discard.last fun _ => .pure _
  | .binary span l op r, ctx, hint => by
    have hl := fun hint => l.infer_names ctx hint
    have hr := fun hint => r.infer_names ctx hint
    unfold Expr.infer Expr.occurrences
    rw [operatorRule_assign]
    cases operatorRule op with
    | assign =>
      -- the two ways on differ in what they do with the left side: a target, or a mere value
      refine l.target_names ctx span.pos _ _ (fun target htarget => ?_) ?_
      · cases target with
        | other => exact absurd rfl htarget
        | _ => exact assign_names hr _
      · exact (hl _).discard.seq fun _ => assign_names hr _
    | choice => exact (hl _).seq fun _ => (hr _).last fun _ => .pure _
    | sequence => exact (hl _).discard.seq fun _ => hr _
    | comparison => exact (hl _).discard.seq fun _ => (hr _).discard.last fun _ => .pure _
    | addition => exact (hl _).seq fun _ => (hr _).last fun _ => .pure _
    | arithmetic => exact (hl _).discard.seq fun _ => (hr _).discard.last fun _ => .pure _
  | .conditional _ t y n, ctx, hint => by
    have hall := (t.infer_names ctx .free).discard.seq fun _ =>
      (y.infer_names ctx hint.part).seq fun yes =>
        (n.infer_names ctx hint.part).last fun no => .pure (join [yes, no])
    rw [← List.append_assoc] at hall
    exact hall
  | .omitted _ _, _, _ => .pure _
  | .this _, _, _ => .look fun _ => .pure _
  | .null _, _, _ => .pure _
  | .boolean _ true, _, _ => .pure _
  | .boolean _ false, _, _ => .pure _
termination_by structural e => e

/-- The target of an assignment, and what is done with it. -/
theorem Expr.target_names : ∀ (l : Expr) (ctx : Context) (pos : Nat) (k : Target → Checking Ty)
    (os : List Occurrence),
    (∀ target ≠ .other, Names ctx.lines (k target) (target.occurrences pos ++ os)) →
    Names ctx.lines (k .other) (l.occurrences none ++ os) →
    Names ctx.lines (l.target ctx >>= k) (l.occurrences (some pos) ++ os)
  | .paren _ e, ctx, pos, k, os, hk, hother => e.target_names ctx pos k os hk hother
  | .ident i, _, _, _, _, hk, _ => hk (.name i.text) nofun
  | .member _ o n, ctx, pos, k, os, hk, _ => by
    -- an export is assigned without a look at the object, whose name occurs nevertheless
    have hexport : ∀ target : Target, target ≠ .other → target.occurrences pos = [] →
        ∀ os', Names ctx.lines (k target) (os' ++ os) := fun target htarget hnone os' => by
      have hrest := hk target htarget
      rw [hnone] at hrest
      exact hrest.weaken (List.sublist_append_right os' os)
    unfold Expr.target Expr.occurrences
    cases exportTarget? o n.text with
    | some target =>
      cases target with
      | module => exact hexport .exports nofun rfl _
      | property name => exact hexport (.exportProperty name) nofun rfl _
    | none =>
      cases o.prototypeOf? with
      | some ctor => exact hk (.prototypeField ctor n.text) nofun
      | none =>
        have hfield := fun object => hk (.field object (outline o) n.text) nofun
        exact (o.infer_names ctx .free).seq hfield
  | .string _, _, _, _, _, _, hother => hother
  | .number _, _, _, _, _, _, hother => hother
  | .regex _ _, _, _, _, _, _, hother => hother
  | .array _ _, _, _, _, _, _, hother => hother
  | .object _ _, _, _, _, _, _, hother => hother
  | .index _ _ _, _, _, _, _, _, hother => hother
  | .call _ _ _, _, _, _, _, _, hother => hother
  | .construct _ _ _ _, _, _, _, _, _, hother => hother
  | .function _ _ _ _, _, _, _, _, _, hother => hother
  | .wordOp _ _ _, _, _, _, _, _, hother => hother
  | .before _ _ _, _, _, _, _, _, hother => hother
  | .after _ _ _, _, _, _, _, _, hother => hother
  | .binary _ _ _ _, _, _, _, _, _, hother => hother
  | .conditional _ _ _ _, _, _, _, _, _, hother => hother
  | .omitted _ _, _, _, _, _, _, hother => hother
  | .this _, _, _, _, _, _, hother => hother
  | .null _, _, _, _, _, _, hother => hother
  | .boolean _ _, _, _, _, _, _, hother => hother
termination_by structural l => l

theorem inferElements_names : ∀ (es : List Expr) (ctx : Context) (items : List Ty)
    (rest : Option Ty), Names ctx.lines (inferElements ctx items rest es) (occurrencesOfExprs es)
  | [], _, _, _ => .pure _
  | e :: es, ctx, _, _ =>
    (e.infer_names ctx _).seq fun _ => (inferElements_names es ctx _ _).last fun _ => .pure _
termination_by structural es => es

theorem inferProperties_names : ∀ (ps : List Property) (ctx : Context) (hint : String → Hint),
    Names ctx.lines (inferProperties ctx hint ps) (occurrencesOfProperties ps)
  | [], _, _ => .pure _
  | .mk _ _ e :: ps, ctx, hint =>
    (e.infer_names ctx _).seq fun _ => (inferProperties_names ps ctx hint).last fun _ => .pure _
termination_by structural ps => ps

theorem checkArgs_names : ∀ (es : List Expr) (ctx : Context) (params : List (Option String × Ty)),
    Names ctx.lines (checkArgs ctx params es) (occurrencesOfExprs es)
  | [], _, _ => .pure _
  | e :: es, ctx, _ =>
    (e.infer_names ctx _).seq fun _ =>
      (Names.ofReports (settle_reports _ _ _ _)).discard.bind fun _ => checkArgs_names es ctx _
termination_by structural es => es

theorem supply?_names : ∀ (e : Option Expr) (ctx : Context) (demand : Demand) (line : Nat),
    Names ctx.lines (supply? ctx demand line e) (occurrencesOfExpr? e)
  | none, _, _, _ => .pure _
  | some e, ctx, _, _ =>
    (e.infer_names ctx _).last fun _ => (Names.ofReports (settle_reports _ _ _ _)).map
termination_by structural e => e

theorem Block.checkFunction_names : ∀ (b : Block) (ctx : Context) (own : Option Ident)
    (head : FunctionHead) (declared : Option Ty), Names ctx.lines (b.checkFunction ctx head declared)
      (around (.function own head.params b.body) b.bodyOccurrences)
  | .mk _ ss, ctx, own, head, declared => by
    refine .look fun s => ?_
    refine (Names.reportAll (planFunction_ordinary _ _ _ _)).bind fun _ => .ite ?_ (Names.nothing (.pure _))
    let plan := planFunction s.env (ctx.line head.pos) head declared
    let inner : Context := { ctx with frame := some (plan.frame head) }
    have hbody : Names inner.lines (checkStmts inner ss) (occurrencesOfStmts ss) :=
      checkStmts_names ss inner
    exact (hbody.inRegion (Session.enterFunction_opens inner own head plan ss)
      (Session.leaveFunction_closes inner head plan ss)).last fun _ => .pure _
termination_by structural b => b

theorem Stmt.check_names : ∀ (s : Stmt) (ctx : Context), Names ctx.lines (s.check ctx) s.occurrences
  | .declaration _ l, ctx => l.check_names ctx
  | .function span n ps b, ctx =>
    .look fun _ => (b.checkFunction_names ctx none ⟨n.text, span.pos, ps⟩ _).discard.last fun _ =>
      .ite (fun s => s.noteDeclaration_named ctx _ _) (.pure _)
  | .block b, ctx => b.check_names ctx
  | .empty _, _ => .pure _
  | .expression _ e, ctx => (e.infer_names ctx .free).discard
  | .ifElse _ t y n, ctx => by
    have hall := (t.infer_names ctx .free).discard.seq fun _ =>
      (y.check_names ctx).seq fun _ => checkStmt?_names n ctx
    rw [← List.append_assoc] at hall
    exact hall
  | .doWhile _ b t, ctx => (b.check_names ctx).seq fun _ => (t.infer_names ctx .free).discard
  | .whileDo _ t b, ctx => (t.infer_names ctx .free).discard.seq fun _ => b.check_names ctx
  | .forLoop _ i t u b, ctx => by
    have hall := (i.check_names ctx).seq fun _ =>
      (supply?_names t ctx .free 0).discard.seq fun _ =>
        (supply?_names u ctx .free 0).discard.seq fun _ => b.check_names ctx
    rw [← List.append_assoc, ← List.append_assoc] at hall
    exact Names.inBlock hall
  | .forIn _ i o b, ctx => by
    have hall := (i.checkKeys_names ctx).seq fun _ =>
      (o.infer_names ctx .free).discard.seq fun _ => b.check_names ctx
    rw [← List.append_assoc] at hall
    exact Names.inBlock hall
  | .continueTo _ _, _ => .pure _
  | .breakTo _ _, _ => .pure _
  | .returnWith _ v, ctx => .look fun _ => (supply?_names v ctx _ _).last fun _ =>
    Names.reportAll (returnErrors_ordinary _ _ _ _)
  | .switchOn _ e cs, ctx =>
    (e.infer_names ctx .free).discard.seq fun _ => checkClauses_names cs ctx
  | .labeled _ _ b, ctx => b.check_names ctx
  | .throwing _ e, ctx => (e.infer_names ctx .free).discard
  | .tryCatch _ b h f, ctx => by
    have hall := (b.check_names ctx).seq fun _ =>
      (h.check_names ctx).seq fun _ => checkBlock?_names f ctx
    rw [← List.append_assoc] at hall
    exact hall
  | .debugger _, _ => .pure _
termination_by structural s => s

theorem checkStmts_names : ∀ (ss : List Stmt) (ctx : Context),
    Names ctx.lines (checkStmts ctx ss) (occurrencesOfStmts ss)
  | [], _ => .pure _
  | s :: ss, ctx => (s.check_names ctx).seq fun _ => checkStmts_names ss ctx
termination_by structural ss => ss

theorem checkStmt?_names : ∀ (s : Option Stmt) (ctx : Context),
    Names ctx.lines (checkStmt? ctx s) (occurrencesOfStmt? s)
  | none, _ => .pure _
  | some s, ctx => s.check_names ctx
termination_by structural s => s

theorem Block.check_names : ∀ (b : Block) (ctx : Context),
    Names ctx.lines (b.check ctx) b.occurrences
  | .mk _ ss, ctx =>
    (checkStmts_names ss ctx).inRegion (Session.enterBlock_opens ctx ss) Session.leave_closes
termination_by structural b => b

theorem checkBlock?_names : ∀ (b : Option Block) (ctx : Context),
    Names ctx.lines (checkBlock? ctx b) (occurrencesOfBlock? b)
  | none, _ => .pure _
  | some b, ctx => b.check_names ctx
termination_by structural b => b

theorem DeclList.check_names : ∀ (l : DeclList) (ctx : Context),
    Names ctx.lines (l.check ctx) l.occurrences
  | .mk _ kind ds, ctx => checkDecls_names ds ctx kind
termination_by structural l => l

theorem checkDecls_names : ∀ (ds : List Decl) (ctx : Context) (kind : DeclKind),
    Names ctx.lines (checkDecls ctx kind ds) (occurrencesOfDecls ds)
  | [], _, _ => .pure _
  | .mk _ _ init :: ds, ctx, kind =>
    .look fun _ => (supply?_names init ctx _ _).seq fun _ =>
      (Names.binds fun s => s.declareResult_binds kind _ _ _).bind fun _ =>
        checkDecls_names ds ctx kind
termination_by structural ds => ds

theorem ForInit.check_names : ∀ (i : ForInit) (ctx : Context),
    Names ctx.lines (i.check ctx) i.occurrences
  | .none, _ => .pure _
  | .decls l, ctx => l.check_names ctx
  | .expr e, ctx => (e.infer_names ctx .free).discard
termination_by structural i => i

theorem ForInit.checkKeys_names : ∀ (i : ForInit) (ctx : Context),
    Names ctx.lines (i.checkKeys ctx) i.occurrences
  | .none, _ => .pure _
  | .decls l, ctx => .nothing (.binds fun s => s.declareKeys_binds ctx l)
  | .expr e, ctx => (e.infer_names ctx .free).discard
termination_by structural i => i

theorem checkClauses_names : ∀ (cs : List Clause) (ctx : Context),
    Names ctx.lines (checkClauses ctx cs) (occurrencesOfClauses cs)
  | [], _ => .pure _
  | .mk _ t ss :: cs, ctx => by
    have hbody := (checkStmts_names ss ctx).inRegion (Session.enterBlock_opens ctx ss)
      Session.leave_closes
    have hall := (supply?_names t ctx .free 0).discard.seq fun _ =>
      hbody.seq fun _ => checkClauses_names cs ctx
    rw [← List.append_assoc] at hall
    exact hall
termination_by structural cs => cs

theorem Handler.check_names : ∀ (h : Handler) (ctx : Context),
    Names ctx.lines (h.check ctx) h.occurrences
  | .none, _ => .pure _
  | .catching _ name b, ctx =>
    (b.check_names ctx).inRegion (Session.enterHandler_opens ctx name) Session.leave_closes
termination_by structural h => h

end

end Script

namespace Verify

open Script (Expr)

/-! ### Programs -/

theorem Session.checkPending_named {lines : LineMap} (ctx : Context) (s : Session) :
    s.Named lines [] (s.checkPending ctx) := by
  unfold checkPending
  induction s.pendingCtors generalizing s with
  | nil => exact .ofCalm (.refl s) (.refl _)
  | cons c ctors ih => exact (s.checkFields_named ctx c.1 c.2).trans (ih _)

/-- The names that are reported as not known are names that occur, in this order, where no region
around them binds them. -/
theorem verify_names (script : Script) (lines : LineMap) (header : Header)
    (imports : List ImportedType) (policy : ExportPolicy) :
    ∃ free : List Occurrence, free.Sublist script.occurrences ∧ (∀ o ∈ free, o.Unbound) ∧
      (verify script lines header imports policy).errorsOf .unknownIdentifier =
        free.map (·.unknown lines) := by
  let start := Session.ofHeader header imports
  let ctx := moduleContext script lines header policy start.env
  let opened := (start.enter (.ofKind .module)).hoist ctx script.statements
  obtain ⟨ds₀, hds₀, hheader⟩ := (Session.ofHeader_binds header imports).calm.errors
  have hstart : start.errors = ds₀ := hheader
  have hopens := Session.enterModule_opens ctx script.statements
  obtain ⟨ds₁, hds₁, hopened⟩ := (hopens.calm start).errors
  have hwalk := (Script.checkStmts_names script.statements ctx opened).around (hopens.knows start)
  have hall := hwalk.trans (Session.checkPending_named ctx _)
  obtain ⟨ds, free, herrors, hunknown, hfree, hunbound⟩ := hall.errors
  rw [List.append_nil] at hfree
  refine ⟨free, hfree, fun o ho => (hunbound o ho).1, ?_⟩
  show unknownsOf (((checkModule ctx start script.statements).checkPending ctx).errors ++ _) = _
  have hmodule : ((checkModule ctx start script.statements).checkPending ctx).errors =
      ds₀ ++ ds₁ ++ ds := by
    rw [← hstart, ← hopened]
    exact herrors
  rw [hmodule, unknownsOf_append, unknownsOf_append, unknownsOf_append, hds₀.unknownsOf,
    hds₁.unknownsOf, (missingExport_ordinary _ _).unknownsOf, hunknown, List.append_nil,
    List.nil_append, List.nil_append]
  rfl

/-- **Variables are always known.** The names that are reported as not known are some of the names
that occur in the program, in the order of the text, and none of them stands in a region that binds
it as a variable: as a parameter of a function around, as what a `var` declares anywhere in the body
of such a function or in the module, before or after it, or as the variable of a handler around. -/
theorem variables_known (script : Script) (lines : LineMap) (header : Header)
    (imports : List ImportedType) (policy : ExportPolicy) :
    ∃ free : List Occurrence, free.Sublist script.occurrences ∧
      (∀ o ∈ free, ∀ r ∈ o.regions, ¬ r.Variable o.name) ∧
      (verify script lines header imports policy).errorsOf .unknownIdentifier =
        free.map (·.unknown lines) := by
  obtain ⟨free, hfree, hunbound, herrors⟩ := verify_names script lines header imports policy
  exact ⟨free, hfree, fun o ho r hr hvar => hunbound o ho r hr (.inl hvar), herrors⟩

/-- What is known where an expression stands is not reported as unknown in it. -/
theorem infer_knows (e : Expr) (ctx : Context) (hint : Hint) (s : Session) {name : String}
    (hknown : s.env.Knows name) :
    ∃ ds, ((e.infer ctx hint).run s).2.errors = s.errors ++ ds ∧
      ∀ line, unknownName name line ∉ ds := by
  obtain ⟨ds, free, herrors, hunknown, -, hunbound⟩ := (e.infer_names ctx hint s).errors
  refine ⟨ds, herrors, fun line hline => ?_⟩
  have hmem : unknownName name line ∈ unknownsOf ds := List.mem_filter.mpr ⟨hline, rfl⟩
  rw [hunknown] at hmem
  obtain ⟨o, ho, heq⟩ := List.mem_map.mp hmem
  have hname : o.name = name := Option.some.inj (congrArg Diagnostic.name heq)
  exact (hunbound o ho).2 (hname ▸ hknown)

/-- **Declared functions are known throughout their statements.** The names that are reported as not
known are some of the names that occur in the program, in the order of the text, and none of them is
that of a function which is declared by a statement of a region around it: of a block, of a clause,
of the body of a function or of the module. And the name of an expression that is a function is not
reported in its body if something binds it where the expression stands. -/
theorem function_names_known (script : Script) (lines : LineMap) (header : Header)
    (imports : List ImportedType) (policy : ExportPolicy) :
    (∃ free : List Occurrence, free.Sublist script.occurrences ∧
      (∀ o ∈ free, ∀ r ∈ o.regions, ¬ r.Function o.name) ∧
      (verify script lines header imports policy).errorsOf .unknownIdentifier =
        free.map (·.unknown lines)) ∧
    ∀ (ctx : Context) (s : Session) (span : Span) (own : Script.Ident)
      (ps : List Script.Param) (b : Script.Block) (hint : Hint), s.env.Knows own.text →
      ∃ ds, (((Expr.function span (some own) ps b).infer ctx hint).run s).2.errors =
          s.errors ++ ds ∧
        ∀ line, unknownName own.text line ∉ ds := by
  refine ⟨?_, fun ctx s span own ps b hint hknown => infer_knows _ ctx hint s hknown⟩
  obtain ⟨free, hfree, hunbound, herrors⟩ := verify_names script lines header imports policy
  exact ⟨free, hfree, fun o ho r hr hfunction => hunbound o ho r hr (.inr hfunction), herrors⟩

/-- A function that calls itself by its own name. -/
def ownNameText : String := "var f = function g() \x7b g(); \x7d;"

/-- The body of the function in it. -/
def ownNameBody : Script.Block :=
  .mk ⟨21, 29⟩ [.expression ⟨23, 26⟩ (.call ⟨23, 26⟩ (.ident ⟨⟨23, 24⟩, "g", false⟩) [])]

/-- The header `g : () => void`. -/
def ownNameHeader : Header := ⟨[.value ⟨"g", .function [] (.ofName "void") none, 1⟩]⟩

theorem function_names_known_header :
    let script := Script.parse ownNameText
    let s := Session.ofHeader ownNameHeader []
    let ctx := moduleContext script (.ofText ownNameText) ownNameHeader {} s.env
    let g : Script.Ident := ⟨⟨17, 18⟩, "g", false⟩
    s.env.Knows "g" ∧
      ∃ ds, (((Expr.function ⟨8, 29⟩ (some g) [] ownNameBody).infer ctx .free).run s).2.errors =
          s.errors ++ ds ∧
        ∀ line, unknownName "g" line ∉ ds := by
  intro script s ctx g
  have hknown : (s.env.lookup? "g").isSome = true := by decide +kernel
  exact ⟨hknown, (function_names_known script (.ofText ownNameText) ownNameHeader [] {}).2 ctx s
    ⟨8, 29⟩ g [] ownNameBody .free hknown⟩

/-- Where nothing else is called `g`, the call is reported, although it stands in the body of the
function of that name. -/
theorem own_name_unknown :
    let script := Script.parse ownNameText
    script.errors = [] ∧ (∃ o ∈ script.occurrences, o.name = "g") ∧
      (∀ o ∈ script.occurrences, o.name = "g" → ∃ r ∈ o.regions, r.ownName? = some "g") ∧
      (verify script (.ofText ownNameText) .empty [] {}).errorsOf .unknownIdentifier =
        [unknownName "g" 1] := by
  exact ⟨by decide +kernel, by decide +kernel, by decide +kernel, by decide +kernel⟩

end Verify
end Countersign
