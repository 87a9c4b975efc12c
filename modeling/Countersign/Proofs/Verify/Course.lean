/-
# The course of a walk

What a walk through a program does to a session is a sequence of a few kinds of steps, and which
step comes next depends on nothing that was reported. A `Course` is such a sequence, as data: a proof
about all walks is an induction on courses, with one case for each kind of step.

Key definitions: `Step`, `Course`, `Course.run`, `Course.IsOf`.
Key theorems: `Step.apply_plain`, `Course.settle_isOf`.
-/
import Countersign.Proofs.Verify.Plain

namespace Countersign
namespace Verify

open Script (Expr Stmt DeclKind DeclList)

/-- The context of the body of a function. -/
def Context.inside (ctx : Context) (frame : Frame) : Context := { ctx with frame := some frame }

/-- The session without its diagnostics, which is all that a walk looks at. -/
def Session.silent (s : Session) : Session := { s with errors := [] }

/-- A step that enters no scope and leaves none. -/
inductive Step where
  | report (ds : List Diagnostic) (plain : ∀ d ∈ ds, d.isPlain = true)
  | hoist (ss : List Stmt)
  | declare (b : Binding)
  | declareResult (kind : DeclKind) (name : String) (line : Nat) (type : Option Ty)
  | declareKeys (l : DeclList)
  | noteDeclaration (name : String) (line : Nat)

namespace Step

/-- What a step does. -/
def apply (ctx : Context) : Step → Session → Session
  | report ds _, s => s.reportAll ds
  | hoist ss, s => s.hoist ctx ss
  | declare b, s => s.declare b
  | declareResult kind name line type, s => s.declareResult kind name line type
  | declareKeys l, s => s.declareKeys ctx l
  | noteDeclaration name line, s => s.noteDeclaration ctx name line

theorem apply_plain (ctx : Context) (st : Step) : Session.Plain (st.apply ctx) := by
  cases st with
  | report ds plain => exact Session.reportAll_plain plain
  | hoist ss => exact Session.hoist_plain ctx ss
  | declare b => exact Session.declare_plain b
  | declareResult kind name line type => exact Session.declareResult_plain kind name line type
  | declareKeys l => exact Session.declareKeys_plain ctx l
  | noteDeclaration name line => exact Session.noteDeclaration_plain ctx name line

/-- The policy plays no part in a step. -/
theorem apply_under (ctx : Context) (p : ExportPolicy) (st : Step) :
    st.apply (ctx.under p) = st.apply ctx := by
  cases st <;> rfl

end Step

/-- What a walk does, as data. -/
inductive Course : Type → Type 1
  | pure {α : Type} (a : α) : Course α
  | bind {α β : Type} (c : Course α) (f : α → Course β) : Course β
  /-- Looks at the session, but not at its diagnostics. -/
  | session : Course Session
  | step (st : Step) : Course Unit
  /-- Assigns a value, which `body` looks at once it is known what is demanded of it. -/
  | assign (target : Target) (value : Expr) (line : Nat) (body : Demand → Course Ty) : Course Ty
  /-- Something in a block's scope of its own. -/
  | inBlock (c : Course Unit) : Course Unit
  /-- The body of a function. -/
  | function (head : FunctionHead) (plan : FunctionPlan) (ss : List Stmt) (c : Course Unit) :
      Course Unit

namespace Course

instance : Monad Course where
  pure := Course.pure
  bind := Course.bind

/-- Takes a course. -/
def run : {α : Type} → Course α → Context → Checking α
  | _, .pure a, _ => Pure.pure a
  | _, .bind c f, ctx => c.run ctx >>= fun a => (f a).run ctx
  | _, .session, _ => fun s => (s.silent, s)
  | _, .step st, ctx => modify (st.apply ctx)
  | _, .assign target value line body, ctx => do
    let demand ← target.demand ctx line
    let actual ← (body demand).run ctx
    let type ← demand.settle value actual line
    modify (target.complete ctx value.identText? type line)
    Pure.pure type
  | _, .inBlock c, ctx => do
    modify (·.enter (.ofKind .block))
    c.run ctx
    modify (·.leave)
  | _, .function head plan ss c, ctx => do
    modify (·.enterFunction (ctx.inside (plan.frame head)) head plan ss)
    c.run (ctx.inside (plan.frame head))
    modify (·.leaveFunction (ctx.inside (plan.frame head)) head plan ss)

section Result

variable {α : Type} (c : Course α) (ctx : Context) (s : Session)

/-- What a course gives. -/
def value : α := ((c.run ctx).run s).1

/-- The session after a course. -/
def after : Session := ((c.run ctx).run s).2

end Result

theorem value_bind {α β : Type} (c : Course α) (f : α → Course β) (ctx : Context) (s : Session) :
    (bind c f).value ctx s = (f (c.value ctx s)).value ctx (c.after ctx s) := rfl

theorem after_bind {α β : Type} (c : Course α) (f : α → Course β) (ctx : Context) (s : Session) :
    (bind c f).after ctx s = (f (c.value ctx s)).after ctx (c.after ctx s) := rfl

/-- What an assignment does, once it is known what is demanded and what the value was given. -/
theorem run_assign {target : Target} {e : Expr} {line : Nat} {body : Demand → Course Ty}
    {ctx : Context} {s s' s'' : Session} {demand : Demand} {t : Ty}
    (hdemand : (target.demand ctx line).run s = (demand, s'))
    (hsettle : (demand.settle e ((body demand).value ctx s') line).run
      ((body demand).after ctx s') = (t, s'')) :
    ((assign target e line body).run ctx).run s =
      (t, target.complete ctx e.identText? t line s'') := by
  let settled (r : Demand × Session) : Ty × Session :=
    (r.1.settle e ((body r.1).value ctx r.2) line).run ((body r.1).after ctx r.2)
  let completed (r : Ty × Session) : Ty × Session :=
    (r.1, target.complete ctx e.identText? r.1 line r.2)
  calc ((assign target e line body).run ctx).run s
      = completed (settled ((target.demand ctx line).run s)) := rfl
    _ = completed (settled (demand, s')) := by rw [hdemand]
    _ = completed (t, s'') := congrArg completed hsettle

/-- An assignment reports what it asks, looks at the value, reports how that fits, and is
completed. -/
theorem assign_told (target : Target) (e : Expr) (line : Nat) (body : Demand → Course Ty)
    (ctx : Context) (s : Session) :
    ∃ (d : Demand) (asking fitting : List Diagnostic),
      let asked := s.withAccount (s.account.add asking)
      let looked := (body d).after ctx asked
      let given := d.given ((body d).value ctx asked)
      (target.demand ctx line).run s = (d, asked) ∧
      ((assign target e line body).run ctx).run s =
        (given, target.complete ctx e.identText? given line
          (looked.withAccount (looked.account.add fitting))) := by
  obtain ⟨d, before, late, after, -, -, -, htells⟩ := target.demand_asks ctx line s
  have hdemand : Tells (target.demand ctx line) s d _ := htells ctx.policy
  obtain ⟨fitting, -, hsettle⟩ := d.settle_tells e _ line _
  exact ⟨d, _, fitting, hdemand.run, run_assign hdemand.run hsettle.run⟩

/-! ### Small courses -/

/-- Reports diagnostics that no policy lets pass. -/
def report (ds : List Diagnostic) (plain : ∀ d ∈ ds, d.isPlain = true) : Course Unit :=
  .step (.report ds plain)

/-- The course of `Verify.nameType`. -/
def nameType (name : String) (line : Nat) : Course Ty := do
  match (← session).typeOf? name with
  | some t => pure t
  | none => do
    report [unknownName name line] (isPlain_of_mem_singleton rfl)
    pure .any

/-- The course of `Verify.memberType`. -/
def memberType (object : Ty) (text field : String) (line : Nat) : Course Ty := do
  let env := (← session).env
  match env.resolve object with
  | .object fs =>
    match fs.lookup field with
    | some t => pure t
    | none => do
      report [missingMember text field line] (isPlain_of_mem_singleton rfl)
      pure .any
  | .intersection ms =>
    pure ((ms.findSome? fun m => (env.resolve m).asObject?.bind (·.lookup field)).getD .any)
  | t => pure (if field == "length" && hasLength t then .ofName "Number" else .any)

/-- The course of `Demand.settle`. -/
def settle (d : Demand) (e : Expr) (actual : Ty) (line : Nat) : Course Ty :=
  match d with
  | .free => pure actual
  | .loose => pure actual
  | .derived => pure actual.widen
  | .fit expected _ => do
    if !isFunction e then
      report (mismatch? (← session).env (describe e actual) actual expected line).toList
        (mismatch?_plain _ _ _ _ _)
    pure expected

/-! ### Courses of actions -/

/-- Taking the course is carrying out the action. -/
def IsOf {α : Type} (c : Course α) (ctx : Context) (m : Checking α) : Prop := c.run ctx = m

namespace IsOf

variable {α β : Type} {ctx : Context}

theorem pure (a : α) : (Pure.pure a : Course α).IsOf ctx (Pure.pure a) := rfl

theorem bind {c : Course α} {f : α → Course β} {m : Checking α} {g : α → Checking β}
    (hc : c.IsOf ctx m) (hf : ∀ a, (f a).IsOf ctx (g a)) : (c >>= f).IsOf ctx (m >>= g) := by
  subst hc
  exact bind_congr hf

theorem look {f : Session → Course α} {g : Session → Checking α}
    (h : ∀ s, (f s.silent).IsOf ctx (g s)) : (session >>= f).IsOf ctx (get >>= g) :=
  funext fun s => congrFun (h s) s

theorem discard {c : Course α} {m : Checking α} (h : c.IsOf ctx m) :
    (Functor.discard c).IsOf ctx (Functor.discard m) := congrArg Functor.discard h

theorem map {c : Course α} {m : Checking α} (g : α → β) (h : c.IsOf ctx m) :
    (g <$> c).IsOf ctx (g <$> m) := congrArg (g <$> ·) h

theorem step (st : Step) : (Course.step st).IsOf ctx (modify (st.apply ctx)) := rfl

theorem report {ds : List Diagnostic} {h : ∀ d ∈ ds, d.isPlain = true} :
    (Course.report ds h).IsOf ctx (Verify.reportAll ds) := rfl

theorem ite {b : Prop} [Decidable b] {c d : Course α} {m n : Checking α} (hc : c.IsOf ctx m)
    (hd : d.IsOf ctx n) : (if b then c else d).IsOf ctx (if b then m else n) := by
  split
  · exact hc
  · exact hd

theorem inBlock {c : Course Unit} {m : Checking Unit} (h : c.IsOf ctx m) :
    (Course.inBlock c).IsOf ctx (do modify (·.enter (.ofKind .block)); m; modify (·.leave)) := by
  subst h
  rfl

theorem function {c : Course Unit} {m : Checking Unit} {head : FunctionHead} {plan : FunctionPlan}
    {ss : List Stmt} (h : c.IsOf (ctx.inside (plan.frame head)) m) (a : α) :
    (Course.function head plan ss c >>= fun _ => Pure.pure a).IsOf ctx (do
      modify (·.enterFunction (ctx.inside (plan.frame head)) head plan ss)
      m
      modify (·.leaveFunction (ctx.inside (plan.frame head)) head plan ss)
      Pure.pure a) := by
  subst h
  rfl

end IsOf

theorem nameType_isOf (name : String) (line : Nat) (ctx : Context) :
    (nameType name line).IsOf ctx (Verify.nameType name line) := by
  refine .look fun s => ?_
  show (match s.typeOf? name with | some t => _ | none => _ : Course Ty).IsOf ctx _
  cases s.typeOf? name with
  | none => rfl
  | some t => rfl

theorem memberType_isOf (object : Ty) (text field : String) (line : Nat) (ctx : Context) :
    (memberType object text field line).IsOf ctx (Verify.memberType object text field line) := by
  refine .look fun s => ?_
  dsimp only [Session.silent]
  cases s.env.resolve object with
  | object fs =>
    dsimp only
    cases fs.lookup field with
    | none => rfl
    | some t => rfl
  | _ => rfl

theorem settle_isOf (d : Demand) (e : Expr) (actual : Ty) (line : Nat) (ctx : Context) :
    (settle d e actual line).IsOf ctx (d.settle e actual line) := by
  cases d with
  | fit expected name => exact .ite (.look fun s => .bind .report fun _ => .pure _) (.pure _)
  | _ => rfl

end Course
end Verify
end Countersign
