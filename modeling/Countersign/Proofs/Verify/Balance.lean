/-
# The walk leaves the scopes as they were

Scopes are entered and left all through a walk, and declarations reach outward through them. After
every part of a program the scopes are of the same kinds again and have the same receivers, what
lies beneath the body around is the same, and no diagnostic was taken back. The scopes of the header
and of the built-in values never change.

Frames are no part of a session. Each is handed down to one body with its context and is in force
there and nowhere else, so there is none to restore; a context has one just if a function is around.

Key definitions: `Session.Balanced`, `Course.points`, `Placed`, `Reached`.
Key theorems: `Course.balanced`, `Course.points_placed`, `walk_balanced`.
-/
import Countersign.Proofs.Env.Scopes
import Countersign.Proofs.Verify.Courses
import Countersign.Proofs.Verify.Session
import Countersign.Script.Parse

namespace Countersign
namespace Verify

open Script (Expr Stmt)

namespace Session

/-- What the walk through a part of a program leaves of a session. -/
structure Balanced (s s' : Session) : Prop where
  env : s.env.Keeps s'.env
  errors : s.errors <+: s'.errors

namespace Balanced

variable {s s' s'' : Session}

theorem refl (s : Session) : Balanced s s := ⟨.refl _, List.prefix_refl _⟩

theorem trans (h : Balanced s s') (h' : Balanced s' s'') : Balanced s s'' :=
  ⟨h.env.trans h'.env, h.errors.trans h'.errors⟩

theorem ofRecords (h : s.Records s') : Balanced s s' := ⟨h.env ▸ .refl _, h.errors⟩

end Balanced

/-! ### Operations -/

section Operations

variable (ctx : Context) (s : Session)

/-- More diagnostics. -/
theorem add_balanced (ds : List Diagnostic) : Balanced s (s.withAccount (s.account.add ds)) :=
  ⟨.refl _, List.prefix_append _ _⟩

theorem leaveFunction_env (head : FunctionHead) (plan : FunctionPlan) (body : List Stmt) :
    (s.leaveFunction ctx head plan body).env = s.env.pop := by
  unfold leaveFunction
  dsimp only
  split
  · rfl
  · split <;> rfl

theorem leaveFunction_errors (head : FunctionHead) (plan : FunctionPlan) (body : List Stmt) :
    s.errors <+: (s.leaveFunction ctx head plan body).errors := by
  unfold leaveFunction
  dsimp only
  split
  · exact List.prefix_refl _
  · split
    · exact List.prefix_append _ _
    · exact List.prefix_refl _

theorem declareAs_keeps {kind : Script.DeclKind} {b : Binding} {env : Env}
    (h : s.declareAs kind b = .ok env) : s.env.Keeps env := by
  unfold declareAs at h
  split at h
  · exact .declare h
  · exact .declareVar h

theorem Binds.balanced {s s' : Session} (h : Binds s s') : Balanced s s' := by
  induction h with
  | refl s => exact .refl s
  | trans _ _ ih ih' => exact ih.trans ih'
  | declared henv => exact ⟨declareAs_keeps _ henv, List.prefix_refl _⟩
  | @rebound s kind b old t env hfailed henv =>
    refine ⟨?_, List.prefix_refl _⟩
    unfold declareAs at hfailed
    split at hfailed
    · exact Env.Keeps.rebind? (fun _ hp => by cases hp) hfailed henv
    · exact Env.Keeps.rebind? (fun s hp => by simpa using hp) hfailed henv
  | noted s pos => exact ⟨.refl _, List.prefix_refl _⟩
  | mismatched s described actual expected line => exact ⟨.refl _, List.prefix_append _ _⟩

end Operations
end Session

theorem Step.apply_balanced (ctx : Context) (st : Step) (s : Session) :
    s.Balanced (st.apply ctx s) := by
  cases st with
  | report ds plain => exact .ofRecords (s.reportAll_records ds)
  | hoist ss => exact (s.hoist_binds ctx ss).balanced
  | declare b => exact (s.declare_binds b).balanced
  | declareResult kind name line type => exact (s.declareResult_binds kind name line type).balanced
  | declareKeys l => exact (s.declareKeys_binds ctx l).balanced
  | noteDeclaration name line => exact .ofRecords (s.noteDeclaration_records ctx name line)

/-! ### Courses -/

namespace Course

/-- A body that is walked through in balance is left in the environment in which it was entered. -/
theorem function_env {head : FunctionHead} {plan : FunctionPlan} {ss : List Stmt} {c : Course Unit}
    (h : ∀ ctx (s : Session), s.Balanced (c.after ctx s)) (ctx : Context) (s : Session) :
    ((function head plan ss c).after ctx s).env = s.env := by
  let inner := ctx.inside (plan.frame head)
  have hinside := (s.enterFunction_binds inner head plan ss).balanced.trans (h inner _)
  show (Session.leaveFunction inner _ head plan ss).env = s.env
  rw [Session.leaveFunction_env]
  exact hinside.env.leave_body (fun h => by cases h)

theorem balanced {α : Type} (c : Course α) (ctx : Context) (s : Session) :
    s.Balanced (c.after ctx s) := by
  induction c generalizing ctx s with
  | pure a => exact .refl s
  | bind c f ihc ihf => exact (ihc ctx s).trans (ihf _ ctx _)
  | session => exact .refl s
  | step st => exact st.apply_balanced ctx s
  | assign target value line body ih =>
    obtain ⟨d, asking, fitting, -, hrun⟩ := assign_told target value line body ctx s
    rw [Course.after, hrun]
    exact (s.add_balanced asking).trans ((ih d ctx _).trans
      ((Session.add_balanced _ fitting).trans (.ofRecords (target.complete_records ctx _ _ line _))))
  | inBlock c ih =>
    have hinside := ih ctx (s.enter (.ofKind .block))
    exact ⟨hinside.env.leave_block rfl, hinside.errors⟩
  | function head plan ss c ih =>
    let inner := ctx.inside (plan.frame head)
    have hinside := (s.enterFunction_binds inner head plan ss).balanced.trans (ih inner _)
    have henv : ((function head plan ss c).after ctx s).env = s.env := function_env ih ctx s
    refine ⟨?_, hinside.errors.trans (Session.leaveFunction_errors inner _ head plan ss)⟩
    rw [henv]
    exact .refl _

/-- The sessions that a course goes through, each with the context in which it is reached. -/
def points : {α : Type} → Course α → Context → Session → List (Context × Session)
  | _, .pure _, ctx, s => [(ctx, s)]
  | _, .bind c f, ctx, s => c.points ctx s ++ (f (c.value ctx s)).points ctx (c.after ctx s)
  | _, .session, ctx, s => [(ctx, s)]
  | _, .step st, ctx, s => [(ctx, s), (ctx, st.apply ctx s)]
  | _, .assign target e line body, ctx, s =>
    let (demand, s') := (target.demand ctx line).run s
    (ctx, s) :: (body demand).points ctx s' ++
      [(ctx, (Course.assign target e line body).after ctx s)]
  | _, .inBlock c, ctx, s =>
    (ctx, s) :: c.points ctx (s.enter (.ofKind .block)) ++ [(ctx, (Course.inBlock c).after ctx s)]
  | _, .function head plan ss c, ctx, s =>
    let inner := ctx.inside (plan.frame head)
    (ctx, s) :: c.points inner (s.enterFunction inner head plan ss) ++
      [(ctx, (Course.function head plan ss c).after ctx s)]

theorem points_assign {target : Target} {e : Expr} {line : Nat} {body : Demand → Course Ty}
    {ctx : Context} {s s' : Session} {demand : Demand}
    (h : (target.demand ctx line).run s = (demand, s')) :
    (assign target e line body).points ctx s =
      (ctx, s) :: (body demand).points ctx s' ++
        [(ctx, (assign target e line body).after ctx s)] := by
  rw [points, h]

/-- The first of them is the session before the course. -/
theorem mem_points {α : Type} (c : Course α) (ctx : Context) (s : Session) :
    (ctx, s) ∈ c.points ctx s := by
  induction c with
  | bind c f ihc _ => exact List.mem_append_left _ ihc
  | _ => exact List.mem_cons_self

/-- The last of them is the session after the course. -/
theorem after_mem_points {α : Type} (c : Course α) (ctx : Context) (s : Session) :
    (ctx, c.after ctx s) ∈ c.points ctx s := by
  induction c generalizing s with
  | pure a => exact List.mem_singleton_self _
  | bind c f _ ihf => exact List.mem_append_right _ (ihf _ _)
  | session => exact List.mem_singleton_self _
  | step st => exact List.mem_cons_of_mem _ (List.mem_singleton_self _)
  | assign target value line body _ => exact List.mem_append_right _ (List.mem_singleton_self _)
  | inBlock c _ => exact List.mem_append_right _ (List.mem_singleton_self _)
  | function head plan ss c _ => exact List.mem_append_right _ (List.mem_singleton_self _)

end Course

/-- An environment in which a part of a program is checked: beneath the body around are all scopes
of `base`, which has the same named types, and the context has a frame inside functions only. -/
structure Placed (base : Env) (ctx : Context) (env : Env) : Prop where
  beneath : base.scopes <:+ Env.beneath env.scopes
  aliases : env.aliases = base.aliases
  frame : ctx.frame.isSome = env.scopes.any (·.kind == .function)

namespace Placed

variable {base env env' : Env} {ctx : Context}

theorem keeps (h : Placed base ctx env) (hkeeps : env.Keeps env') : Placed base ctx env' := by
  refine ⟨hkeeps.frame.beneath ▸ h.beneath, hkeeps.aliases.trans h.aliases, ?_⟩
  have hany : ∀ ss : List Scope, ss.any (·.kind == .function) =
      (ss.map Scope.shape).any (·.1 == .function) := fun ss => by
    rw [List.any_map]
    rfl
  rw [h.frame, hany, hany, hkeeps.frame.shapes]

theorem block (h : Placed base ctx env) : Placed base ctx (env.push (.ofKind .block)) :=
  ⟨h.beneath, h.aliases, h.frame⟩

theorem body (h : Placed base ctx env) (frame : Frame) (receiver : Option Ty) :
    Placed base (ctx.inside frame) (env.push (.ofFunction receiver)) :=
  ⟨h.beneath.trans (Env.beneath_suffix _), h.aliases, rfl⟩

end Placed

/-- What holds at the start, at the end and at all points between. -/
theorem forall_mem_between {β : Type} {P : β → Prop} {first last : β} {inner : List β}
    (hfirst : P first) (hinner : ∀ b ∈ inner, P b) (hlast : P last) :
    ∀ b ∈ first :: inner ++ [last], P b := by
  intro b hb
  rcases List.mem_append.mp hb with hb | hb
  · rcases List.mem_cons.mp hb with rfl | hb
    · exact hfirst
    · exact hinner b hb
  · rwa [List.mem_singleton.mp hb]

/-- A course goes through environments that are placed as the first one is. -/
theorem Course.points_placed {α : Type} {base : Env} (c : Course α) (ctx : Context) (s : Session)
    (h : Placed base ctx s.env) : ∀ pt ∈ c.points ctx s, Placed base pt.1 pt.2.env := by
  induction c generalizing ctx s with
  | pure a => exact List.forall_mem_singleton.mpr h
  | bind c f ihc ihf =>
    refine List.forall_mem_append.mpr ⟨ihc ctx s h, ihf _ ctx _ ?_⟩
    exact h.keeps (c.balanced ctx s).env
  | session => exact List.forall_mem_singleton.mpr h
  | step st =>
    refine List.forall_mem_cons.mpr ⟨h, List.forall_mem_singleton.mpr ?_⟩
    exact h.keeps (st.apply_balanced ctx s).env
  | assign target e line body ih =>
    have hafter := h.keeps ((Course.assign target e line body).balanced ctx s).env
    obtain ⟨d, asking, fitting, hdemand, -⟩ := assign_told target e line body ctx s
    rw [points_assign hdemand]
    exact forall_mem_between h (ih d ctx _ (h.keeps (.refl _))) hafter
  | inBlock c ih =>
    have hafter := h.keeps ((Course.inBlock c).balanced ctx s).env
    exact forall_mem_between h (ih ctx _ h.block) hafter
  | function head plan ss c ih =>
    have hafter := h.keeps ((Course.function head plan ss c).balanced ctx s).env
    let inner := ctx.inside (plan.frame head)
    have hentered := (h.body (plan.frame head) plan.receiver).keeps
      (s.enterFunction_binds inner head plan ss).balanced.env
    exact forall_mem_between h (ih inner _ hentered) hafter

end Verify

namespace Script

open Verify

theorem Stmt.check_balanced (stmt : Stmt) (ctx : Context) (s : Session) :
    s.Balanced ((stmt.check ctx).run s).2 := by
  rw [← show (stmt.course ctx).run ctx = stmt.check ctx from stmt.course_isOf ctx.policy ctx]
  exact (stmt.course ctx).balanced ctx s

theorem Expr.infer_balanced (e : Expr) (ctx : Context) (hint : Hint) (s : Session) :
    s.Balanced ((e.infer ctx hint).run s).2 := by
  rw [← show (e.course ctx hint).run ctx = e.infer ctx hint from e.course_isOf ctx.policy ctx hint]
  exact (e.course ctx hint).balanced ctx s

end Script

namespace Verify

open Script (Expr Stmt courseOfStmts)

/-! ### Modules -/

/-- A session that is reached while the statements of a module are checked, and its context. -/
def Reached (script : Script) (lines : LineMap) (header : Header) (imports : List ImportedType)
    (policy : ExportPolicy) (ctx : Context) (s : Session) : Prop :=
  let start := Session.ofHeader header imports
  let outer := moduleContext script lines header policy start.env
  (ctx, s) ∈ (courseOfStmts outer script.statements).points outer
    (moduleStart outer start script.statements)

/-- What checking a part of a program leaves as it was. -/
structure LeftAsItWas (base : Env) (ctx : Context) (s s' : Session) : Prop where
  /-- The scopes are of the same kinds and have the same receivers. -/
  shapes : s'.env.scopes.map Scope.shape = s.env.scopes.map Scope.shape
  /-- The context, which no walk changes, has a frame just if a function is still around. -/
  frame : ctx.frame.isSome = s'.env.scopes.any (·.kind == .function)
  /-- All scopes of `base` are there, unchanged. -/
  outermost : base.scopes <:+ s'.env.scopes
  aliases : s'.env.aliases = base.aliases
  /-- No diagnostic was taken back. -/
  errors : s.errors <+: s'.errors

theorem Session.Balanced.left {base : Env} {ctx : Context} {s s' : Session} (h : s.Balanced s')
    (hplaced : Placed base ctx s.env) : LeftAsItWas base ctx s s' := by
  have hplaced' := hplaced.keeps h.env
  exact ⟨h.env.frame.shapes, hplaced'.frame, hplaced'.beneath.trans (Env.beneath_suffix _),
    hplaced'.aliases, h.errors⟩

/-- The kinds of the scopes, which balance keeps. -/
theorem Session.Balanced.kinds {s s' : Session} (h : s.Balanced s') :
    s'.env.scopes.map (·.kind) = s.env.scopes.map (·.kind) := by
  have hkinds : ∀ ss : List Scope, ss.map (·.kind) = (ss.map Scope.shape).map (·.1) := fun ss => by
    rw [List.map_map]
    rfl
  rw [hkinds, hkinds, h.env.frame.shapes]

theorem withAlias_scopes (env : Env) (name : String) (a : Alias) :
    (env.withAlias name a).scopes = env.scopes := by
  unfold Env.withAlias Env.defineAlias
  split
  · rename_i henv
    split at henv
    · cases henv
      rfl
    · split at henv
      · cases henv
        rfl
      · cases henv
  · rfl

theorem withImport_scopes (env : Env) (i : ImportedType) :
    (env.withImport i).scopes = env.scopes := by
  unfold Env.withImport
  dsimp only
  split
  · exact withAlias_scopes _ _ _
  · rw [withAlias_scopes, withAlias_scopes]

theorem foldl_scopes {α : Type} {f : Env → α → Env} (h : ∀ env a, (f env a).scopes = env.scopes)
    (as : List α) (env : Env) : (as.foldl f env).scopes = env.scopes := by
  induction as generalizing env with
  | nil => rfl
  | cons a as ih => exact (ih (f env a)).trans (h env a)

/-- A header is read in a scope of its own above the built-in values. -/
theorem Session.ofHeader_kinds (header : Header) (imports : List ImportedType) :
    (Session.ofHeader header imports).env.scopes.map (·.kind) = [.header, .global] := by
  refine (ofHeader_binds header imports).balanced.kinds.trans ?_
  dsimp only [Env.withAliases]
  rw [foldl_scopes fun env a => withAlias_scopes env _ _, foldl_scopes withImport_scopes]
  rfl

/-- The statements of a module are checked above the scopes of its header. -/
theorem moduleStart_placed (ctx : Context) (start : Session) (ss : List Stmt)
    (hframe : ctx.frame = none) (hkinds : start.env.scopes.map (·.kind) = [.header, .global]) :
    Placed start.env ctx (moduleStart ctx start ss).env := by
  have hentered : Placed start.env ctx (start.enter (.ofKind .module)).env := by
    refine ⟨List.suffix_refl _, rfl, ?_⟩
    have hany : (start.enter (.ofKind .module)).env.scopes.any (·.kind == .function) =
        (ScopeKind.module :: start.env.scopes.map (·.kind)).any (· == .function) := by
      rw [List.any_cons, List.any_map]
      rfl
    rw [hframe, hany, hkinds]
    rfl
  exact hentered.keeps (Session.hoist_binds ctx _ ss).balanced.env

/-- **The walk is balanced.** Wherever a walk has got to, checking any statement or expression
leaves the kinds and receivers of the scopes, the scopes of the header and of the built-in values,
and the named types as they were, and takes no diagnostic back. At the end of the module, its own
scope and those two are left. -/
theorem walk_balanced (script : Script) (lines : LineMap) (header : Header)
    (imports : List ImportedType) (policy : ExportPolicy) :
    let start := Session.ofHeader header imports
    let outer := moduleContext script lines header policy start.env
    start.env.scopes.map (·.kind) = [.header, .global] ∧
    (∀ ctx s, Reached script lines header imports policy ctx s →
      (∀ stmt : Stmt, LeftAsItWas start.env ctx s ((stmt.check ctx).run s).2) ∧
      ∀ (e : Expr) (hint : Hint), LeftAsItWas start.env ctx s ((e.infer ctx hint).run s).2) ∧
    (checkModule outer start script.statements).env.scopes.map (·.kind) =
      [.module, .header, .global] := by
  intro start outer
  have hkinds := Session.ofHeader_kinds header imports
  refine ⟨hkinds, ?_, ?_⟩
  · intro ctx s hreached
    have hstart := moduleStart_placed outer start script.statements rfl hkinds
    have hplaced : Placed start.env ctx s.env :=
      (courseOfStmts outer script.statements).points_placed outer _ hstart _ hreached
    exact ⟨fun stmt => (stmt.check_balanced ctx s).left hplaced,
      fun e hint => (e.infer_balanced ctx hint s).left hplaced⟩
  · have hentered :=
      (Session.hoist_binds outer (start.enter (.ofKind .module)) script.statements).balanced
    have hwalked := (courseOfStmts outer script.statements).balanced outer
      (moduleStart outer start script.statements)
    have hmodule : checkModule outer start script.statements =
        (courseOfStmts outer script.statements).after outer
          (moduleStart outer start script.statements) :=
      checkModule_eq outer outer.policy start script.statements
    rw [hmodule, (hentered.trans hwalked).kinds]
    exact congrArg (ScopeKind.module :: ·) hkinds

/-- A function with a loop. -/
def loopText : String :=
  "function count(n) \x7b for (var i = 0; i < n; i++) \x7b var last = i; \x7d \x7d"

/-- Its header: `count : (Number) => void`. -/
def loopHeader : Header :=
  ⟨[.value ⟨"count", .function [(none, .ofName "Number")] (.ofName "void") none, 1⟩]⟩

theorem walk_balanced_loop :
    ∃ ctx s, Reached (Script.parse loopText) (.ofText loopText) loopHeader [] {} ctx s ∧
      s.env.scopes.map (·.kind) = [.block, .block, .function, .module, .header, .global] ∧
      ∀ stmt : Stmt, LeftAsItWas (Session.ofHeader loopHeader []).env ctx s
        ((stmt.check ctx).run s).2 := by
  let start := Session.ofHeader loopHeader []
  let script := Script.parse loopText
  let outer := moduleContext script (.ofText loopText) loopHeader {} start.env
  have hpoints : ((courseOfStmts outer script.statements).points outer
      (moduleStart outer start script.statements)).any (fun pt => pt.2.env.scopes.map (·.kind) ==
        [.block, .block, .function, .module, .header, .global]) = true := by
    decide +kernel
  obtain ⟨⟨ctx, s⟩, hreached, hkinds⟩ := List.any_eq_true.mp hpoints
  have hbalanced := (walk_balanced script (.ofText loopText) loopHeader [] {}).2.1 ctx s hreached
  exact ⟨ctx, s, hreached, eq_of_beq hkinds, hbalanced.1⟩

end Verify
end Countersign
