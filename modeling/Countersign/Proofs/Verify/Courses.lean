/-
# The courses of programs

The course of every part of a program, and that taking it is checking that part. The course does not
depend on the policy, which only matters where an assignment is carried out.

Key definitions: `Expr.course`, `Stmt.course`, `courseOfStmts`.
Key theorems: `Expr.course_isOf`, `Stmt.course_isOf`, `courseOfStmts_isOf`, `checkModule_eq`.
-/
import Countersign.Proofs.Verify.Course

namespace Countersign
namespace Script

open Verify

mutual

/-- The course of `Expr.infer`. -/
def Expr.course (ctx : Context) (hint : Hint) : Expr → Course Ty
  | .ident i => .nameType i.text (ctx.line i.span.pos)
  | .string s => pure (stringType s)
  | .number n => pure (.value ⟨n.text, .number⟩)
  | .regex _ _ => pure (.ofName "RegExp")
  | .array _ es => do
    let hints := elementHints (← .session).env hint.type
    let types ← courseOfElements ctx hints.items hints.rest es
    pure (hints.arrayType hint.type types)
  | .object _ ps => do
    let env := (← .session).env
    let fields ← courseOfProperties ctx (propertyHint env hint.type) ps
    pure (.objectOf fields)
  | .member _ o n => do
    let line := ctx.line n.span.pos
    let s ← .session
    match if exportTarget? o n.text == some .module then ctx.unassignedExport? s else none with
    | some declared => do
      .report [missingExport declared line] (isPlain_of_mem_singleton rfl)
      pure declared
    | none => do
      let object ← o.course ctx .free
      .memberType object (outline o) n.text line
  | .index _ o i => do
    discard (o.course ctx .free)
    discard (i.course ctx .free)
    pure .any
  | .call span c as => do
    let callee ← c.course ctx .free
    let signature := ((← .session).env.resolve callee).asFunction?
    .report (callErrors signature (outline c) as.length (ctx.line span.pos))
      (callErrors_plain _ _ _ _)
    courseOfArgs ctx ((signature.map (·.params)).getD []) as
    pure ((signature.map (·.result)).getD .any)
  | .construct span c _ as => do
    let callee ← c.course ctx .free
    let signature := ((← .session).env.resolve callee).asFunction?
    .report (callErrors signature (outline c) as.length (ctx.line span.pos))
      (callErrors_plain _ _ _ _)
    courseOfArgs ctx ((signature.map (·.params)).getD []) as
    pure (constructedType signature c)
  | .paren _ e => e.course ctx hint
  | .function span n ps b =>
    b.functionCourse ctx ⟨(n.map (·.text)).getD hint.name, span.pos, ps⟩ hint.type
  | .wordOp _ .delete e => do
    discard (e.course ctx .free)
    pure (.ofName "Boolean")
  | .wordOp _ .typeof e => do
    let s ← .session
    if e.identText?.all fun name => (s.env.lookup? name).isSome then
      discard (e.course ctx .free)
    pure (.ofName "String")
  | .wordOp _ .void e => do
    discard (e.course ctx .free)
    pure undefinedType
  | .before _ op e => do
    discard (e.course ctx .free)
    pure (if op == .bang then .ofName "Boolean" else .ofName "Number")
  | .after _ e _ => do
    discard (e.course ctx .free)
    pure (.ofName "Number")
  | .binary span l op r => do
    match operatorRule op with
    | .assign => do
      let target ← l.targetCourse ctx
      if let .other := target then discard (l.course ctx .free)
      .assign target r (ctx.line span.pos) fun demand => r.course ctx demand.hint
    | .choice => do
      let left ← l.course ctx hint.part
      let right ← r.course ctx hint.part
      pure (join [left, right])
    | .sequence => do
      discard (l.course ctx .free)
      r.course ctx hint.part
    | .comparison => do
      discard (l.course ctx .free)
      discard (r.course ctx .free)
      pure (.ofName "Boolean")
    | .addition => do
      let left ← l.course ctx .free
      let right ← r.course ctx .free
      pure (sumType left right)
    | .arithmetic => do
      discard (l.course ctx .free)
      discard (r.course ctx .free)
      pure (.ofName "Number")
  | .conditional _ t y n => do
    discard (t.course ctx .free)
    let yes ← y.course ctx hint.part
    let no ← n.course ctx hint.part
    pure (join [yes, no])
  | .omitted _ _ => pure undefinedType
  | .this _ => do pure ((← .session).env.receiver?.getD .any)
  | .null _ => pure (.value ⟨"null", .null⟩)
  | .boolean _ true => pure (.value ⟨"true", .trueWord⟩)
  | .boolean _ false => pure (.value ⟨"false", .falseWord⟩)
termination_by structural t => t

/-- The course of `Expr.target`. -/
def Expr.targetCourse (ctx : Context) : Expr → Course Target
  | .paren _ e => e.targetCourse ctx
  | .ident i => pure (.name i.text)
  | .member _ o n => do
    match exportTarget? o n.text, o.prototypeOf? with
    | some .module, _ => pure .exports
    | some (.property name), _ => pure (.exportProperty name)
    | none, some ctor => pure (.prototypeField ctor n.text)
    | none, none => do
      let object ← o.course ctx .free
      pure (.field object (outline o) n.text)
  | _ => pure .other
termination_by structural t => t

/-- The course of `inferElements`. -/
def courseOfElements (ctx : Context) : List Ty → Option Ty → List Expr → Course (List Ty)
  | _, _, [] => pure []
  | items, rest, e :: es => do
    let t ← e.course ctx { type := items.head?.or rest }
    let ts ← courseOfElements ctx items.tail rest es
    pure (t :: ts)
termination_by structural _ _ t => t

/-- The course of `inferProperties`. -/
def courseOfProperties (ctx : Context) (hint : String → Hint) :
    List Property → Course (List (String × Ty))
  | [] => pure []
  | .mk _ name e :: ps => do
    let t ← e.course ctx (hint name.key)
    let fs ← courseOfProperties ctx hint ps
    pure ((name.key, t.widen) :: fs)
termination_by structural t => t

/-- The course of `checkArgs`. -/
def courseOfArgs (ctx : Context) : List (Option String × Ty) → List Expr → Course Unit
  | _, [] => pure ()
  | params, e :: es => do
    let demand := argumentDemand params.head?
    let actual ← e.course ctx demand.hint
    discard (Course.settle demand e actual (ctx.line e.pos))
    courseOfArgs ctx params.tail es
termination_by structural _ t => t

/-- The course of `supply?`. -/
def supplyCourse (ctx : Context) (demand : Demand) (line : Nat) : Option Expr → Course (Option Ty)
  | none => pure none
  | some e => do
    let actual ← e.course ctx demand.hint
    some <$> Course.settle demand e actual line
termination_by structural t => t

/-- The course of `Block.checkFunction`. -/
def Block.functionCourse (ctx : Context) (head : FunctionHead) (declared : Option Ty) :
    Block → Course Ty
  | .mk _ ss => do
    let plan := planFunction (← .session).env (ctx.line head.pos) head declared
    .report plan.errors (planFunction_plain _ _ _ _)
    if plan.visits then
      .function head plan ss (courseOfStmts (ctx.inside (plan.frame head)) ss)
    pure plan.type
termination_by structural t => t

/-- The course of `Stmt.check`. -/
def Stmt.course (ctx : Context) : Stmt → Course Unit
  | .declaration _ l => l.course ctx
  | .function span n ps b => do
    let s ← .session
    let declared := if s.untyped.contains span.pos then none else s.typeOf? n.text
    discard (b.functionCourse ctx ⟨n.text, span.pos, ps⟩ declared)
    if declared.isSome then .step (.noteDeclaration n.text (ctx.line span.pos))
  | .block b => b.course ctx
  | .empty _ => pure ()
  | .expression _ e => discard (e.course ctx .free)
  | .ifElse _ t y n => do
    discard (t.course ctx .free)
    y.course ctx
    courseOfStmt? ctx n
  | .doWhile _ b t => do
    b.course ctx
    discard (t.course ctx .free)
  | .whileDo _ t b => do
    discard (t.course ctx .free)
    b.course ctx
  | .forLoop _ i t u b => .inBlock do
    i.course ctx
    discard (supplyCourse ctx .free 0 t)
    discard (supplyCourse ctx .free 0 u)
    b.course ctx
  | .forIn _ i o b => .inBlock do
    i.keysCourse ctx
    discard (o.course ctx .free)
    b.course ctx
  | .continueTo _ _ => pure ()
  | .breakTo _ _ => pure ()
  | .returnWith span v => do
    let env := (← .session).env
    let given ← supplyCourse ctx (returnDemand ctx env) (ctx.line span.pos) v
    .report (returnErrors ctx env span.pos given) (returnErrors_plain _ _ _ _)
  | .switchOn _ e cs => do
    discard (e.course ctx .free)
    courseOfClauses ctx cs
  | .labeled _ _ b => b.course ctx
  | .throwing _ e => discard (e.course ctx .free)
  | .tryCatch _ b h f => do
    b.course ctx
    h.course ctx
    courseOfBlock? ctx f
  | .debugger _ => pure ()
termination_by structural t => t

/-- The course of `checkStmts`. -/
def courseOfStmts (ctx : Context) : List Stmt → Course Unit
  | [] => pure ()
  | s :: ss => do
    s.course ctx
    courseOfStmts ctx ss
termination_by structural t => t

/-- The course of `checkStmt?`. -/
def courseOfStmt? (ctx : Context) : Option Stmt → Course Unit
  | none => pure ()
  | some s => s.course ctx
termination_by structural t => t

/-- The course of `Block.check`. -/
def Block.course (ctx : Context) : Block → Course Unit
  | .mk _ ss => .inBlock do
    .step (.hoist ss)
    courseOfStmts ctx ss
termination_by structural t => t

/-- The course of `checkBlock?`. -/
def courseOfBlock? (ctx : Context) : Option Block → Course Unit
  | none => pure ()
  | some b => b.course ctx
termination_by structural t => t

/-- The course of `DeclList.check`. -/
def DeclList.course (ctx : Context) : DeclList → Course Unit
  | .mk _ kind ds => courseOfDecls ctx kind ds
termination_by structural t => t

/-- The course of `checkDecls`. -/
def courseOfDecls (ctx : Context) (kind : DeclKind) : List Decl → Course Unit
  | [] => pure ()
  | .mk span name init :: ds => do
    let line := ctx.line span.pos
    let declared := ctx.headerType? (← .session).env name.text
    let given ← supplyCourse ctx (initialDemand declared name.text) line init
    .step (.declareResult kind name.text line (given.or declared))
    courseOfDecls ctx kind ds
termination_by structural t => t

/-- The course of `ForInit.check`. -/
def ForInit.course (ctx : Context) : ForInit → Course Unit
  | .none => pure ()
  | .decls l => l.course ctx
  | .expr e => discard (e.course ctx .free)
termination_by structural t => t

/-- The course of `ForInit.checkKeys`. -/
def ForInit.keysCourse (ctx : Context) : ForInit → Course Unit
  | .none => pure ()
  | .decls l => .step (.declareKeys l)
  | .expr e => discard (e.course ctx .free)
termination_by structural t => t

/-- The course of `checkClauses`. -/
def courseOfClauses (ctx : Context) : List Clause → Course Unit
  | [] => pure ()
  | .mk _ t ss :: cs => do
    discard (supplyCourse ctx .free 0 t)
    .inBlock do
      .step (.hoist ss)
      courseOfStmts ctx ss
    courseOfClauses ctx cs
termination_by structural t => t

/-- The course of `Handler.check`. -/
def Handler.course (ctx : Context) : Handler → Course Unit
  | .none => pure ()
  | .catching _ name b => .inBlock do
    .step (.declare ⟨name.text, .any, ctx.line name.span.pos⟩)
    b.course ctx
termination_by structural t => t

end

/-! ### Taking the course of a part is checking it -/

theorem Course.assign_isOf {ctx : Context} {body : Demand → Course Ty}
    {value : Demand → Checking Ty} (target : Target) (r : Expr) (line : Nat)
    (h : ∀ demand, (body demand).IsOf ctx (value demand)) :
    (Course.assign target r line body).IsOf ctx (do
      let demand ← target.demand ctx line
      let actual ← value demand
      let type ← demand.settle r actual line
      modify (target.complete ctx r.identText? type line)
      pure type) := by
  obtain rfl : (fun demand => (body demand).run ctx) = value := funext h
  rfl

/-- Statements in a block's scope of their own, and what comes after. -/
theorem Course.enterBlock_isOf {α : Type} {ctx : Context} {ss : List Stmt} {c : Course Unit}
    {d : Course α} {m : Checking Unit} {n : Checking α} (hc : c.IsOf ctx m) (hd : d.IsOf ctx n) :
    (Course.inBlock (.bind (.step (.hoist ss)) fun _ => c) >>= fun _ => d).IsOf ctx (do
      modify (·.enterBlock ctx ss)
      m
      modify (·.leave)
      n) := by
  subst hc hd
  rfl

section Policy

variable (p : ExportPolicy)

mutual

theorem Expr.course_isOf : ∀ (e : Expr) (ctx : Context) (hint : Hint),
    (e.course ctx hint).IsOf (ctx.under p) (e.infer (ctx.under p) hint)
  | .ident _, _, _ => Course.nameType_isOf _ _ _
  | .string _, _, _ => rfl
  | .number _, _, _ => rfl
  | .regex _ _, _, _ => rfl
  | .array _ es, ctx, _ =>
    .look fun _ => .bind (courseOfElements_isOf es ctx _ _) fun _ => .pure _
  | .object _ ps, ctx, _ =>
    .look fun _ => .bind (courseOfProperties_isOf ps ctx _) fun _ => .pure _
  | .member _ o n, ctx, _ => by
    refine .look fun s => ?_
    show (match if exportTarget? o n.text == some .module then ctx.unassignedExport? s else none
      with | some _ => _ | none => _ : Course Ty).IsOf _
        (match if exportTarget? o n.text == some .module then ctx.unassignedExport? s else none
          with | some _ => _ | none => _)
    cases if exportTarget? o n.text == some .module then ctx.unassignedExport? s else none with
    | some declared => rfl
    | none => exact .bind (o.course_isOf ctx .free) fun _ => Course.memberType_isOf _ _ _ _ _
  | .index _ o i, ctx, _ =>
    .bind (o.course_isOf ctx .free).discard fun _ =>
      .bind (i.course_isOf ctx .free).discard fun _ => .pure _
  | .call _ c as, ctx, _ =>
    .bind (c.course_isOf ctx .free) fun _ => .look fun _ => .bind .report fun _ =>
      .bind (courseOfArgs_isOf as ctx _) fun _ => .pure _
  | .construct _ c _ as, ctx, _ =>
    .bind (c.course_isOf ctx .free) fun _ => .look fun _ => .bind .report fun _ =>
      .bind (courseOfArgs_isOf as ctx _) fun _ => .pure _
  | .paren _ e, ctx, hint => e.course_isOf ctx hint
  | .function _ _ _ b, ctx, _ => b.functionCourse_isOf ctx _ _
  | .wordOp _ .delete e, ctx, _ => .bind (e.course_isOf ctx .free).discard fun _ => .pure _
  | .wordOp _ .typeof e, ctx, _ =>
    .look fun _ => .ite (.bind (e.course_isOf ctx .free).discard fun _ => .pure _) (.pure _)
  | .wordOp _ .void e, ctx, _ => .bind (e.course_isOf ctx .free).discard fun _ => .pure _
  | .before _ _ e, ctx, _ => .bind (e.course_isOf ctx .free).discard fun _ => .pure _
  | .after _ e _, ctx, _ => .bind (e.course_isOf ctx .free).discard fun _ => .pure _
  | .binary span l op r, ctx, hint => by
    have hl := fun hint => l.course_isOf ctx hint
    have hr := fun hint => r.course_isOf ctx hint
    unfold Expr.course Expr.infer
    cases operatorRule op with
    | assign =>
      refine .bind (l.targetCourse_isOf ctx) fun target => ?_
      have hassign := fun target =>
        Course.assign_isOf target r (ctx.line span.pos) fun demand : Demand => hr demand.hint
      cases target with
      | other => exact .bind (hl _).discard fun _ => hassign _
      | _ => exact hassign _
    | choice => exact .bind (hl _) fun _ => .bind (hr _) fun _ => .pure _
    | sequence => exact .bind (hl _).discard fun _ => hr _
    | comparison => exact .bind (hl _).discard fun _ => .bind (hr _).discard fun _ => .pure _
    | addition => exact .bind (hl _) fun _ => .bind (hr _) fun _ => .pure _
    | arithmetic => exact .bind (hl _).discard fun _ => .bind (hr _).discard fun _ => .pure _
  | .conditional _ t y n, ctx, hint =>
    .bind (t.course_isOf ctx .free).discard fun _ =>
      .bind (y.course_isOf ctx hint.part) fun _ =>
        .bind (n.course_isOf ctx hint.part) fun _ => .pure _
  | .omitted _ _, _, _ => rfl
  | .this _, _, _ => rfl
  | .null _, _, _ => rfl
  | .boolean _ true, _, _ => rfl
  | .boolean _ false, _, _ => rfl
termination_by structural e => e

theorem Expr.targetCourse_isOf : ∀ (e : Expr) (ctx : Context),
    (e.targetCourse ctx).IsOf (ctx.under p) (e.target (ctx.under p))
  | .paren _ e, ctx => e.targetCourse_isOf ctx
  | .ident _, _ => rfl
  | .member _ o n, ctx => by
    unfold Expr.targetCourse Expr.target
    cases exportTarget? o n.text with
    | some target =>
      cases target with
      | module => rfl
      | property name => rfl
    | none =>
      cases o.prototypeOf? with
      | some ctor => rfl
      | none => exact .bind (o.course_isOf ctx .free) fun _ => .pure _
  | .string _, _ => rfl
  | .number _, _ => rfl
  | .regex _ _, _ => rfl
  | .array _ _, _ => rfl
  | .object _ _, _ => rfl
  | .index _ _ _, _ => rfl
  | .call _ _ _, _ => rfl
  | .construct _ _ _ _, _ => rfl
  | .function _ _ _ _, _ => rfl
  | .wordOp _ _ _, _ => rfl
  | .before _ _ _, _ => rfl
  | .after _ _ _, _ => rfl
  | .binary _ _ _ _, _ => rfl
  | .conditional _ _ _ _, _ => rfl
  | .omitted _ _, _ => rfl
  | .this _, _ => rfl
  | .null _, _ => rfl
  | .boolean _ _, _ => rfl
termination_by structural e => e

theorem courseOfElements_isOf : ∀ (es : List Expr) (ctx : Context) (items : List Ty)
    (rest : Option Ty), (courseOfElements ctx items rest es).IsOf (ctx.under p)
      (inferElements (ctx.under p) items rest es)
  | [], _, _, _ => rfl
  | e :: es, ctx, _, _ =>
    .bind (e.course_isOf ctx _) fun _ => .bind (courseOfElements_isOf es ctx _ _) fun _ => .pure _
termination_by structural es => es

theorem courseOfProperties_isOf : ∀ (ps : List Property) (ctx : Context) (hint : String → Hint),
    (courseOfProperties ctx hint ps).IsOf (ctx.under p) (inferProperties (ctx.under p) hint ps)
  | [], _, _ => rfl
  | .mk _ _ e :: ps, ctx, _ =>
    .bind (e.course_isOf ctx _) fun _ => .bind (courseOfProperties_isOf ps ctx _) fun _ => .pure _
termination_by structural ps => ps

theorem courseOfArgs_isOf : ∀ (es : List Expr) (ctx : Context)
    (params : List (Option String × Ty)),
    (courseOfArgs ctx params es).IsOf (ctx.under p) (checkArgs (ctx.under p) params es)
  | [], _, _ => rfl
  | e :: es, ctx, _ =>
    .bind (e.course_isOf ctx _) fun _ =>
      .bind (Course.settle_isOf _ _ _ _ _).discard fun _ => courseOfArgs_isOf es ctx _
termination_by structural es => es

theorem supplyCourse_isOf : ∀ (e : Option Expr) (ctx : Context) (demand : Demand) (line : Nat),
    (supplyCourse ctx demand line e).IsOf (ctx.under p) (supply? (ctx.under p) demand line e)
  | none, _, _, _ => rfl
  | some e, ctx, _, _ =>
    .bind (e.course_isOf ctx _) fun _ => (Course.settle_isOf _ _ _ _ _).map _
termination_by structural e => e

theorem Block.functionCourse_isOf : ∀ (b : Block) (ctx : Context) (head : FunctionHead)
    (declared : Option Ty), (b.functionCourse ctx head declared).IsOf (ctx.under p)
      (b.checkFunction (ctx.under p) head declared)
  | .mk _ ss, ctx, _, _ =>
    .look fun _ => .bind .report fun _ =>
      .ite (.function (courseOfStmts_isOf ss (ctx.inside _)) _) (.pure _)
termination_by structural b => b

theorem Stmt.course_isOf : ∀ (s : Stmt) (ctx : Context),
    (s.course ctx).IsOf (ctx.under p) (s.check (ctx.under p))
  | .declaration _ l, ctx => l.course_isOf ctx
  | .function _ _ _ b, ctx =>
    .look fun _ => .bind (b.functionCourse_isOf ctx _ _).discard fun _ => .ite (.step _) (.pure _)
  | .block b, ctx => b.course_isOf ctx
  | .empty _, _ => rfl
  | .expression _ e, ctx => (e.course_isOf ctx .free).discard
  | .ifElse _ t y n, ctx =>
    .bind (t.course_isOf ctx .free).discard fun _ =>
      .bind (y.course_isOf ctx) fun _ => courseOfStmt?_isOf n ctx
  | .doWhile _ b t, ctx =>
    .bind (b.course_isOf ctx) fun _ => (t.course_isOf ctx .free).discard
  | .whileDo _ t b, ctx =>
    .bind (t.course_isOf ctx .free).discard fun _ => b.course_isOf ctx
  | .forLoop _ i t u b, ctx =>
    .inBlock <| .bind (i.course_isOf ctx) fun _ =>
      .bind (supplyCourse_isOf t ctx .free 0).discard fun _ =>
        .bind (supplyCourse_isOf u ctx .free 0).discard fun _ => b.course_isOf ctx
  | .forIn _ i o b, ctx =>
    .inBlock <| .bind (i.keysCourse_isOf ctx) fun _ =>
      .bind (o.course_isOf ctx .free).discard fun _ => b.course_isOf ctx
  | .continueTo _ _, _ => rfl
  | .breakTo _ _, _ => rfl
  | .returnWith _ v, ctx =>
    .look fun _ => .bind (supplyCourse_isOf v ctx _ _) fun _ => .report
  | .switchOn _ e cs, ctx =>
    .bind (e.course_isOf ctx .free).discard fun _ => courseOfClauses_isOf cs ctx
  | .labeled _ _ b, ctx => b.course_isOf ctx
  | .throwing _ e, ctx => (e.course_isOf ctx .free).discard
  | .tryCatch _ b h f, ctx =>
    .bind (b.course_isOf ctx) fun _ =>
      .bind (h.course_isOf ctx) fun _ => courseOfBlock?_isOf f ctx
  | .debugger _, _ => rfl
termination_by structural s => s

theorem courseOfStmts_isOf : ∀ (ss : List Stmt) (ctx : Context),
    (courseOfStmts ctx ss).IsOf (ctx.under p) (checkStmts (ctx.under p) ss)
  | [], _ => rfl
  | s :: ss, ctx => .bind (s.course_isOf ctx) fun _ => courseOfStmts_isOf ss ctx
termination_by structural ss => ss

theorem courseOfStmt?_isOf : ∀ (s : Option Stmt) (ctx : Context),
    (courseOfStmt? ctx s).IsOf (ctx.under p) (checkStmt? (ctx.under p) s)
  | none, _ => rfl
  | some s, ctx => s.course_isOf ctx
termination_by structural s => s

theorem Block.course_isOf : ∀ (b : Block) (ctx : Context),
    (b.course ctx).IsOf (ctx.under p) (b.check (ctx.under p))
  | .mk _ ss, ctx => .inBlock (.bind (.step (.hoist ss)) fun _ => courseOfStmts_isOf ss ctx)
termination_by structural b => b

theorem courseOfBlock?_isOf : ∀ (b : Option Block) (ctx : Context),
    (courseOfBlock? ctx b).IsOf (ctx.under p) (checkBlock? (ctx.under p) b)
  | none, _ => rfl
  | some b, ctx => b.course_isOf ctx
termination_by structural b => b

theorem DeclList.course_isOf : ∀ (l : DeclList) (ctx : Context),
    (l.course ctx).IsOf (ctx.under p) (l.check (ctx.under p))
  | .mk _ kind ds, ctx => courseOfDecls_isOf ds ctx kind
termination_by structural l => l

theorem courseOfDecls_isOf : ∀ (ds : List Decl) (ctx : Context) (kind : DeclKind),
    (courseOfDecls ctx kind ds).IsOf (ctx.under p) (checkDecls (ctx.under p) kind ds)
  | [], _, _ => rfl
  | .mk _ _ init :: ds, ctx, kind =>
    .look fun _ => .bind (supplyCourse_isOf init ctx _ _) fun _ =>
      .bind (.step _) fun _ => courseOfDecls_isOf ds ctx kind
termination_by structural ds => ds

theorem ForInit.course_isOf : ∀ (i : ForInit) (ctx : Context),
    (i.course ctx).IsOf (ctx.under p) (i.check (ctx.under p))
  | .none, _ => rfl
  | .decls l, ctx => l.course_isOf ctx
  | .expr e, ctx => (e.course_isOf ctx .free).discard
termination_by structural i => i

theorem ForInit.keysCourse_isOf : ∀ (i : ForInit) (ctx : Context),
    (i.keysCourse ctx).IsOf (ctx.under p) (i.checkKeys (ctx.under p))
  | .none, _ => rfl
  | .decls _, _ => rfl
  | .expr e, ctx => (e.course_isOf ctx .free).discard
termination_by structural i => i

theorem courseOfClauses_isOf : ∀ (cs : List Clause) (ctx : Context),
    (courseOfClauses ctx cs).IsOf (ctx.under p) (checkClauses (ctx.under p) cs)
  | [], _ => rfl
  | .mk _ t ss :: cs, ctx =>
    .bind (supplyCourse_isOf t ctx .free 0).discard fun _ =>
      Course.enterBlock_isOf (courseOfStmts_isOf ss ctx) (courseOfClauses_isOf cs ctx)
termination_by structural cs => cs

theorem Handler.course_isOf : ∀ (h : Handler) (ctx : Context),
    (h.course ctx).IsOf (ctx.under p) (h.check (ctx.under p))
  | .none, _ => rfl
  | .catching _ _ b, ctx => .inBlock (.bind (.step _) fun _ => b.course_isOf ctx)
termination_by structural h => h

end

end Policy

end Script

namespace Verify

open Script (courseOfStmts)

/-- The session in which the statements of a module are checked. -/
def moduleStart (ctx : Context) (start : Session) (ss : List Script.Stmt) : Session :=
  (start.enter (.ofKind .module)).hoist ctx ss

/-- A module is checked by taking the course of its statements. -/
theorem checkModule_eq (ctx : Context) (p : ExportPolicy) (start : Session)
    (ss : List Script.Stmt) : checkModule (ctx.under p) start ss =
      (((courseOfStmts ctx ss).run (ctx.under p)).run (moduleStart ctx start ss)).2 := by
  rw [show (courseOfStmts ctx ss).run (ctx.under p) = Script.checkStmts (ctx.under p) ss from
    Script.courseOfStmts_isOf p ss ctx]
  rfl

/-- Checking a module leads to where the course of its statements does. -/
theorem checkModule_after (ctx : Context) (start : Session) (ss : List Script.Stmt) :
    checkModule ctx start ss = (courseOfStmts ctx ss).after ctx (moduleStart ctx start ss) :=
  checkModule_eq ctx ctx.policy start ss

end Verify
end Countersign
