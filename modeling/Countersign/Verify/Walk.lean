/-
# The walk through a program

Every statement is checked and every expression given a type, in the order of the text. Assignments
look at their target, then at their value, and take effect last.

Key definitions: `Expr.infer`, `Block.checkFunction`, `Stmt.check`, `checkStmts`.
-/
import Countersign.Verify.Assignment

namespace Countersign
namespace Script

open Verify

mutual

/-- The type of an expression. -/
def Expr.infer (ctx : Context) (hint : Hint) : Expr → Checking Ty
  | .ident i => nameType i.text (ctx.line i.span.pos)
  | .string s => pure (stringType s)
  | .number n => pure (.value ⟨n.text, .number⟩)
  | .regex _ _ => pure (.ofName "RegExp")
  | .array _ es => do
    let hints := elementHints (← get).env hint.type
    let types ← inferElements ctx hints.items hints.rest es
    pure (hints.arrayType hint.type types)
  | .object _ ps => do
    let env := (← get).env
    let fields ← inferProperties ctx (propertyHint env hint.type) ps
    pure (.objectOf fields)
  | .member _ o n => do
    let line := ctx.line n.span.pos
    let s ← get
    match if exportTarget? o n.text == some .module then ctx.unassignedExport? s else none with
    | some declared => do
      report (missingExport declared line)
      pure declared
    | none => do
      let object ← o.infer ctx .free
      memberType object (outline o) n.text line
  | .index _ o i => do
    discard (o.infer ctx .free)
    discard (i.infer ctx .free)
    pure .any
  | .call span c as => do
    let callee ← c.infer ctx .free
    let signature := ((← get).env.resolve callee).asFunction?
    reportAll (callErrors signature (outline c) as.length (ctx.line span.pos))
    checkArgs ctx ((signature.map (·.params)).getD []) as
    pure ((signature.map (·.result)).getD .any)
  | .construct span c _ as => do
    let callee ← c.infer ctx .free
    let signature := ((← get).env.resolve callee).asFunction?
    reportAll (callErrors signature (outline c) as.length (ctx.line span.pos))
    checkArgs ctx ((signature.map (·.params)).getD []) as
    pure (constructedType signature c)
  | .paren _ e => e.infer ctx hint
  | .function span n ps b =>
    b.checkFunction ctx ⟨(n.map (·.text)).getD hint.name, span.pos, ps⟩ hint.type
  | .wordOp _ .delete e => do
    discard (e.infer ctx .free)
    pure (.ofName "Boolean")
  | .wordOp _ .typeof e => do
    -- The type of a name may be asked for whether or not it is known.
    let s ← get
    if e.identText?.all fun name => (s.env.lookup? name).isSome then
      discard (e.infer ctx .free)
    pure (.ofName "String")
  | .wordOp _ .void e => do
    discard (e.infer ctx .free)
    pure undefinedType
  | .before _ op e => do
    discard (e.infer ctx .free)
    pure (if op == .bang then .ofName "Boolean" else .ofName "Number")
  | .after _ e _ => do
    discard (e.infer ctx .free)
    pure (.ofName "Number")
  | .binary span l op r => do
    match operatorRule op with
    | .assign => do
      let line := ctx.line span.pos
      let target ← l.target ctx
      if let .other := target then discard (l.infer ctx .free)
      let demand ← target.demand ctx line
      let actual ← r.infer ctx demand.hint
      let type ← demand.settle r actual line
      modify (target.complete ctx r.identText? type line)
      pure type
    | .choice => do
      let left ← l.infer ctx hint.part
      let right ← r.infer ctx hint.part
      pure (join [left, right])
    | .sequence => do
      discard (l.infer ctx .free)
      r.infer ctx hint.part
    | .comparison => do
      discard (l.infer ctx .free)
      discard (r.infer ctx .free)
      pure (.ofName "Boolean")
    | .addition => do
      let left ← l.infer ctx .free
      let right ← r.infer ctx .free
      pure (sumType left right)
    | .arithmetic => do
      discard (l.infer ctx .free)
      discard (r.infer ctx .free)
      pure (.ofName "Number")
  | .conditional _ t y n => do
    discard (t.infer ctx .free)
    let yes ← y.infer ctx hint.part
    let no ← n.infer ctx hint.part
    pure (join [yes, no])
  | .omitted _ _ => pure undefinedType
  | .this _ => do pure ((← get).env.receiver?.getD .any)
  | .null _ => pure (.value ⟨"null", .null⟩)
  | .boolean _ true => pure (.value ⟨"true", .trueWord⟩)
  | .boolean _ false => pure (.value ⟨"false", .falseWord⟩)
termination_by structural t => t

/-- What an expression is as the target of an assignment; the object of a plain field is looked
at. -/
def Expr.target (ctx : Context) : Expr → Checking Target
  | .paren _ e => e.target ctx
  | .ident i => pure (.name i.text)
  | .member _ o n => do
    match exportTarget? o n.text, o.prototypeOf? with
    | some .module, _ => pure .exports
    | some (.property name), _ => pure (.exportProperty name)
    | none, some ctor => pure (.prototypeField ctor n.text)
    | none, none => do
      let object ← o.infer ctx .free
      pure (.field object (outline o) n.text)
  | _ => pure .other
termination_by structural t => t

/-- The types of the elements of an array. -/
def inferElements (ctx : Context) : List Ty → Option Ty → List Expr → Checking (List Ty)
  | _, _, [] => pure []
  | items, rest, e :: es => do
    let t ← e.infer ctx { type := items.head?.or rest }
    let ts ← inferElements ctx items.tail rest es
    pure (t :: ts)
termination_by structural _ _ t => t

/-- The fields of an object literal; each has the class of its value. -/
def inferProperties (ctx : Context) (hint : String → Hint) :
    List Property → Checking (List (String × Ty))
  | [] => pure []
  | .mk _ name e :: ps => do
    let t ← e.infer ctx (hint name.key)
    let fs ← inferProperties ctx hint ps
    pure ((name.key, t.widen) :: fs)
termination_by structural t => t

/-- Checks the arguments of a call against its parameters. -/
def checkArgs (ctx : Context) : List (Option String × Ty) → List Expr → Checking Unit
  | _, [] => pure ()
  | params, e :: es => do
    let demand := argumentDemand params.head?
    let actual ← e.infer ctx demand.hint
    discard (demand.settle e actual (ctx.line e.pos))
    checkArgs ctx params.tail es
termination_by structural _ t => t

/-- Checks a value against a demand, if there is a value. -/
def supply? (ctx : Context) (demand : Demand) (line : Nat) : Option Expr → Checking (Option Ty)
  | none => pure none
  | some e => do
    let actual ← e.infer ctx demand.hint
    some <$> demand.settle e actual line
termination_by structural t => t

/-- Checks a function with this body against its declared type, and gives the type by which it is
known afterwards. -/
def Block.checkFunction (ctx : Context) (head : FunctionHead) (declared : Option Ty) :
    Block → Checking Ty
  | .mk _ ss => do
    let plan := planFunction (← get).env (ctx.line head.pos) head declared
    reportAll plan.errors
    if plan.visits then
      let inner := { ctx with frame := some (plan.frame head) }
      modify (·.enterFunction inner head plan ss)
      checkStmts inner ss
      modify (·.leaveFunction inner head plan ss)
    pure plan.type
termination_by structural t => t

/-- Checks a statement. -/
def Stmt.check (ctx : Context) : Stmt → Checking Unit
  | .declaration _ l => l.check ctx
  | .function span n ps b => do
    let s ← get
    let declared := if s.untyped.contains span.pos then none else s.typeOf? n.text
    discard (b.checkFunction ctx ⟨n.text, span.pos, ps⟩ declared)
    if declared.isSome then modify (·.noteDeclaration ctx n.text (ctx.line span.pos))
  | .block b => b.check ctx
  | .empty _ => pure ()
  | .expression _ e => discard (e.infer ctx .free)
  | .ifElse _ t y n => do
    discard (t.infer ctx .free)
    y.check ctx
    checkStmt? ctx n
  | .doWhile _ b t => do
    b.check ctx
    discard (t.infer ctx .free)
  | .whileDo _ t b => do
    discard (t.infer ctx .free)
    b.check ctx
  | .forLoop _ i t u b => do
    modify (·.enter (.ofKind .block))
    i.check ctx
    discard (supply? ctx .free 0 t)
    discard (supply? ctx .free 0 u)
    b.check ctx
    modify (·.leave)
  | .forIn _ i o b => do
    modify (·.enter (.ofKind .block))
    i.checkKeys ctx
    discard (o.infer ctx .free)
    b.check ctx
    modify (·.leave)
  | .continueTo _ _ => pure ()
  | .breakTo _ _ => pure ()
  | .returnWith span v => do
    let env := (← get).env
    let given ← supply? ctx (returnDemand ctx env) (ctx.line span.pos) v
    reportAll (returnErrors ctx env span.pos given)
  | .switchOn _ e cs => do
    discard (e.infer ctx .free)
    checkClauses ctx cs
  | .labeled _ _ b => b.check ctx
  | .throwing _ e => discard (e.infer ctx .free)
  | .tryCatch _ b h f => do
    b.check ctx
    h.check ctx
    checkBlock? ctx f
  | .debugger _ => pure ()
termination_by structural t => t

/-- Checks statements in order. -/
def checkStmts (ctx : Context) : List Stmt → Checking Unit
  | [] => pure ()
  | s :: ss => do
    s.check ctx
    checkStmts ctx ss
termination_by structural t => t

/-- Checks a statement, if there is one. -/
def checkStmt? (ctx : Context) : Option Stmt → Checking Unit
  | none => pure ()
  | some s => s.check ctx
termination_by structural t => t

/-- Checks a block in a scope of its own. -/
def Block.check (ctx : Context) : Block → Checking Unit
  | .mk _ ss => do
    modify (·.enterBlock ctx ss)
    checkStmts ctx ss
    modify (·.leave)
termination_by structural t => t

/-- Checks a block, if there is one. -/
def checkBlock? (ctx : Context) : Option Block → Checking Unit
  | none => pure ()
  | some b => b.check ctx
termination_by structural t => t

/-- Checks and binds declared variables. -/
def DeclList.check (ctx : Context) : DeclList → Checking Unit
  | .mk _ kind ds => checkDecls ctx kind ds
termination_by structural t => t

/-- Checks and binds declared variables in order. -/
def checkDecls (ctx : Context) (kind : DeclKind) : List Decl → Checking Unit
  | [] => pure ()
  | .mk span name init :: ds => do
    let line := ctx.line span.pos
    let declared := ctx.headerType? (← get).env name.text
    let given ← supply? ctx (initialDemand declared name.text) line init
    modify (·.declareResult kind name.text line (given.or declared))
    checkDecls ctx kind ds
termination_by structural t => t

/-- Checks the first part of a loop's head. -/
def ForInit.check (ctx : Context) : ForInit → Checking Unit
  | .none => pure ()
  | .decls l => l.check ctx
  | .expr e => discard (e.infer ctx .free)
termination_by structural t => t

/-- Checks the first part of the head of a loop over keys. -/
def ForInit.checkKeys (ctx : Context) : ForInit → Checking Unit
  | .none => pure ()
  | .decls l => modify (·.declareKeys ctx l)
  | .expr e => discard (e.infer ctx .free)
termination_by structural t => t

/-- Checks clauses in order, each in a scope of its own. -/
def checkClauses (ctx : Context) : List Clause → Checking Unit
  | [] => pure ()
  | .mk _ t ss :: cs => do
    discard (supply? ctx .free 0 t)
    modify (·.enterBlock ctx ss)
    checkStmts ctx ss
    modify (·.leave)
    checkClauses ctx cs
termination_by structural t => t

/-- Checks a handler; its variable is known around its block. -/
def Handler.check (ctx : Context) : Handler → Checking Unit
  | .none => pure ()
  | .catching _ name b => do
    modify fun s =>
      (s.enter (.ofKind .block)).declare ⟨name.text, .any, ctx.line name.span.pos⟩
    b.check ctx
    modify (·.leave)
termination_by structural t => t

end

end Script
end Countersign
