/-
# Summarizing a program

One walk through the program collects what it implements. What is found in a part is a value,
`Findings`, and findings of parts are put together in the order of the text. Accesses to the
receiver and returns belong to the innermost function around them: where a function ends they move
from the findings into its summary.

Key definitions: `Findings`, `Stmt.findings`, `Expr.findings`, `Script.summarize`.
-/
import Countersign.Text.LineMap
import Countersign.Summary.Basic
import Countersign.Summary.Completion

namespace Countersign

/-- What was found in a part of a program; accesses and returns are those of the function around
it. -/
structure Findings where
  functions : List FunctionSummary := []
  accesses : List ThisAccess := []
  returns : List ReturnSite := []
  prototypes : List PrototypeAssignment := []
  exports : List ExportAssignment := []
  deriving Repr, DecidableEq, Inhabited

namespace Findings

/-- Nothing was found. -/
def empty : Findings := {}

/-- What was found in two parts, one after the other. -/
def append (f g : Findings) : Findings where
  functions := f.functions ++ g.functions
  accesses := f.accesses ++ g.accesses
  returns := f.returns ++ g.returns
  prototypes := f.prototypes ++ g.prototypes
  exports := f.exports ++ g.exports

instance : Append Findings := ⟨append⟩

/-- An access to a field of the receiver. -/
def access (field : String) (isWrite : Bool) : Findings := { accesses := [⟨field, isWrite⟩] }

/-- How control leaves a body, given whether it can reach the end and the returns in it. -/
def completionOf (reachesEnd : Bool) (returns : List ReturnSite) : Completion :=
  if reachesEnd then .fallsThrough
  else if returns.any (·.reachable) then .returns
  else .throws

/-- The findings of a function, from those of its body. -/
def ofFunction (name : Option String) (kind : FunctionKind) (pos line paramCount : Nat)
    (reachesEnd : Bool) (body : Findings) : Findings where
  functions :=
    { name := name, kind := kind, pos := pos, line := line, paramCount := paramCount
      accesses := body.accesses, returns := body.returns
      completion := completionOf reachesEnd body.returns } :: body.functions
  accesses := []
  returns := []
  prototypes := body.prototypes
  exports := body.exports

end Findings

namespace Script

/-- An assignment: whether it is plain, the name of the value if it is a plain name, and the
line. -/
structure AssignmentSite where
  plain : Bool
  valueName : Option String
  line : Nat
  deriving Repr, DecidableEq, Inhabited

/-- What an expression is used for: its value, or as the target of an assignment. -/
inductive Role where
  | value
  | target (site : AssignmentSite)
  deriving Repr, DecidableEq, Inhabited

/-- The constructor whose prototype an expression is, if it is one's. -/
def Expr.prototypeOf? (e : Expr) : Option String :=
  match e.skipParens with
  | .member _ o n => if n.text == "prototype" then o.identText? else none
  | _ => none

/-- What the property `name` of `object` is as the target of an export, if it is one. -/
def exportTarget? (object : Expr) (name : String) : Option ExportTarget :=
  if object.identText? == some "module" && name == "exports" then some .module
  else if object.isMemberOf "module" "exports" || object.identText? == some "exports" then
    some (.property name)
  else none

/-- What a plain assignment to the property `name` of `object` means: a field of a prototype, an
export, or nothing of note. -/
def AssignmentSite.findings (site : AssignmentSite) (object : Expr) (name : String) : Findings :=
  if site.plain then
    match object.prototypeOf? with
    | some ctor => { prototypes := [⟨ctor, name, site.line⟩] }
    | none =>
      match exportTarget? object name with
      | some target => { exports := [⟨target, site.valueName, site.line⟩] }
      | none => .empty
  else .empty

mutual

/-- What is found in an expression. -/
def Expr.findings (lines : LineMap) : Role → Expr → Findings
  | role, .paren _ e => e.findings lines role
  | .target site, .member _ (.this _) n =>
    (if site.plain then .empty else .access n.text false) ++ .access n.text true
  | .target site, .member _ o n => site.findings o n.text ++ o.findings lines .value
  | .value, .member _ (.this _) n => .access n.text false
  | .value, .member _ o _ => o.findings lines .value
  | _, .array _ es => findingsOfExprs lines es
  | _, .object _ ps => findingsOfProperties lines ps
  | _, .index _ o i => o.findings lines .value ++ i.findings lines .value
  | _, .call _ c as => c.findings lines .value ++ findingsOfExprs lines as
  | _, .construct _ c _ as => c.findings lines .value ++ findingsOfExprs lines as
  | _, .function span n ps b =>
    .ofFunction (n.map (·.text)) .expression span.pos (lines.lineNumber span.pos) ps.length
      b.canComplete (b.findings lines false)
  | _, .wordOp _ _ e => e.findings lines .value
  | _, .before _ _ e => e.findings lines .value
  | _, .after _ e _ => e.findings lines .value
  | _, .binary span l op r =>
    if op.isAssignment then
      l.findings lines
        (.target ⟨op == .mark .assign, r.identText?, lines.lineNumber span.pos⟩) ++
        r.findings lines .value
    else l.findings lines .value ++ r.findings lines .value
  | _, .conditional _ t y n =>
    t.findings lines .value ++ y.findings lines .value ++ n.findings lines .value
  | _, .ident _ => .empty
  | _, .string _ => .empty
  | _, .number _ => .empty
  | _, .regex _ _ => .empty
  | _, .omitted _ _ => .empty
  | _, .this _ => .empty
  | _, .null _ => .empty
  | _, .boolean _ _ => .empty
termination_by structural _ t => t

/-- What is found in expressions. -/
def findingsOfExprs (lines : LineMap) : List Expr → Findings
  | [] => .empty
  | e :: es => e.findings lines .value ++ findingsOfExprs lines es
termination_by structural t => t

/-- What is found in an expression, if there is one. -/
def findingsOfExpr? (lines : LineMap) : Option Expr → Findings
  | none => .empty
  | some e => e.findings lines .value
termination_by structural t => t

/-- What is found in the values of properties. -/
def findingsOfProperties (lines : LineMap) : List Property → Findings
  | [] => .empty
  | .mk _ _ e :: ps => e.findings lines .value ++ findingsOfProperties lines ps
termination_by structural t => t

/-- What is found in a statement, given whether control cannot get to it. -/
def Stmt.findings (lines : LineMap) (dead : Bool) : Stmt → Findings
  | .declaration _ l => l.findings lines
  | .function span n ps b =>
    .ofFunction (some n.text) .declaration span.pos (lines.lineNumber span.pos) ps.length
      b.canComplete (b.findings lines false)
  | .block b => b.findings lines dead
  | .empty _ => .empty
  | .expression _ e => e.findings lines .value
  | .ifElse _ t y n =>
    t.findings lines .value ++ y.findings lines dead ++ findingsOfStmt? lines dead n
  | .doWhile _ b t => b.findings lines dead ++ t.findings lines .value
  | .whileDo _ t b => t.findings lines .value ++ b.findings lines dead
  | .forLoop _ i t u b =>
    i.findings lines ++ findingsOfExpr? lines t ++ findingsOfExpr? lines u ++
      b.findings lines dead
  | .forIn _ i o b => i.findings lines ++ o.findings lines .value ++ b.findings lines dead
  | .continueTo _ _ => .empty
  | .breakTo _ _ => .empty
  | .returnWith span v =>
    { returns := [⟨span.pos, lines.lineNumber span.pos, !dead⟩] } ++ findingsOfExpr? lines v
  | .switchOn _ e cs => e.findings lines .value ++ findingsOfClauses lines dead cs
  | .labeled _ _ b => b.findings lines dead
  | .throwing _ e => e.findings lines .value
  | .tryCatch _ b h f =>
    b.findings lines dead ++ h.findings lines dead ++ findingsOfBlock? lines dead f
  | .debugger _ => .empty
termination_by structural t => t

/-- What is found in statements; control gets to none after one that does not complete. -/
def findingsOfStmts (lines : LineMap) (dead : Bool) : List Stmt → Findings
  | [] => .empty
  | s :: ss => s.findings lines dead ++ findingsOfStmts lines (dead || !s.canComplete) ss
termination_by structural t => t

/-- What is found in a statement, if there is one. -/
def findingsOfStmt? (lines : LineMap) (dead : Bool) : Option Stmt → Findings
  | none => .empty
  | some s => s.findings lines dead
termination_by structural t => t

/-- What is found in a block. -/
def Block.findings (lines : LineMap) (dead : Bool) : Block → Findings
  | .mk _ ss => findingsOfStmts lines dead ss
termination_by structural t => t

/-- What is found in a block, if there is one. -/
def findingsOfBlock? (lines : LineMap) (dead : Bool) : Option Block → Findings
  | none => .empty
  | some b => b.findings lines dead
termination_by structural t => t

/-- What is found in the first values of declared variables. -/
def DeclList.findings (lines : LineMap) : DeclList → Findings
  | .mk _ _ ds => findingsOfDecls lines ds
termination_by structural t => t

/-- What is found in the first values of declared variables. -/
def findingsOfDecls (lines : LineMap) : List Decl → Findings
  | [] => .empty
  | .mk _ _ e :: ds => findingsOfExpr? lines e ++ findingsOfDecls lines ds
termination_by structural t => t

/-- What is found in the first part of a loop's head. -/
def ForInit.findings (lines : LineMap) : ForInit → Findings
  | .none => .empty
  | .decls l => l.findings lines
  | .expr e => e.findings lines .value
termination_by structural t => t

/-- What is found in clauses. -/
def findingsOfClauses (lines : LineMap) (dead : Bool) : List Clause → Findings
  | [] => .empty
  | .mk _ t ss :: cs =>
    findingsOfExpr? lines t ++ findingsOfStmts lines dead ss ++ findingsOfClauses lines dead cs
termination_by structural t => t

/-- What is found in a handler. -/
def Handler.findings (lines : LineMap) (dead : Bool) : Handler → Findings
  | .none => .empty
  | .catching _ _ b => b.findings lines dead
termination_by structural t => t

end

/-- What a program implements. -/
def summarize (s : Script) (lines : LineMap) : Summary :=
  let f := findingsOfStmts lines false s.statements
  ⟨f.functions, f.prototypes, f.exports⟩

end Script
end Countersign
