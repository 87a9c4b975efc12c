/-
# Walking through a program

All statements and expressions of a program, each before those it contains and otherwise in the
order in which they stand in the text.

Key definitions: `Node`, `Stmt.nodes`, `Expr.nodes`, `Script.nodes`.
-/
import Countersign.Script.Tree

namespace Countersign
namespace Script

/-- A statement or an expression. -/
inductive Node where
  | stmt (s : Stmt)
  | expr (e : Expr)

/-- The span of a node. -/
def Node.span : Node → Span
  | stmt s => s.span
  | expr e => e.span

mutual

/-- The expression and what it contains. -/
def Expr.nodes : Expr → List Node
  | .ident i => [.expr (.ident i)]
  | .string s => [.expr (.string s)]
  | .number n => [.expr (.number n)]
  | .regex span t => [.expr (.regex span t)]
  | .array span es => .expr (.array span es) :: nodesOfExprs es
  | .object span ps => .expr (.object span ps) :: nodesOfProperties ps
  | .member span o n => .expr (.member span o n) :: o.nodes
  | .index span o i => .expr (.index span o i) :: (o.nodes ++ i.nodes)
  | .call span c as => .expr (.call span c as) :: (c.nodes ++ nodesOfExprs as)
  | .construct span c l as => .expr (.construct span c l as) :: (c.nodes ++ nodesOfExprs as)
  | .paren span e => .expr (.paren span e) :: e.nodes
  | .function span n ps b => .expr (.function span n ps b) :: b.nodes
  | .wordOp span op e => .expr (.wordOp span op e) :: e.nodes
  | .before span op e => .expr (.before span op e) :: e.nodes
  | .after span e op => .expr (.after span e op) :: e.nodes
  | .binary span l op r => .expr (.binary span l op r) :: (l.nodes ++ r.nodes)
  | .conditional span t y n => .expr (.conditional span t y n) :: (t.nodes ++ y.nodes ++ n.nodes)
  | .omitted span f => [.expr (.omitted span f)]
  | .this span => [.expr (.this span)]
  | .null span => [.expr (.null span)]
  | .boolean span b => [.expr (.boolean span b)]
termination_by structural t => t

/-- The expressions and what they contain. -/
def nodesOfExprs : List Expr → List Node
  | [] => []
  | e :: es => e.nodes ++ nodesOfExprs es
termination_by structural t => t

/-- What an expression contains, if there is one. -/
def nodesOfExpr? : Option Expr → List Node
  | none => []
  | some e => e.nodes
termination_by structural t => t

/-- What the values of properties contain. -/
def nodesOfProperties : List Property → List Node
  | [] => []
  | .mk _ _ e :: ps => e.nodes ++ nodesOfProperties ps
termination_by structural t => t

/-- The statement and what it contains. -/
def Stmt.nodes : Stmt → List Node
  | .declaration span l => .stmt (.declaration span l) :: l.nodes
  | .function span n ps b => .stmt (.function span n ps b) :: b.nodes
  | .block b => .stmt (.block b) :: b.nodes
  | .empty span => [.stmt (.empty span)]
  | .expression span e => .stmt (.expression span e) :: e.nodes
  | .ifElse span t y n => .stmt (.ifElse span t y n) :: (t.nodes ++ y.nodes ++ nodesOfStmt? n)
  | .doWhile span b t => .stmt (.doWhile span b t) :: (b.nodes ++ t.nodes)
  | .whileDo span t b => .stmt (.whileDo span t b) :: (t.nodes ++ b.nodes)
  | .forLoop span i t u b =>
    .stmt (.forLoop span i t u b) :: (i.nodes ++ nodesOfExpr? t ++ nodesOfExpr? u ++ b.nodes)
  | .forIn span i o b => .stmt (.forIn span i o b) :: (i.nodes ++ o.nodes ++ b.nodes)
  | .continueTo span l => [.stmt (.continueTo span l)]
  | .breakTo span l => [.stmt (.breakTo span l)]
  | .returnWith span v => .stmt (.returnWith span v) :: nodesOfExpr? v
  | .switchOn span e cs => .stmt (.switchOn span e cs) :: (e.nodes ++ nodesOfClauses cs)
  | .labeled span l b => .stmt (.labeled span l b) :: b.nodes
  | .throwing span e => .stmt (.throwing span e) :: e.nodes
  | .tryCatch span b h f =>
    .stmt (.tryCatch span b h f) :: (b.nodes ++ h.nodes ++ nodesOfBlock? f)
  | .debugger span => [.stmt (.debugger span)]
termination_by structural t => t

/-- The statements and what they contain. -/
def nodesOfStmts : List Stmt → List Node
  | [] => []
  | s :: ss => s.nodes ++ nodesOfStmts ss
termination_by structural t => t

/-- What a statement contains, if there is one. -/
def nodesOfStmt? : Option Stmt → List Node
  | none => []
  | some s => s.nodes
termination_by structural t => t

/-- What a block contains. -/
def Block.nodes : Block → List Node
  | .mk _ ss => nodesOfStmts ss
termination_by structural t => t

/-- What a block contains, if there is one. -/
def nodesOfBlock? : Option Block → List Node
  | none => []
  | some b => b.nodes
termination_by structural t => t

/-- What the first values of declared variables contain. -/
def DeclList.nodes : DeclList → List Node
  | .mk _ _ ds => nodesOfDecls ds
termination_by structural t => t

/-- What the first values of declared variables contain. -/
def nodesOfDecls : List Decl → List Node
  | [] => []
  | .mk _ _ e :: ds => nodesOfExpr? e ++ nodesOfDecls ds
termination_by structural t => t

/-- What the first part of a loop's head contains. -/
def ForInit.nodes : ForInit → List Node
  | .none => []
  | .decls l => l.nodes
  | .expr e => e.nodes
termination_by structural t => t

/-- What clauses contain. -/
def nodesOfClauses : List Clause → List Node
  | [] => []
  | .mk _ t ss :: cs => nodesOfExpr? t ++ nodesOfStmts ss ++ nodesOfClauses cs
termination_by structural t => t

/-- What a handler contains. -/
def Handler.nodes : Handler → List Node
  | .none => []
  | .catching _ _ b => b.nodes
termination_by structural t => t

end

end Script

/-- All statements and expressions of a program. -/
def Script.nodes (s : Script) : List Script.Node := Script.nodesOfStmts s.statements

end Countersign
