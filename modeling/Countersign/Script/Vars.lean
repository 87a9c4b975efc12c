/-
# Hoisted names

A `var` is known in the whole body around it, wherever in it the declaration stands, but not in
functions inside it. Function declarations are known in the list of statements they stand in.

Key definitions: `varsOfStmts`, `declaredFunctions`.
-/
import Countersign.Script.Tree

namespace Countersign
namespace Script

/-- A name that a declaration introduces, and the offset of the declaration. -/
structure NameSite where
  name : String
  pos : Nat
  deriving Repr, DecidableEq, Inhabited

/-- Whether the declared names belong to the block around them and not to the body. -/
def DeclKind.isBlockScoped : DeclKind → Bool
  | .var => false
  | .let => true
  | .const => true

/-- The names that a list of declarations introduces into the body around it. -/
def DeclList.vars : DeclList → List NameSite
  | .mk _ kind ds =>
    if kind.isBlockScoped then [] else ds.map fun
      | .mk span name _ => ⟨name.text, span.pos⟩

/-- The names that the head of a loop introduces into the body around it. -/
def ForInit.vars : ForInit → List NameSite
  | .decls l => l.vars
  | _ => []

mutual

/-- The `var` names of a statement, in order. -/
def Stmt.vars : Stmt → List NameSite
  | .declaration _ l => l.vars
  | .block b => b.vars
  | .ifElse _ _ y n => y.vars ++ varsOfStmt? n
  | .doWhile _ b _ => b.vars
  | .whileDo _ _ b => b.vars
  | .forLoop _ i _ _ b => i.vars ++ b.vars
  | .forIn _ i _ b => i.vars ++ b.vars
  | .switchOn _ _ cs => varsOfClauses cs
  | .labeled _ _ b => b.vars
  | .tryCatch _ b h f => b.vars ++ h.vars ++ varsOfBlock? f
  | .function _ _ _ _ => []
  | .empty _ => []
  | .expression _ _ => []
  | .continueTo _ _ => []
  | .breakTo _ _ => []
  | .returnWith _ _ => []
  | .throwing _ _ => []
  | .debugger _ => []
termination_by structural t => t

/-- The `var` names of statements, in order. -/
def varsOfStmts : List Stmt → List NameSite
  | [] => []
  | s :: ss => s.vars ++ varsOfStmts ss
termination_by structural t => t

/-- The `var` names of a statement, if there is one. -/
def varsOfStmt? : Option Stmt → List NameSite
  | none => []
  | some s => s.vars
termination_by structural t => t

/-- The `var` names of a block. -/
def Block.vars : Block → List NameSite
  | .mk _ ss => varsOfStmts ss
termination_by structural t => t

/-- The `var` names of a block, if there is one. -/
def varsOfBlock? : Option Block → List NameSite
  | none => []
  | some b => b.vars
termination_by structural t => t

/-- The `var` names of clauses. -/
def varsOfClauses : List Clause → List NameSite
  | [] => []
  | .mk _ _ ss :: cs => varsOfStmts ss ++ varsOfClauses cs
termination_by structural t => t

/-- The `var` names of a handler. -/
def Handler.vars : Handler → List NameSite
  | .none => []
  | .catching _ _ b => b.vars
termination_by structural t => t

end

/-- The functions that statements declare directly. -/
def declaredFunctions (ss : List Stmt) : List NameSite :=
  ss.filterMap fun
    | .function span name _ _ => some ⟨name.text, span.pos⟩
    | _ => none

end Script
end Countersign
