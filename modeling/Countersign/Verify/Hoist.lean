/-
# Hoisting

Before a list of statements is checked, the names that it declares for the whole of its body are
bound. A `var` of the module takes the type that the header gives it, any other starts as `Any`. A
declared function that is not known yet is bound as `Function` and noted as untyped.

Key definitions: `Session.hoist`, `Session.enterBlock`.
-/
import Countersign.Script.Vars
import Countersign.Verify.Session

namespace Countersign
namespace Verify

open Script (NameSite Stmt)

namespace Session

/-- Binds a hoisted variable; a name that is bound already, such as a parameter, stays. -/
def hoistVar (ctx : Context) (s : Session) (site : NameSite) : Session :=
  s.declareVar
    ⟨site.name, (ctx.headerType? s.env site.name).getD .any, ctx.line site.pos⟩

/-- Binds a declared function whose name is not known, and notes that it has no type. -/
def hoistFunction (ctx : Context) (s : Session) (site : NameSite) : Session :=
  match s.env.lookup? site.name with
  | some _ => s
  | none =>
    let s := s.declareVar ⟨site.name, .ofName "Function", ctx.line site.pos⟩
    { s with untyped := s.untyped ++ [site.pos] }

/-- Binds what statements declare for the body around them. -/
def hoist (ctx : Context) (s : Session) (ss : List Stmt) : Session :=
  (Script.declaredFunctions ss).foldl (hoistFunction ctx)
    ((Script.varsOfStmts ss).foldl (hoistVar ctx) s)

/-- Enters the scope of a block with these statements. -/
def enterBlock (ctx : Context) (s : Session) (ss : List Stmt) : Session :=
  (s.enter (.ofKind .block)).hoist ctx ss

end Session
end Verify
end Countersign
