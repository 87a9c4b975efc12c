/-
# Checking functions against their types

The type that is declared for a function decides how it is checked. A function without one is
reported and its body checked for what it does by itself; so is one whose type is not a function's.
A function of an open type is not reported. One that takes another number of parameters than
declared is reported and not looked into. All others are checked parameter by parameter, and what
they return against the declared result.

Key definitions: `FunctionHead`, `FunctionPlan`, `planFunction`, `Session.enterFunction`,
`Session.leaveFunction`.
-/
import Countersign.Verify.Hoist

namespace Countersign
namespace Verify

open Script (Param Stmt)

/-- A function without its body; `name` is what it is called in diagnostics. -/
structure FunctionHead where
  name : String
  pos : Nat
  params : List Param
  deriving Inhabited

/-- How a function is checked. -/
structure FunctionPlan where
  /-- What is wrong with the function as a whole. -/
  errors : List Diagnostic
  /-- Whether its body is looked into. -/
  visits : Bool
  receiver : Option Ty := none
  params : List Ty := []
  /-- What it has to return, if that is checked. -/
  result : Option Ty := none
  /-- The type by which the function is known afterwards. -/
  type : Ty
  deriving Inhabited

/-- The plan for a function, given its declared type. -/
def planFunction (env : Env) (line : Nat) (head : FunctionHead) : Option Ty → FunctionPlan
  | none =>
    { errors := [{ kind := .untypedFunctionFound, line := line, funcName := some head.name }]
      visits := true, type := .ofName "Function" }
  | some declared =>
    let resolved := env.resolve declared
    if resolved.isAny || resolved.isBuiltin "Function" then
      { errors := [], visits := true, type := declared }
    else
      match resolved.asFunction? with
      | none =>
        { errors :=
            [{ kind := .typeClassMismatch, line := line, expected := some declared.className,
               actual := some "Function" }]
          visits := true, type := .ofName "Function" }
      | some signature =>
        let wanted := signature.arity
        let found := head.params.length
        if found == wanted then
          { errors := [], visits := true, receiver := signature.receiver.map env.resolve
            params := signature.params.map (·.2), result := some signature.result
            type := declared }
        else
          { errors :=
              [{ kind := if found > wanted then .tooManyFunctionArgs else .tooFewFunctionArgs
                 line := line, funcName := some head.name, expectedArgs := some wanted
                 actualArgs := some found }]
            visits := false, type := declared }

/-- The frame of a function's body. -/
def FunctionPlan.frame (plan : FunctionPlan) (head : FunctionHead) : Frame :=
  ⟨head.name, head.pos, plan.result⟩

/-- A function that has to return something may end without. -/
def missingReturn (name : String) (result : Ty) (line : Nat) : Diagnostic :=
  { kind := .missingReturnStatement, line := line, funcName := some name,
    expected := some result.className, actual := some "void" }

namespace Session

/-- Binds parameters to their types in order; those without one are `Any`. -/
def declareParams (ctx : Context) (s : Session) : List Param → List Ty → Session
  | [], _ => s
  | p :: ps, ts =>
    (s.declare ⟨p.name.text, ts.headD .any, ctx.line p.span.pos⟩).declareParams ctx ps ts.tail

/-- Enters the body of a function: its scope, its parameters and its hoisted names. `ctx` is the
context of the body. -/
def enterFunction (ctx : Context) (s : Session) (head : FunctionHead) (plan : FunctionPlan)
    (body : List Stmt) : Session :=
  ((s.enter (.ofFunction plan.receiver)).declareParams ctx head.params plan.params).hoist ctx body

/-- Leaves the body of a function; one that may reach the end of its body must be allowed to
return nothing. -/
def leaveFunction (ctx : Context) (s : Session) (head : FunctionHead) (plan : FunctionPlan)
    (body : List Stmt) : Session :=
  let s := s.leave
  match plan.result with
  | none => s
  | some result =>
    let s := { s with checked := s.checked ++ [⟨head.name, head.pos, result, body⟩] }
    let falls := (ctx.summary.functionAt? head.pos).any (·.completion == .fallsThrough)
    if falls && !(s.env.resolve result).admitsUndefined then
      s.report (missingReturn head.name result (ctx.line head.pos))
    else s

end Session
end Verify
end Countersign
