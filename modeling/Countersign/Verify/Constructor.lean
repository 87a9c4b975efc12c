/-
# Constructors

A declared function is a constructor if its receiver's type carries its own name or if its
prototype is given fields. Every field that its objects must have is to be assigned in its body or
on its prototype. That is checked once for each constructor: when it is exported, or where it is
declared if it is never exported, or else at the end of the module.

Key definitions: `Context.isConstructor`, `Context.missingFields`, `Session.checkFields`.
-/
import Countersign.Verify.Session

namespace Countersign
namespace Verify

/-- Whether a field of this type may be left unassigned. -/
def isOptional : Ty → Bool
  | .value v => (Ty.value v).admitsUndefined
  | .union ms => (Ty.union ms).admitsUndefined
  | _ => false

namespace Context

/-- Whether `name` is a constructor. -/
def isConstructor (ctx : Context) (env : Env) (name : String) : Bool :=
  let receiver := ((env.lookup? name).bind (·.type.asFunction?)).bind (·.receiver)
  (ctx.summary.declarationOf? name).isSome &&
    (receiver.bind (·.literalName) == some name || !(ctx.summary.prototypesOf name).isEmpty)

/-- Whether the body of `ctor` or its prototype provides a field. -/
def provides (ctx : Context) (ctor field : String) : Bool :=
  (ctx.summary.declarationOf? ctor).any (·.writes field) ||
    (ctx.summary.prototypesOf ctor).any (·.field == field)

/-- The fields that the objects of `ctor` must have and that nothing provides. -/
def missingFields (ctx : Context) (env : Env) (ctor : String) : List String :=
  let fields := ((env.instanceType? ctor).bind (·.asObject?)).getD []
  (fields.filter fun f => !isOptional f.2 && !ctx.provides ctor f.1).map (·.1)

end Context

/-- A constructor leaves a field without a value. -/
def missingField (ctor field : String) (line : Nat) : Diagnostic :=
  { kind := .missingFieldInConstructor, line := line, fieldName := some field,
    otherField := some "no-field", funcName := some ctor }

namespace Session

/-- Checks the fields of a constructor, unless that was done before. -/
def checkFields (ctx : Context) (s : Session) (ctor : String) (line : Nat) : Session :=
  if s.completedCtors.contains ctor then s
  else
    { s with completedCtors := s.completedCtors ++ [ctor] }.reportAll
      ((ctx.missingFields s.env ctor).map (missingField ctor · line))

/-- Notes that `name` was exported. -/
def noteExport (ctx : Context) (s : Session) (name : String) (line : Nat) : Session :=
  if ctx.isConstructor s.env name then
    { s with exportedCtors := s.exportedCtors ++ [name] }.checkFields ctx name line
  else s

/-- Notes that the body of a declared function with a type was checked: the fields of a
constructor are due now, or wait for its export. -/
def noteDeclaration (ctx : Context) (s : Session) (name : String) (line : Nat) : Session :=
  if ctx.isConstructor s.env name && !s.completedCtors.contains name then
    if (ctx.summary.exportOf? name).isSome then
      { s with pendingCtors := s.pendingCtors ++ [(name, line)] }
    else s.checkFields ctx name line
  else s

/-- Checks the fields of the constructors that still wait. -/
def checkPending (ctx : Context) (s : Session) : Session :=
  s.pendingCtors.foldl (fun s c => s.checkFields ctx c.1 c.2) s

end Session
end Verify
end Countersign
