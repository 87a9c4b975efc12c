/-
# The state of a verification

A verification walks through a program once. What it needs and does not change while it is in one
function body is its `Context`; what it changes is its `Session`: the environment, the diagnostics
in the order in which they are found, what has been exported so far, and which functions and
constructors have been dealt with.

Key definitions: `ExportPolicy`, `Context`, `CheckedFunction`, `Session`, `Checking`, `mismatch?`.
-/
import Countersign.Diagnostic
import Countersign.Subtype
import Countersign.Summary.Findings

namespace Countersign

/-- Which assignments to exports and prototypes are let pass. -/
structure ExportPolicy where
  /-- The module's exports may be assigned more than once. -/
  allowReassignment : Bool := false
  /-- A prototype may be given fields after its constructor was exported. -/
  allowPrototypeAfterExport : Bool := true
  deriving Repr, DecidableEq, Inhabited

namespace Verify

/-- The name of a function that has none. -/
def anonymous : String := "(anonymous)"

/-- The function whose body is being checked; its returns are not checked if it has no result. -/
structure Frame where
  name : String
  pos : Nat
  result : Option Ty
  deriving Inhabited

/-- What stays the same throughout a function body. A context is handed down to the parts of a
program and never back, so a body cannot change the frame of the code around it. -/
structure Context where
  lines : LineMap
  policy : ExportPolicy
  summary : Summary
  /-- The type that the header declares for what the module exports. -/
  declared : Option Ty
  /-- The innermost function, if the code is in one. -/
  frame : Option Frame

/-- The line of an offset. -/
def Context.line (ctx : Context) (pos : Nat) : Nat := ctx.lines.lineNumber pos

/-- A function whose body was checked against a declared result. -/
structure CheckedFunction where
  name : String
  pos : Nat
  result : Ty
  body : List Script.Stmt
  deriving Inhabited

/-- What a verification has found so far. -/
structure Session where
  env : Env
  /-- The diagnostics in the order in which they were found. -/
  errors : List Diagnostic := []
  /-- The type that the module's exports were given first. -/
  exported : Option Ty := none
  /-- The exported properties, each in the place of its first export with its last type. -/
  properties : List (String × Ty) := []
  /-- The offsets of declared functions that had no type when their names were hoisted. -/
  untyped : List Nat := []
  /-- The constructors that were exported. -/
  exportedCtors : List String := []
  /-- The constructors whose fields were checked. -/
  completedCtors : List String := []
  /-- The constructors whose fields are checked when they are exported, or else at the end. -/
  pendingCtors : List (String × Nat) := []
  /-- The functions that were checked against a declared result, in the order in which their bodies
  were left. -/
  checked : List CheckedFunction := []
  deriving Inhabited

/-- An action on the session. -/
abbrev Checking := StateM Session

/-- The verdict on a value of type `actual` where `expected` is wanted, as a diagnostic if it does
not fit; `described` stands for the value. A comparison that is still undecided at
`Env.comparisonDepth` counts as a mismatch of the value as a whole. That happens only where names
have parameters and can be expanded without end: such a comparison has no verdict of its own. -/
def mismatch? (env : Env) (described : String) (actual expected : Ty) (line : Nat) :
    Option Diagnostic :=
  let here : Diagnostic :=
    { kind := .typeClassMismatch, line := line, expected := some expected.className,
      actual := some described }
  match env.isSubtype actual expected with
  | .fits => none
  | .differs m =>
    some (if m.path.isEmpty then here else { here with fieldName := some (".".intercalate m.path) })
  | .undecided => some here

namespace Session

/-- The session with one more diagnostic. -/
def report (s : Session) (d : Diagnostic) : Session := { s with errors := s.errors ++ [d] }

/-- The session with more diagnostics. -/
def reportAll (s : Session) (ds : List Diagnostic) : Session := { s with errors := s.errors ++ ds }

/-- The type of a name, if it is known. -/
def typeOf? (s : Session) (name : String) : Option Ty := (s.env.lookup? name).map (·.type)

/-- Enters a scope. -/
def enter (s : Session) (scope : Scope) : Session := { s with env := s.env.push scope }

/-- Leaves the innermost scope. -/
def leave (s : Session) : Session := { s with env := s.env.pop }

/-- Binds a name in the innermost scope, unless it has another type there. -/
def declare (s : Session) (b : Binding) : Session :=
  match s.env.declare b with
  | .ok env => { s with env := env }
  | .error _ => s

/-- Binds a name in the body around, unless it has another type there. -/
def declareVar (s : Session) (b : Binding) : Session :=
  match s.env.declareVar b with
  | .ok env => { s with env := env }
  | .error _ => s

/-- Gives a known name another type. -/
def rebind (s : Session) (name : String) (t : Ty) : Session :=
  match s.env.rebind? name t with
  | some env => { s with env := env }
  | none => s

end Session

/-- Reports a diagnostic. -/
def report (d : Diagnostic) : Checking Unit := modify (·.report d)

/-- Reports diagnostics in order. -/
def reportAll (ds : List Diagnostic) : Checking Unit := modify (·.reportAll ds)

/-- The type that the header gives a name of the module itself; names inside functions have none. -/
def Context.headerType? (ctx : Context) (env : Env) (name : String) : Option Ty :=
  match ctx.frame with
  | none => (env.lookupIn? .header name).map (·.type)
  | some _ => none

/-- The declared type of the exports, as long as nothing has been exported. -/
def Context.unassignedExport? (ctx : Context) (s : Session) : Option Ty :=
  if s.exported.isSome || !s.properties.isEmpty then none else ctx.declared

/-- The exports are declared but not assigned. -/
def missingExport (declared : Ty) (line : Nat) : Diagnostic :=
  { kind := .missingModuleExport, line := line, expected := some declared.className,
    actual := some "undefined" }

end Verify
end Countersign
