/-
# Summaries of programs

What a program implements, whatever its header says: its functions, what they read and write of
their receiver, where they return, which prototypes are given which fields, and what is exported.

Key definitions: `FunctionSummary`, `Summary`, `Summary.functionAt?`, `Summary.declarationOf?`.
-/

namespace Countersign

/-- Whether a function is declared by a statement or given by an expression. -/
inductive FunctionKind where
  | declaration
  | expression
  deriving Repr, DecidableEq, Inhabited

/-- How control leaves the body of a function. -/
inductive Completion where
  /-- It never reaches the end, and may return. -/
  | returns
  /-- It neither reaches the end nor returns. -/
  | throws
  /-- It may reach the end. -/
  | fallsThrough
  deriving Repr, DecidableEq, Inhabited

/-- A field of the receiver that is read or written. -/
structure ThisAccess where
  field : String
  isWrite : Bool
  deriving Repr, DecidableEq, Inhabited

/-- A `return` statement, and whether control can get to it. -/
structure ReturnSite where
  pos : Nat
  line : Nat
  reachable : Bool
  deriving Repr, DecidableEq, Inhabited

/-- What a function does. -/
structure FunctionSummary where
  name : Option String
  kind : FunctionKind
  pos : Nat
  line : Nat
  paramCount : Nat
  accesses : List ThisAccess
  returns : List ReturnSite
  completion : Completion
  deriving Repr, DecidableEq, Inhabited

/-- Whether the function assigns to a field of its receiver. -/
def FunctionSummary.writes (f : FunctionSummary) (field : String) : Bool :=
  f.accesses.any fun a => a.isWrite && a.field == field

/-- An assignment to a field of the prototype of `ctor`. -/
structure PrototypeAssignment where
  ctor : String
  field : String
  line : Nat
  deriving Repr, DecidableEq, Inhabited

/-- What an export assigns to: everything that the module exports, or one property of it. -/
inductive ExportTarget where
  | module
  | property (name : String)
  deriving Repr, DecidableEq, Inhabited

/-- An assignment that exports something; `valueName` is its name if it is a plain name. -/
structure ExportAssignment where
  target : ExportTarget
  valueName : Option String
  line : Nat
  deriving Repr, DecidableEq, Inhabited

/-- What a program implements, everything in the order of the text. -/
structure Summary where
  functions : List FunctionSummary
  prototypes : List PrototypeAssignment
  exports : List ExportAssignment
  deriving Repr, DecidableEq, Inhabited

namespace Summary

/-- The function that starts at an offset. -/
def functionAt? (s : Summary) (pos : Nat) : Option FunctionSummary :=
  s.functions.find? (·.pos == pos)

/-- The first declared function of a name. -/
def declarationOf? (s : Summary) (name : String) : Option FunctionSummary :=
  s.functions.find? fun f => f.kind == .declaration && f.name == some name

/-- The assignments to the prototype of `ctor`. -/
def prototypesOf (s : Summary) (ctor : String) : List PrototypeAssignment :=
  s.prototypes.filter (·.ctor == ctor)

/-- The first assignment that exports the name. -/
def exportOf? (s : Summary) (name : String) : Option ExportAssignment :=
  s.exports.find? (·.valueName == some name)

end Summary
end Countersign
