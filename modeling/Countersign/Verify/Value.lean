/-
# Types of values

Where a value stands, something may be known of its type. A `Hint` says what, and by which name a
function that has none is called there; it guides how the value is looked at. A `Demand` says what
the value must meet.

Key definitions: `Hint`, `Demand`, `Demand.settle`, `Env.join`, `memberType`.
-/
import Countersign.Verify.Session

namespace Countersign
namespace Verify

open Script (Expr StringLit TokenKind)

/-- What is known of a value before it is looked at. -/
structure Hint where
  type : Option Ty := none
  name : String := anonymous
  deriving Inhabited

namespace Hint

/-- Nothing is known. -/
def free : Hint := {}

/-- The value may be anything. -/
def loose : Hint := { type := some .any }

/-- The same type for a value that is part of the one at hand. -/
def part (h : Hint) : Hint := { type := h.type }

end Hint

/-- What a value has to meet. -/
inductive Demand where
  /-- Nothing is asked. -/
  | free
  /-- Anything will do. -/
  | loose
  /-- The class of the value is to be recorded. -/
  | derived
  /-- The value has to fit the type; a function without a name is called `name`. -/
  | fit (type : Ty) (name : String)
  deriving Inhabited

namespace Demand

/-- What a demand says about the value. -/
def hint : Demand → Hint
  | free => .free
  | .loose => .loose
  | derived => .free
  | fit t name => ⟨some t, name⟩

end Demand

/-- Whether an expression is a function, looking through parentheses. -/
def isFunction (e : Expr) : Bool :=
  match e.skipParens with
  | .function _ _ _ _ => true
  | _ => false

/-- A value in diagnostics: its class, after its name if it is a plain name. -/
def describe (e : Expr) (actual : Ty) : String :=
  match e.identText? with
  | some name => name ++ ": " ++ actual.className
  | none => actual.className

/-- Compares the type of a value with what is demanded and gives the type that counts from then
on. A function has met the demand while it was looked at. -/
def Demand.settle (d : Demand) (e : Expr) (actual : Ty) (line : Nat) : Checking Ty :=
  match d with
  | free => pure actual
  | .loose => pure actual
  | derived => pure actual.widen
  | fit expected _ => do
    if !isFunction e then
      reportAll (mismatch? (← get).env (describe e actual) actual expected line).toList
    pure expected

/-- An expression in diagnostics, if it stands for an object or a function. -/
def outline : Expr → String
  | .ident i => i.text
  | .this _ => "this"
  | .member _ o n => outline o ++ "." ++ n.text
  | .index _ o _ => outline o ++ "[]"
  | .call _ c _ => outline c ++ "()"
  | .paren _ e => outline e
  | .function _ _ _ _ => "function"
  | _ => "(expression)"

/-- The type of a string literal; it keeps its quotes. -/
def stringType (s : StringLit) : Ty :=
  let quote := if s.single then "'" else "\""
  .value ⟨quote ++ s.text ++ quote, .string⟩

/-- The type of `undefined`. -/
def undefinedType : Ty := .value ⟨"undefined", .undefined⟩

/-- The classes of several types, each kept once by its text, unless one of them is `Any`, which
stands for all. -/
def joinMembers : List Ty → List Ty → Ty
  | members, [] => .unionOf members
  | members, t :: ts =>
    let t := t.widen
    if t.isAny then t
    else if members.any (·.source == t.source) then joinMembers members ts
    else joinMembers (members ++ [t]) ts

/-- What several types have in common: their classes, or `Any` if one is. -/
def join (ts : List Ty) : Ty := joinMembers [] ts

/-- Whether a type is that of texts. -/
def isText (t : Ty) : Bool := t.widen.literalName == some "String"

/-- Whether the objects of a resolved type have a length. -/
def hasLength : Ty → Bool
  | .value v => v.kind == .string
  | .named c => c.isBuiltin "String" || c.isBuiltin "Array"
  | .generic b _ => b.literalName == some "Array"
  | .tuple _ => true
  | _ => false

/-- Something is asked of an object that its type does not have. -/
def missingMember (object field : String) (line : Nat) : Diagnostic :=
  { kind := .nonExistantField, line := line, fieldName := some field, objName := some object }

/-- A name is not known. -/
def unknownName (name : String) (line : Nat) : Diagnostic :=
  { kind := .unknownIdentifier, line := line, name := some name }

/-- The type of a field of an object that is described by `text` and has type `object`. -/
def memberType (object : Ty) (text field : String) (line : Nat) : Checking Ty := do
  let env := (← get).env
  match env.resolve object with
  | .object fs =>
    match fs.lookup field with
    | some t => pure t
    | none => do
      report (missingMember text field line)
      pure .any
  | .intersection ms =>
    pure ((ms.findSome? fun m => (env.resolve m).asObject?.bind (·.lookup field)).getD .any)
  | t => pure (if field == "length" && hasLength t then .ofName "Number" else .any)

/-- The type of a name, which is reported if it is not known. -/
def nameType (name : String) (line : Nat) : Checking Ty := do
  match (← get).typeOf? name with
  | some t => pure t
  | none => do
    report (unknownName name line)
    pure .any

/-- What is known of the elements of an array literal: of each by its place, and of all others. -/
structure ElementHints where
  items : List Ty
  rest : Option Ty
  /-- Whether the literal is a tuple. -/
  isTuple : Bool
  deriving Inhabited

/-- The elements of an array that is wanted with a type: a tuple's one by one, an array's all
alike. -/
def elementHints (env : Env) (expected : Option Ty) : ElementHints :=
  match expected.map env.resolve with
  | some (.tuple items) => ⟨items, none, true⟩
  | some (.generic b [t]) => ⟨[], if b.literalName == some "Array" then some t else none, false⟩
  | _ => ⟨[], none, false⟩

/-- The type of an array literal from those of its elements. -/
def ElementHints.arrayType (h : ElementHints) (expected : Option Ty) (types : List Ty) : Ty :=
  if h.isTuple then .tuple types
  else if types.isEmpty then expected.getD (.ofName "Array")
  else .generic (.ofName "Array") [join types]

/-- What is known of the property `key` of an object literal that is wanted with a type. -/
def propertyHint (env : Env) (expected : Option Ty) (key : String) : Hint :=
  let type :=
    match expected.map env.resolve with
    | none => none
    | some t =>
      match t.asObject? with
      | some fs => fs.lookup key
      | none => if t.isAny then some .any else none
  match type with
  | none => .free
  | some t => ⟨some t, key⟩

/-- How the type of an operation follows from its operands. -/
inductive OperatorRule where
  | assign
  /-- The value is one of the operands. -/
  | choice
  /-- The value is the right operand. -/
  | sequence
  | comparison
  | addition
  | arithmetic
  deriving Repr, DecidableEq, Inhabited

/-- The rule of an operator between two operands. -/
def operatorRule : TokenKind → OperatorRule
  | .mark .assign => .assign
  | .mark .ampAmp => .choice
  | .mark .barBar => .choice
  | .mark .comma => .sequence
  | .mark .eqEq => .comparison
  | .mark .notEq => .comparison
  | .mark .eqEqEq => .comparison
  | .mark .notEqEq => .comparison
  | .mark .less => .comparison
  | .mark .greater => .comparison
  | .mark .lessEq => .comparison
  | .mark .greaterEq => .comparison
  | .word .inWord => .comparison
  | .word .instanceofWord => .comparison
  | .mark .plus => .addition
  | .mark .plusAssign => .addition
  | _ => .arithmetic

/-- The type of a sum. -/
def sumType (left right : Ty) : Ty :=
  if isText left || isText right then .ofName "String"
  else if left.isAny || right.isAny then .any
  else .ofName "Number"

/-- How many arguments a call must have: all up to the last parameter that must be given. -/
def requiredArgs (signature : FunctionTy) : Nat :=
  (signature.params.reverse.dropWhile (·.2.admitsUndefined)).length

/-- The diagnostic for a call with a wrong number of arguments. -/
def callErrors (signature : Option FunctionTy) (callee : String) (found line : Nat) :
    List Diagnostic :=
  match signature with
  | none => []
  | some signature =>
    let wrong (kind : DiagnosticKind) : Diagnostic :=
      { kind := kind, line := line, funcName := some callee
        expectedArgs := some signature.arity, actualArgs := some found }
    if found > signature.arity then [wrong .tooManyArgsInCall]
    else if found < requiredArgs signature then [wrong .tooFewArgsInCall]
    else []

/-- The demand on an argument, given its parameter if there is one. -/
def argumentDemand : Option (Option String × Ty) → Demand
  | none => .loose
  | some (name, t) => .fit t (name.getD anonymous)

/-- The type of the objects that are constructed by a function, or by a built-in class. -/
def constructedType (signature : Option FunctionTy) (callee : Expr) : Ty :=
  match signature with
  | some signature => signature.receiver.getD .any
  | none =>
    match callee.identText? with
    | some name =>
      if isBuiltinClass name && name != "Any" && name != "void" then .ofName name else .any
    | none => .any

end Verify
end Countersign
