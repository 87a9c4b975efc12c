/-
# Types of the signature language

A type is a class named or renamed, a literal value, a function, an object, a union, an
intersection, a generic class applied to arguments, a tuple, or the wrapper that marks what a
module exports. Types are finite trees: a recursive type names itself and is unfolded on demand.

Two types are the same when their trees are, except that the fields of an object may stand in any
order (`Ty.same`).

Key definitions: `Ty`, `Ty.same`, `Ty.unionOf`, `Ty.intersectionOf`, `Ty.widen`,
`Ty.admitsUndefined`.
-/

namespace Countersign

/-- The classes every signature knows without declaring them. -/
def builtinClasses : List String :=
  ["String", "Number", "Boolean", "Object", "Array", "Function", "Error", "RegExp", "Date", "void",
    "Any"]

/-- Whether `name` is a built-in class. -/
def isBuiltinClass (name : String) : Bool := builtinClasses.contains name

/-- A class by name, and whether that name means the built-in class. -/
structure ClassName where
  name : String
  builtin : Bool
  deriving Repr, DecidableEq, Inhabited

namespace ClassName

/-- The class a bare name means. -/
def resolve (name : String) : ClassName := ⟨name, isBuiltinClass name⟩

/-- A class that is not built in, whatever its name. -/
def user (name : String) : ClassName := ⟨name, false⟩

/-- Whether this is the built-in class `name`. -/
def isBuiltin (c : ClassName) (name : String) : Bool := c.builtin && c.name == name

end ClassName

/-- The six kinds of literal value. -/
inductive ValueKind where
  | string
  | number
  | null
  | undefined
  | trueWord
  | falseWord
  deriving Repr, DecidableEq, Inhabited

namespace ValueKind

/-- The word for the kind; for the last four it is also the spelling of the value. -/
def word : ValueKind → String
  | string => "string"
  | number => "number"
  | null => "null"
  | undefined => "undefined"
  | trueWord => "true"
  | falseWord => "false"

/-- The class that values of the kind widen to. -/
def className : ValueKind → String
  | string => "String"
  | number => "Number"
  | trueWord => "Boolean"
  | falseWord => "Boolean"
  | null => "null"
  | undefined => "undefined"

end ValueKind

/-- A literal value as written; a string keeps its quotes. -/
structure Value where
  text : String
  kind : ValueKind
  deriving Repr, DecidableEq, Inhabited

/-- The class a value widens to. -/
def Value.widen (v : Value) : ClassName := .resolve v.kind.className

/-- A type of the signature language. -/
inductive Ty where
  /-- A class by name: `String`, `Channel`. -/
  | named (cls : ClassName)
  /-- A literal value: `"a"`, `42`, `null`. -/
  | value (v : Value)
  /-- A class under another name: `Channel as C`. -/
  | renamed (name source : ClassName)
  /-- A function, with the type of its receiver if it declares one: `(this: T, a: A) => R`. -/
  | function (params : List (Option String × Ty)) (result : Ty) (receiver : Option Ty)
  /-- An object with its fields in the order written: `{ a: A, b: B }`. -/
  | object (fields : List (String × Ty))
  | union (members : List Ty)
  | intersection (members : List Ty)
  /-- A generic class and its arguments: `Array<String>`. -/
  | generic (base : Ty) (args : List Ty)
  | tuple (items : List Ty)
  /-- What a module exports. -/
  | moduleExports (value : Ty)
  deriving Inhabited

/-- A function type taken apart. -/
structure FunctionTy where
  params : List (Option String × Ty)
  result : Ty
  receiver : Option Ty
  deriving Inhabited

/-- The number of positional parameters; the receiver is not one. -/
def FunctionTy.arity (f : FunctionTy) : Nat := f.params.length

namespace Ty

/-- The class that a bare name means, as a type. -/
def ofName (name : String) : Ty := .named (.resolve name)

/-- The union of `members`; a single member stands for itself. -/
def unionOf : List Ty → Ty
  | [t] => t
  | members => .union members

/-- The intersection of `members`; a single member stands for itself. -/
def intersectionOf : List Ty → Ty
  | [t] => t
  | members => .intersection members

/-- The fields with `name` bound to `t`: a field that is already there keeps its place. -/
def setField (fields : List (String × Ty)) (name : String) (t : Ty) : List (String × Ty) :=
  if fields.any (·.1 == name) then
    fields.map fun f => if f.1 == name then (name, t) else f
  else
    fields ++ [(name, t)]

/-- The object with these fields; of a repeated name the first place and the last type count. -/
def objectOf (fields : List (String × Ty)) : Ty :=
  .object (fields.foldl (fun acc f => setField acc f.1 f.2) [])

/-- The type accepted everywhere and accepting everything. -/
def any : Ty := .named ⟨"Any", true⟩

/-- The type of a call that returns nothing. -/
def void : Ty := .named ⟨"void", true⟩

/-- The name of a class, renamed or not. -/
def literalName : Ty → Option String
  | .named c => some c.name
  | .renamed n _ => some n.name
  | _ => none

/-- Whether this is the built-in class `name`. -/
def isBuiltin (name : String) : Ty → Bool
  | .named c => c.isBuiltin name
  | _ => false

/-- Whether this is the built-in class `Any`. -/
def isAny (t : Ty) : Bool := t.isBuiltin "Any"

/-- Whether this is the built-in class `void`. -/
def isVoid (t : Ty) : Bool := t.isBuiltin "void"

mutual

/-- Whether `undefined` is a value of the type, as far as its own tree tells. -/
def admitsUndefined : Ty → Bool
  | .named c => c.isBuiltin "Any" || c.isBuiltin "void"
  | .value v => v.kind == .undefined
  | .union ms => anyAdmitsUndefined ms
  | .moduleExports t => admitsUndefined t
  | _ => false
termination_by structural t => t

/-- Whether `undefined` is a value of one of the types. -/
def anyAdmitsUndefined : List Ty → Bool
  | [] => false
  | t :: ts => admitsUndefined t || anyAdmitsUndefined ts
termination_by structural t => t

end

/-- The parts of a function type; the exports wrapper is looked through. -/
def asFunction? : Ty → Option FunctionTy
  | .function ps r t => some ⟨ps, r, t⟩
  | .moduleExports t => t.asFunction?
  | _ => none

/-- The fields of an object type; the exports wrapper is looked through. -/
def asObject? : Ty → Option (List (String × Ty))
  | .object fs => some fs
  | .moduleExports t => t.asObject?
  | _ => none

/-- A literal value widens to its class; any other type is as wide as it gets. -/
def widen : Ty → Ty
  | .value v => .named v.widen
  | t => t

mutual

/-- Equality of types; the fields of an object may stand in any order. -/
def same : Ty → Ty → Bool
  | .named c, .named d => c == d
  | .value v, .value w => v == w
  | .renamed n s, .renamed n' s' => n == n' && s == s'
  | .function ps r t, .function ps' r' t' => sameParams ps ps' && same r r' && sameReceiver t t'
  | .object fs, .object fs' => fs.length == fs'.length && sameFields fs fs'
  | .union ms, .union ms' => sameAll ms ms'
  | .intersection ms, .intersection ms' => sameAll ms ms'
  | .generic b as, .generic b' as' => same b b' && sameAll as as'
  | .tuple is, .tuple is' => sameAll is is'
  | .moduleExports t, .moduleExports t' => same t t'
  | _, _ => false
termination_by structural t => t

/-- The two lists hold the same types in the same order. -/
def sameAll : List Ty → List Ty → Bool
  | [], [] => true
  | t :: ts, u :: us => same t u && sameAll ts us
  | _, _ => false
termination_by structural t => t

/-- Both functions declare the same receiver, or neither declares one. -/
def sameReceiver : Option Ty → Option Ty → Bool
  | none, none => true
  | some t, some u => same t u
  | _, _ => false
termination_by structural t => t

/-- The two lists hold the same parameters, names included. -/
def sameParams : List (Option String × Ty) → List (Option String × Ty) → Bool
  | [], [] => true
  | (n, t) :: ps, (m, u) :: qs => n == m && same t u && sameParams ps qs
  | _, _ => false
termination_by structural t => t

/-- Every field of the first list is in the second, with the same type. -/
def sameFields : List (String × Ty) → List (String × Ty) → Bool
  | [], _ => true
  | (n, t) :: fs, gs =>
    (match gs.lookup n with
      | some u => same t u
      | none => false) && sameFields fs gs
termination_by structural t => t

end

instance : BEq Ty := ⟨same⟩

mutual

/-- The number of nodes of the tree. -/
def size : Ty → Nat
  | .named _ => 1
  | .value _ => 1
  | .renamed _ _ => 1
  | .function ps r t => 1 + sizeParams ps + size r + sizeReceiver t
  | .object fs => 1 + sizeFields fs
  | .union ms => 1 + sizeAll ms
  | .intersection ms => 1 + sizeAll ms
  | .generic b as => 1 + size b + sizeAll as
  | .tuple is => 1 + sizeAll is
  | .moduleExports t => 1 + size t
termination_by structural t => t

/-- The nodes of all the types together. -/
def sizeAll : List Ty → Nat
  | [] => 0
  | t :: ts => size t + sizeAll ts
termination_by structural t => t

/-- The nodes of a receiver, if there is one. -/
def sizeReceiver : Option Ty → Nat
  | none => 0
  | some t => size t
termination_by structural t => t

/-- The nodes of all the parameters together. -/
def sizeParams : List (Option String × Ty) → Nat
  | [] => 0
  | (_, t) :: ps => size t + sizeParams ps
termination_by structural t => t

/-- The nodes of all the fields together. -/
def sizeFields : List (String × Ty) → Nat
  | [] => 0
  | (_, t) :: fs => size t + sizeFields fs
termination_by structural t => t

end

end Ty
end Countersign
