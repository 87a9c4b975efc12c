/-
# Headers

A header is a list of statements about a module: types it takes from other headers, types it
names, values it declares, and the type of what it exports.

* `import { Channel, Options as Opts } from "./channel"`
* `type Callback<T> : (err: Error | null, value: T) => void`
* `BatchClient : (this: BatchClient, channel: Channel) => void`
* `export default BatchClient`

Key definitions: `Header`, `HeaderStatement`, `Header.exportedType?`, `Header.exportedAlias?`.
-/
import Countersign.Ty.Basic

namespace Countersign

/-- A name taken from another header, perhaps under another name here. -/
structure ImportName where
  name : String
  newName : Option String
  deriving Repr, DecidableEq, Inhabited

/-- The name by which the import is known here. -/
def ImportName.localName (n : ImportName) : String := n.newName.getD n.name

/-- Names taken from the header at a path: `import { A, B as C } from "./path"`. -/
structure ImportStatement where
  names : List ImportName
  path : String
  line : Nat
  deriving Repr, DecidableEq, Inhabited

/-- A named type, perhaps with parameters: `type Name<P, Q> : T`. -/
structure AliasStatement where
  name : String
  params : List String
  type : Ty
  line : Nat
  deriving Inhabited

/-- The type of what the module exports: `export default T`. -/
structure ExportStatement where
  type : Ty
  line : Nat
  deriving Inhabited

/-- A declared value: `name : T`. -/
structure ValueStatement where
  name : String
  type : Ty
  line : Nat
  deriving Inhabited

/-- A statement of a header. -/
inductive HeaderStatement where
  | importNames (s : ImportStatement)
  | typeAlias (s : AliasStatement)
  | exportDefault (s : ExportStatement)
  | value (s : ValueStatement)
  deriving Inhabited

/-- The line of the statement's first token. -/
def HeaderStatement.line : HeaderStatement → Nat
  | importNames s => s.line
  | typeAlias s => s.line
  | exportDefault s => s.line
  | value s => s.line

/-- The statements of a header in the order written. -/
structure Header where
  statements : List HeaderStatement
  deriving Inhabited

namespace Header

/-- The header without statements. -/
def empty : Header := ⟨[]⟩

/-- Whether there are no statements. -/
def isEmpty (h : Header) : Bool := h.statements.isEmpty

/-- The statements of `h` and then those of `k`. -/
def append (h k : Header) : Header := ⟨h.statements ++ k.statements⟩

/-- The import statements in order. -/
def imports (h : Header) : List ImportStatement :=
  h.statements.filterMap fun
    | .importNames s => some s
    | _ => none

/-- The named types in order. -/
def aliases (h : Header) : List AliasStatement :=
  h.statements.filterMap fun
    | .typeAlias s => some s
    | _ => none

/-- The declared values in order. -/
def values (h : Header) : List ValueStatement :=
  h.statements.filterMap fun
    | .value s => some s
    | _ => none

/-- The last export statement counts. -/
def exportDefault? (h : Header) : Option ExportStatement :=
  (h.statements.filterMap fun
    | .exportDefault s => some s
    | _ => none).getLast?

/-- The type that `name` exports: that of a named type without parameters, or else of a declared
value; the first of that name counts. -/
def exportedType? (h : Header) (name : String) : Option Ty :=
  match h.aliases.find? fun a => a.name == name && a.params.isEmpty with
  | some a => some a.type
  | none => (h.values.find? (·.name == name)).map (·.type)

/-- The parameters and the type that another header takes when it imports `name`: those of a named
type, or else a declared value's, which has no parameters. -/
def exportedAlias? (h : Header) (name : String) : Option (List String × Ty) :=
  match h.aliases.find? (·.name == name) with
  | some a => some (a.params, a.type)
  | none => (h.exportedType? name).map fun t => ([], t)

end Header
end Countersign
