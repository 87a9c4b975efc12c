/-
# Scopes

A scope binds names to types. Scopes nest: the globals are outermost, then come the header, the
module, its functions and their blocks. A function's scope also knows the type of its receiver.

Key definitions: `Binding`, `Scope`, `Scope.get?`, `Scope.set`, `Scope.declare`.
-/
import Countersign.Ty.Basic

namespace Countersign

/-- What a scope belongs to. -/
inductive ScopeKind where
  | global
  | header
  | module
  | function
  | block
  deriving Repr, DecidableEq, Inhabited

/-- A name with its type and the line that declares it, which is zero for built-in names. -/
structure Binding where
  name : String
  type : Ty
  line : Nat
  deriving Inhabited

/-- One level of nesting: its names, each bound once, and the receiver's type in a function. -/
structure Scope where
  kind : ScopeKind
  receiver : Option Ty
  bindings : List Binding
  deriving Inhabited

namespace Scope

/-- A scope without names. -/
def ofKind (kind : ScopeKind) : Scope := ⟨kind, none, []⟩

/-- The scope of a function, without names. -/
def ofFunction (receiver : Option Ty) : Scope := ⟨.function, receiver, []⟩

/-- The binding of `name`. -/
def get? (s : Scope) (name : String) : Option Binding := s.bindings.find? (·.name == name)

/-- Whether `name` is bound. -/
def has (s : Scope) (name : String) : Bool := (s.get? name).isSome

/-- The number of names. -/
def size (s : Scope) : Nat := s.bindings.length

/-- The scope with `b` in the place of any binding of the same name. -/
def set (s : Scope) (b : Binding) : Scope :=
  if s.has b.name then
    { s with bindings := s.bindings.map fun c => if c.name == b.name then b else c }
  else
    { s with bindings := s.bindings ++ [b] }

/-- Binds a name that is free, or bound to the same type already; otherwise gives the binding that
is in the way. -/
def declare (s : Scope) (b : Binding) : Except Binding Scope :=
  match s.get? b.name with
  | none => .ok (s.set b)
  | some old => if old.type == b.type then .ok s else .error old

end Scope
end Countersign
