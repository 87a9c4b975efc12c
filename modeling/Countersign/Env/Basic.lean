/-
# Environments

An environment is a stack of scopes over the scope of the globals, which is never taken off, and a
table of named types.

Key definitions: `Env`, `Env.push`, `Env.pop?`, `Env.declare`, `Env.declareVar`, `Env.rebind?`,
`Env.lookup?`, `Env.defineAlias`.
-/
import Countersign.Env.Scope
import Countersign.Ty.Builtin

namespace Countersign

/-- A named type, perhaps with parameters. -/
structure Alias where
  params : List String
  type : Ty
  deriving Inhabited

instance : BEq Alias := ⟨fun a b => a.params == b.params && a.type == b.type⟩

/-- The scopes in force, innermost first, the outermost scope below them, and the named types. -/
structure Env where
  inner : List Scope
  bottom : Scope
  aliases : List (String × Alias)
  deriving Inhabited

namespace Env

/-- Only the built-in values are known. -/
def initial : Env where
  inner := []
  bottom :=
    { kind := .global, receiver := none, bindings := builtinGlobals.map fun (n, t) => ⟨n, t, 0⟩ }
  aliases := []

/-- All scopes, innermost first. -/
def scopes (env : Env) : List Scope := env.inner ++ [env.bottom]

/-- The innermost scope. -/
def current (env : Env) : Scope := env.inner.headD env.bottom

/-- Enters a scope. -/
def push (env : Env) (s : Scope) : Env := { env with inner := s :: env.inner }

/-- Leaves the innermost scope; the outermost one cannot be left. -/
def pop? (env : Env) : Option (Scope × Env) :=
  match env.inner with
  | [] => none
  | s :: rest => some (s, { env with inner := rest })

/-- The environment after leaving the innermost scope, if it can be left. -/
def pop (env : Env) : Env :=
  match env.pop? with
  | none => env
  | some (_, env) => env

/-- Changes the first scope that satisfies `p` by `f`, unless `f` fails. -/
def modifyFirst {ε : Type} (p : Scope → Bool) (f : Scope → Except ε Scope) :
    List Scope → Option (Except ε (List Scope))
  | [] => none
  | s :: rest =>
    if p s then some ((f s).map (· :: rest))
    else (modifyFirst p f rest).map (·.map (s :: ·))

/-- Changes the innermost scope that satisfies `p` by `f`, or the outermost scope if none does. -/
def modifyScope {ε : Type} (env : Env) (p : Scope → Bool) (f : Scope → Except ε Scope) :
    Except ε Env :=
  match modifyFirst p f env.inner with
  | some (.ok inner) => .ok { env with inner := inner }
  | some (.error e) => .error e
  | none => (f env.bottom).map fun bottom => { env with bottom := bottom }

/-- Binds a name in the innermost scope. -/
def declare (env : Env) (b : Binding) : Except Binding Env :=
  env.modifyScope (fun _ => true) (·.declare b)

/-- Binds a name in the innermost scope that is not a block's. -/
def declareVar (env : Env) (b : Binding) : Except Binding Env :=
  env.modifyScope (·.kind != .block) (·.declare b)

/-- The binding of `name` in the innermost scope that has one. -/
def lookup? (env : Env) (name : String) : Option Binding := env.scopes.findSome? (·.get? name)

/-- The binding of `name` in the innermost scope. -/
def lookupLocal? (env : Env) (name : String) : Option Binding := env.current.get? name

/-- The binding of `name` in the innermost scope of this kind. -/
def lookupIn? (env : Env) (kind : ScopeKind) (name : String) : Option Binding :=
  (env.scopes.find? (·.kind == kind)).bind (·.get? name)

/-- Gives `name` a new type in the first scope that binds it; the line stays. -/
def retypeFirst (name : String) (t : Ty) : List Scope → Option (List Scope)
  | [] => none
  | s :: rest =>
    match s.get? name with
    | some b => some (s.set { b with type := t } :: rest)
    | none => (retypeFirst name t rest).map (s :: ·)

/-- Gives `name` a new type where it is bound, if it is. -/
def rebind? (env : Env) (name : String) (t : Ty) : Option Env :=
  match retypeFirst name t env.inner with
  | some inner => some { env with inner := inner }
  | none =>
    (env.bottom.get? name).map fun b =>
      { env with bottom := env.bottom.set { b with type := t } }

/-- The receiver's type in the innermost function. -/
def receiver? (env : Env) : Option Ty :=
  (env.scopes.find? (·.kind == .function)).bind (·.receiver)

/-- The named type `name`. -/
def alias? (env : Env) (name : String) : Option Alias := env.aliases.lookup name

/-- Names a type, unless the name means another one already. -/
def defineAlias (env : Env) (name : String) (a : Alias) : Except Alias Env :=
  match env.alias? name with
  | none => .ok { env with aliases := env.aliases ++ [(name, a)] }
  | some old => if old == a then .ok env else .error old

end Env
end Countersign
