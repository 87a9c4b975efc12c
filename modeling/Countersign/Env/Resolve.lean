/-
# Resolving names

A name stands for the type it was given, a renamed class for what its first name stands for, a
generic application for the body of its alias with the arguments put in, and the exports wrapper
for what it wraps. Resolution takes such steps until none applies, and gives up after
`resolutionLimit` of them, because names may lead back to themselves.

Key definitions: `Env.step?`, `Env.resolve`, `Env.settled`, `Env.instanceType?`.
-/
import Countersign.Env.Basic
import Countersign.Ty.Substitute

namespace Countersign
namespace Env

/-- The type of a name that has no parameters. -/
def plainAlias? (env : Env) (name : String) : Option Ty :=
  (env.alias? name).bind fun a => if a.params.isEmpty then some a.type else none

/-- The alias that a generic application instantiates: the one its base names, if it has as many
parameters as there are arguments. -/
def genericAlias? (env : Env) (base : Ty) (args : List Ty) : Option Alias :=
  (base.literalName.bind env.alias?).bind fun a =>
    if a.params.length == args.length then some a else none

/-- One step of resolution, if one applies to the outermost node. -/
def step? (env : Env) : Ty → Option Ty
  | .named c => if c.builtin then none else env.plainAlias? c.name
  | .renamed _ s => env.plainAlias? s.name
  | .generic b as => (env.genericAlias? b as).map fun a => a.type.substitute a.params as
  | .moduleExports t => some t
  | _ => none

/-- At most `limit` steps of resolution. -/
def resolveWithin (env : Env) : Nat → Ty → Ty
  | 0, t => t
  | limit + 1, t =>
    match env.step? t with
    | none => t
    | some u => env.resolveWithin limit u

/-- How many steps a resolution may take. -/
def resolutionLimit : Nat := 64

/-- What a type stands for. -/
def resolve (env : Env) (t : Ty) : Ty := env.resolveWithin resolutionLimit t

/-- Whether instantiating `body` leads into the arguments (`some false`), to a part of `body`
itself (`some true`) or to a type that is neither but newly made (`none`). -/
def sharedPart (params : List String) : Ty → Option Bool
  | .named c => some (c.builtin || !params.contains c.name)
  | .value _ => some true
  | .renamed _ _ => some true
  | _ => none

/-- Whether a step leads to a part of what the table of names holds, given whether it starts from
one: a name leads there, an instance does only where nothing had to be made for it. -/
def stepIsStored (env : Env) (stored : Bool) : Ty → Bool
  | .named _ => true
  | .renamed _ _ => true
  | .generic b as =>
    match (env.genericAlias? b as).bind fun a => sharedPart a.params a.type with
    | some true => true
    | some false => stored
    | none => false
  | .moduleExports _ => stored
  | _ => false

/-- Whether `limit` steps from `t` never come to an end and lead back to `target`, as a part of
what the table of names holds. -/
def circles (env : Env) (target : Ty) : Nat → Bool → Ty → Bool
  | 0, stored, t => stored && t == target
  | limit + 1, stored, t =>
    match env.step? t with
    | none => false
    | some u => env.circles target limit (env.stepIsStored stored t) u

/-- Whether resolution leaves a type where it is: no step applies to it, or its names lead in a
circle that ends where it began. -/
def settled (env : Env) (t : Ty) : Bool :=
  (env.step? t).isNone || env.circles t resolutionLimit false t

/-- The type of the objects that `ctor` constructs: what the receiver in its declared type stands
for, or else the type that is named like it. -/
def instanceType? (env : Env) (ctor : String) : Option Ty :=
  match ((env.lookup? ctor).bind (·.type.asFunction?)).bind (·.receiver) with
  | some t => some (env.resolve t)
  | none => env.plainAlias? ctor

end Env
end Countersign
