/-
# Instantiating type parameters

Substitution puts arguments in the place of type parameters. A parameter is a bare name that does
not mean a built-in class; of a repeated parameter the first counts, and one without an argument
stays as it is. Renamed classes are left alone.

Key definitions: `Ty.substitute`.
-/
import Countersign.Ty.Basic

namespace Countersign
namespace Ty

/-- The argument for the parameter `name`, if it is one and has one. -/
def argument? (params : List String) (args : List Ty) (name : String) : Option Ty :=
  (params.zip args).lookup name

mutual

/-- The type with `args` in the place of `params`. -/
def substitute (params : List String) (args : List Ty) : Ty → Ty
  | .named c => if c.builtin then .named c else (argument? params args c.name).getD (.named c)
  | .value v => .value v
  | .renamed n s => .renamed n s
  | .function ps r t =>
    .function (substituteParams params args ps) (substitute params args r)
      (substituteReceiver params args t)
  | .object fs => .object (substituteFields params args fs)
  | .union ms => .union (substituteAll params args ms)
  | .intersection ms => .intersection (substituteAll params args ms)
  | .generic b as => .generic (substitute params args b) (substituteAll params args as)
  | .tuple is => .tuple (substituteAll params args is)
  | .moduleExports t => .moduleExports (substitute params args t)
termination_by structural t => t

/-- Substitution in each type of a list. -/
def substituteAll (params : List String) (args : List Ty) : List Ty → List Ty
  | [] => []
  | t :: ts => substitute params args t :: substituteAll params args ts
termination_by structural t => t

/-- Substitution in a receiver. -/
def substituteReceiver (params : List String) (args : List Ty) : Option Ty → Option Ty
  | none => none
  | some t => some (substitute params args t)
termination_by structural t => t

/-- Substitution in the types of parameters. -/
def substituteParams (params : List String) (args : List Ty) :
    List (Option String × Ty) → List (Option String × Ty)
  | [] => []
  | (n, t) :: ps => (n, substitute params args t) :: substituteParams params args ps
termination_by structural t => t

/-- Substitution in the types of fields. -/
def substituteFields (params : List String) (args : List Ty) :
    List (String × Ty) → List (String × Ty)
  | [] => []
  | (n, t) :: fs => (n, substitute params args t) :: substituteFields params args fs
termination_by structural t => t

end

end Ty
end Countersign
