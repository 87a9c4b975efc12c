/-
# Writing types

The text of a type in the signature language. A member is put in parentheses wherever the grammar
would otherwise bind it differently, so reading the text gives the type back.

Key definitions: `Ty.source`, the text of a type, and `Ty.className`, its short name in messages.
-/
import Countersign.Ty.Basic

namespace Countersign
namespace Ty

/-- How tightly the outermost connective of a type binds: a function least, then unions, then
intersections; anything else needs no parentheses. -/
def rank : Ty → Nat
  | .function _ _ _ => 0
  | .union _ => 1
  | .intersection _ => 2
  | .moduleExports t => rank t
  | _ => 3

/-- The text of `t`, in parentheses if `t` binds less tightly than `least`. -/
def enclose (least : Nat) (t : Ty) (text : String) : String :=
  if t.rank < least then "(" ++ text ++ ")" else text

mutual

/-- The text of a type in the signature language. -/
def source : Ty → String
  | .named c => c.name
  | .value v => v.text
  | .renamed n s => s.name ++ " as " ++ n.name
  | .function ps r t =>
    "(" ++ ", ".intercalate (receiverSources t ++ paramSources ps) ++ ") => " ++ source r
  | .object [] => "\x7b\x7d"
  | .object (f :: fs) => "\x7b " ++ ", ".intercalate (fieldSources (f :: fs)) ++ " \x7d"
  | .union ms => " | ".intercalate (sources 2 ms)
  | .intersection ms => " & ".intercalate (sources 3 ms)
  | .generic b as => enclose 3 b (source b) ++ "<" ++ ", ".intercalate (sources 0 as) ++ ">"
  | .tuple is => "[" ++ ", ".intercalate (sources 0 is) ++ "]"
  | .moduleExports t => source t
termination_by structural t => t

/-- The texts of the types, each bound at least as tightly as `least`. -/
def sources (least : Nat) : List Ty → List String
  | [] => []
  | t :: ts => enclose least t (source t) :: sources least ts
termination_by structural t => t

/-- A declared receiver is written as a first parameter named `this`. -/
def receiverSources : Option Ty → List String
  | none => []
  | some t => ["this: " ++ source t]
termination_by structural t => t

/-- A named parameter is written with its name, an unnamed one as its type. -/
def paramSources : List (Option String × Ty) → List String
  | [] => []
  | (none, t) :: ps => source t :: paramSources ps
  | (some n, t) :: ps => (n ++ ": " ++ source t) :: paramSources ps
termination_by structural t => t

/-- Each field is written with its name as it stands. -/
def fieldSources : List (String × Ty) → List String
  | [] => []
  | (n, t) :: fs => (n ++ ": " ++ source t) :: fieldSources fs
termination_by structural t => t

end

/-- The short name of a type in messages: a value goes by its class, a renamed class by its new
name, and a structured type by its text. -/
def className : Ty → String
  | .named c => c.name
  | .renamed n _ => n.name
  | .value v => v.kind.className
  | .moduleExports t => t.className
  | t => t.source

end Ty
end Countersign
