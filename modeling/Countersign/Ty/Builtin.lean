/-
# Built-in values

The values every program finds defined, with their types, in the order in which they are listed.

Key definitions: `builtinGlobals`, `builtinClass?`.
-/
import Countersign.Ty.Basic

namespace Countersign

/-- The built-in class `name` as a type. -/
def builtinClass? (name : String) : Option Ty :=
  if isBuiltinClass name then some (.named ⟨name, true⟩) else none

/-- A function of unnamed parameters without a receiver. -/
private def plainFunction (params : List Ty) (result : Ty) : Ty :=
  .function (params.map fun t => (none, t)) result none

/-- The global values, in order: the module's own names, the host's open-ended objects, typed
functions, constants, and the built-in classes, which can be called as constructors. -/
def builtinGlobals : List (String × Ty) :=
  [("module", .object [("exports", .any)]),
    ("exports", .any),
    ("require", plainFunction [.ofName "String"] .any)] ++
  (["console", "process", "Math", "Buffer", "setTimeout", "setInterval", "parseInt", "global",
    "arguments"].map fun n => (n, .any)) ++
  [("JSON", .object [("parse", plainFunction [.ofName "String"] .any),
      ("stringify", plainFunction [.any] (.ofName "String"))]),
    ("clearTimeout", plainFunction [.any] .void),
    ("clearInterval", plainFunction [.any] .void),
    ("parseFloat", plainFunction [.ofName "String"] (.ofName "Number")),
    ("isNaN", plainFunction [.any] (.ofName "Boolean")),
    ("undefined", .value ⟨"undefined", .undefined⟩),
    ("NaN", .ofName "Number"),
    ("Infinity", .ofName "Number")] ++
  ((builtinClasses.filter fun n => n != "void" && n != "Any").map fun n => (n, .any))

/-- The type of the global value `name`. -/
def builtinGlobal? (name : String) : Option Ty := builtinGlobals.lookup name

end Countersign
