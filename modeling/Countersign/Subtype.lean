/-
# Structural subtyping

Whether a value of one type may be used where another type is expected. `Any` fits both ways,
values widen to their class, renamed classes are looked through, names are resolved, objects may
have more fields than wanted, and functions take their parameters the other way round. Nothing is
coerced.

Types may be recursive through names, so a comparison can come back to itself. A pair of resolved
types that is being compared is therefore assumed to fit while its comparison lasts. The
assumptions are threaded through every comparison: each one gets those in force and gives back
those in force after it.

Every rule takes as a parameter the comparison of the parts. `check` ties the knot: its number
bounds how deep comparisons may nest, and a comparison that would go deeper is left undecided.

Key definitions: `Mismatch`, `Comparison`, `Subtype.check`, `Env.isSubtype`.
-/
import Countersign.Env.Resolve
import Countersign.Ty.Source

namespace Countersign

/-- Why a type does not fit: the short names of both types, and the fields, parameters and
positions that lead to the parts that do not fit. -/
structure Mismatch where
  expected : String
  actual : String
  path : List String
  deriving Repr, DecidableEq, Inhabited

namespace Mismatch

/-- The types themselves do not fit. -/
def between (actual expected : Ty) : Mismatch := ⟨expected.className, actual.className, []⟩

/-- The mismatch is in the part `segment`. -/
def within (segment : String) (m : Mismatch) : Mismatch := { m with path := segment :: m.path }

/-- The same path between other types. -/
def relate (actual expected : Ty) (m : Mismatch) : Mismatch :=
  ⟨expected.className, actual.className, m.path⟩

end Mismatch

/-- What a comparison comes to. -/
inductive Verdict where
  | fits
  | differs (m : Mismatch)
  | undecided
  deriving Repr, DecidableEq, Inhabited

/-- Whether the types fit. -/
def Verdict.isFit : Verdict → Bool
  | .fits => true
  | _ => false

/-- The verdict with its mismatch changed. -/
def Verdict.mapMismatch (f : Mismatch → Mismatch) : Verdict → Verdict
  | .differs m => .differs (f m)
  | v => v

/-- The pairs of resolved types that are being compared, by their texts, innermost first. -/
abbrev Assumed := List (String × String)

/-- A comparison takes the assumptions in force and gives its verdict and those in force
afterwards. -/
abbrev Comparison := Assumed → Verdict × Assumed

namespace Comparison

/-- The types fit. -/
def fits : Comparison := fun given => (.fits, given)

/-- The types do not fit. -/
def differs (m : Mismatch) : Comparison := fun given => (.differs m, given)

/-- The comparison is not carried out. -/
def undecided : Comparison := fun given => (.undecided, given)

/-- The comparison with its mismatch changed. -/
def mapMismatch (f : Mismatch → Mismatch) (c : Comparison) : Comparison := fun given =>
  let (v, after) := c given
  (v.mapMismatch f, after)

/-- All comparisons in order, up to the first whose types do not fit. -/
def all : List Comparison → Comparison
  | [], given => (.fits, given)
  | c :: cs, given =>
    match c given with
    | (.fits, after) => all cs after
    | other => other

/-- The comparisons in order, up to the first whose types fit; `m` if there is none. -/
def any (m : Mismatch) : List Comparison → Comparison
  | [], given => (.differs m, given)
  | c :: cs, given =>
    match c given with
    | (.differs _, after) => any m cs after
    | other => other

/-- A comparison that may take its own outcome for granted under `key`: it fits if that is assumed
already, and otherwise assumes it for as long as it lasts. -/
def assuming (key : String × String) (c : Comparison) : Comparison := fun given =>
  if given.contains key then (.fits, given)
  else
    let (v, after) := c (key :: given)
    (v, after.erase key)

end Comparison

namespace Subtype

open Comparison

/-- Compares the types at equal positions of two lists, naming each position. -/
def pairwise (sub : Ty → Ty → Comparison) (segment : Nat → String) :
    Nat → List Ty → List Ty → List Comparison
  | i, t :: ts, u :: us =>
    (sub t u).mapMismatch (.within (segment i)) :: pairwise sub segment (i + 1) ts us
  | _, _, _ => []

/-- Each expected field must be there and fit. -/
def compareFields (sub : Ty → Ty → Comparison) (mismatch : Mismatch) (actual : List (String × Ty)) :
    List (String × Ty) → List Comparison
  | [] => []
  | (name, expected) :: rest =>
    (match actual.lookup name with
      | some t => (sub t expected).mapMismatch (.within name)
      | none => differs (mismatch.within name)) :: compareFields sub mismatch actual rest

/-- Parameters are compared the other way round; a parameter without a name goes by its
position. -/
def compareParams (sub : Ty → Ty → Comparison) :
    Nat → List (Option String × Ty) → List (Option String × Ty) → List Comparison
  | i, (_, a) :: as, (name, e) :: es =>
    (sub e a).mapMismatch (.within (name.getD s!"arg{i}")) :: compareParams sub (i + 1) as es
  | _, _, _ => []

/-- Receivers are compared the other way round, where both functions declare one. -/
def compareReceivers (sub : Ty → Ty → Comparison) : Option Ty → Option Ty → List Comparison
  | some a, some e => [(sub e a).mapMismatch (.within "this")]
  | _, _ => []

/-- A function expected to return nothing may return anything. -/
def compareResults (sub : Ty → Ty → Comparison) (actual expected : Ty) : List Comparison :=
  if expected.isVoid then [] else [(sub actual expected).mapMismatch (.within "return")]

/-- Functions fit if they take as many parameters, and receivers, parameters and results fit. -/
def compareFunctions (sub : Ty → Ty → Comparison) (mismatch : Mismatch)
    (actual expected : FunctionTy) : Comparison :=
  if actual.arity == expected.arity then
    all (compareReceivers sub actual.receiver expected.receiver ++
      compareParams sub 0 actual.params expected.params ++
      compareResults sub actual.result expected.result)
  else differs mismatch

/-- Whether both are the same built-in container, an array or a plain object. -/
def sameContainer (a b : Ty) : Bool :=
  (a.isBuiltin "Array" && b.isBuiltin "Array") || (a.isBuiltin "Object" && b.isBuiltin "Object")

/-- A structured type used as a class: an array takes tuples and arrays, a plain object takes
anything with parts, and a function takes functions. -/
def fitsClass : Ty → Ty → Bool
  | .generic b _, e => sameContainer b e || e.isBuiltin "Object"
  | .tuple _, e => e.isBuiltin "Array" || e.isBuiltin "Object"
  | .object _, e => e.isBuiltin "Object"
  | .function _ _ _, e => e.isBuiltin "Function"
  | _, _ => false

/-- The comparison of two types by their outermost nodes, when there is nothing left to look
through or to resolve. -/
def compareStructure (sub : Ty → Ty → Comparison) (actual expected : Ty) : Comparison :=
  let mismatch := Mismatch.between actual expected
  match actual, expected with
  | .object fs, .object gs => all (compareFields sub mismatch fs gs)
  | .function ps r t, .function qs s u =>
    (compareFunctions sub mismatch ⟨ps, r, t⟩ ⟨qs, s, u⟩).mapMismatch (.relate actual expected)
  | .generic b as, .generic c bs =>
    if b.literalName == c.literalName && as.length == bs.length then
      all (pairwise sub (fun i => s!"<{i}>") 0 as bs)
    else differs mismatch
  | .tuple ts, .tuple us =>
    if ts.length == us.length then all (pairwise sub (fun i => s!"[{i}]") 0 ts us)
    else differs mismatch
  | .tuple ts, .generic b args =>
    match b.isBuiltin "Array", args with
    | true, [item] => all (pairwise sub (fun i => s!"[{i}]") 0 ts (ts.map fun _ => item))
    | _, _ => differs mismatch
  | .named c, .generic b _ => if sameContainer (.named c) b then fits else differs mismatch
  | a, .named c => if fitsClass a (.named c) then fits else differs mismatch
  | _, _ => differs mismatch

/-- Names are resolved before types are compared by structure, and what they stand for is assumed
to fit while it is being compared. -/
def compareResolved (env : Env) (sub : Ty → Ty → Comparison) (actual expected : Ty) : Comparison :=
  if env.settled actual && env.settled expected then compareStructure sub actual expected
  else
    let a := env.resolve actual
    let e := env.resolve expected
    (assuming (a.source, e.source) (sub a e)).mapMismatch (.relate actual expected)

/-- One step of a comparison: what is looked through and taken apart, in order of precedence. -/
def compareStep (env : Env) (sub : Ty → Ty → Comparison) (actual expected : Ty) : Comparison :=
  if actual.isAny || expected.isAny then fits
  else
    let mismatch := Mismatch.between actual expected
    match actual, expected with
    | .moduleExports t, e => sub t e
    | a, .moduleExports t => sub a t
    | .value v, .value w => if v == w then fits else differs mismatch
    | .union ms, e => (all (ms.map (sub · e))).mapMismatch fun _ => mismatch
    | a, .union ms => any mismatch (ms.map (sub a ·))
    | a, .intersection ms => all (ms.map (sub a ·))
    | .intersection ms, e => any mismatch (ms.map (sub · e))
    | .value v, e =>
      if v.kind == .undefined && e.isVoid then fits
      else (sub (.named v.widen) e).mapMismatch fun _ => mismatch
    | .renamed _ s, e => (sub (.named s) e).mapMismatch fun _ => mismatch
    | a, .renamed _ s => (sub a (.named s)).mapMismatch fun _ => mismatch
    | .named c, .named d =>
      if c == d then fits else compareResolved env sub (.named c) (.named d)
    | a, e => compareResolved env sub a e

/-- Compares two types, nesting comparisons at most `depth` deep. -/
def check (env : Env) : Nat → Ty → Ty → Comparison
  | 0, _, _ => undecided
  | depth + 1, actual, expected => compareStep env (check env depth) actual expected

end Subtype

namespace Env

/-- The nodes of the types that `env` names. -/
def aliasSize (env : Env) : Nat :=
  env.aliases.foldl (fun nodes a => nodes + a.2.type.size + 1) 0

/-- A depth that no comparison of the two types exceeds where no name has parameters: between two
resolutions each comparison is of smaller types than the one it is part of, and no pair of
resolved types is compared inside its own comparison. -/
def comparisonDepth (env : Env) (actual expected : Ty) : Nat :=
  let nodes := 2 * (env.aliasSize + actual.size + expected.size) + 8
  (nodes * nodes + 1) * (2 * nodes)

/-- Whether a value of type `actual` may be used where `expected` is expected. -/
def isSubtype (env : Env) (actual expected : Ty) : Verdict :=
  (Subtype.check env (env.comparisonDepth actual expected) actual expected []).1

end Env
end Countersign
