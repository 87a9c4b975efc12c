/-
# Reports

The results of several files, as lines of text or as one JSON document, and the exit code that sums
them up.

Key definitions: `Diagnostic.toJson`, `Outcome.members`, `Tally`, `jsonReport`, `textReport`.
-/
import Countersign.Json.Value
import Countersign.Project.Load

namespace Countersign

open JsonValue (text nat record)

/-- A diagnostic as a JSON object; fields that it does not have are left out. -/
def Diagnostic.toJson (d : Diagnostic) : JsonValue :=
  let optional {α : Type} (key : String) (f : α → JsonValue) (a : Option α) :=
    (a.map fun a => (key, f a)).toList
  record
    ([("type", text d.kind.code), ("message", text d.message), ("line", nat d.line)] ++
      optional "funcName" text d.funcName ++
      optional "fieldName" text d.fieldName ++
      optional "objName" text d.objName ++
      optional "expected" text d.expected ++
      optional "actual" text d.actual ++
      optional "expectedArgs" nat d.expectedArgs ++
      optional "actualArgs" nat d.actualArgs ++
      optional "otherField" text d.otherField ++
      optional "name" text d.name)

/-- The members that tell an outcome in JSON. -/
def Outcome.members (o : Outcome) : List (String × JsonValue) :=
  ("errors", .array (o.errors.map Diagnostic.toJson)) ::
    (o.exportsType.map fun t => ("moduleExportsType", text t.source)).toList

/-- How many diagnostics there are, and how many files could not be checked. -/
structure Tally where
  diagnostics : Nat
  failures : Nat
  deriving Repr, DecidableEq, Inhabited

namespace Tally

/-- The tally of results. -/
def ofResults : List FileResult → Tally
  | [] => ⟨0, 0⟩
  | r :: rs =>
    let t := ofResults rs
    match r.result with
    | .ok o => { t with diagnostics := o.errors.length + t.diagnostics }
    | .error _ => { t with failures := 1 + t.failures }

/-- One if a file could not be checked, else two if there are diagnostics, else zero. -/
def exitCode (t : Tally) : Nat :=
  if t.failures > 0 then 1 else if t.diagnostics > 0 then 2 else 0

end Tally

/-- The results as a JSON document: files that were checked, and files that could not be. -/
def jsonReport (rs : List FileResult) : JsonValue :=
  let checked := rs.filterMap fun r =>
    match r.result with
    | .ok o => some (record (("file", text r.file.text) :: o.members))
    | .error _ => none
  let failed := rs.filterMap fun r =>
    match r.result with
    | .ok _ => none
    | .error e => some (record [("file", text r.file.text), ("message", text e.message)])
  record [("files", .array checked), ("failures", .array failed)]

/-- A failure on a line. -/
def errorLine (message : String) : String := "error: " ++ message ++ "\n"

/-- A diagnostic on a line. -/
def diagnosticLine (file : Path) (d : Diagnostic) : String :=
  file.text ++ ":" ++ Nat.repr d.line ++ ": " ++ d.kind.code ++ " " ++ d.message ++ "\n"

/-- The result of a file in lines. -/
def FileResult.lines (r : FileResult) : String :=
  match r.result with
  | .ok o => String.join (o.errors.map (diagnosticLine r.file))
  | .error e => errorLine e.message

/-- The number of diagnostics, if there are any. -/
def summaryLine (t : Tally) : String :=
  if t.diagnostics == 0 then ""
  else
    "\nFound " ++ Nat.repr t.diagnostics ++ " error" ++ (if t.diagnostics == 1 then "" else "s") ++
      ".\n"

/-- The results in lines. -/
def textReport (rs : List FileResult) : String :=
  String.join (rs.map (·.lines)) ++ summaryLine (.ofResults rs)

end Countersign
