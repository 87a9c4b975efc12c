/-
# Verifying a program

A program is checked against its header: the types it imports, the types it names, and the values
it declares make up the environment in which the program is walked through.

Key definitions: `ImportedType`, `Outcome`, `Session.ofHeader`, `checkModule`, `verify`.
-/
import Countersign.Header.Basic
import Countersign.Verify.Walk

namespace Countersign

/-- A type taken from another header: what it is called there and here, and what it is. -/
structure ImportedType where
  name : String
  localName : String
  params : List String
  type : Ty
  deriving Inhabited

/-- What a verification comes to: what is wrong, in order, and the type of what the module
exports. -/
structure Outcome where
  errors : List Diagnostic
  exportsType : Option Ty
  deriving Inhabited

namespace Outcome

/-- Nothing is wrong and something is exported. -/
def isClean (o : Outcome) : Bool := o.errors.isEmpty && o.exportsType.isSome

/-- The diagnostics of one kind. -/
def errorsOf (o : Outcome) (kind : DiagnosticKind) : List Diagnostic :=
  o.errors.filter (·.kind == kind)

end Outcome

namespace Env

/-- Names a type, unless the name means another one already. -/
def withAlias (env : Env) (name : String) (a : Alias) : Env :=
  match env.defineAlias name a with
  | .ok env => env
  | .error _ => env

/-- Names an imported type, by both its names if they differ. -/
def withImport (env : Env) (i : ImportedType) : Env :=
  let env := env.withAlias i.name ⟨i.params, i.type⟩
  if i.localName == i.name then env
  else env.withAlias i.localName ⟨[], .renamed (.user i.localName) (.resolve i.name)⟩

/-- Names the types of a header. -/
def withAliases (env : Env) (h : Header) : Env :=
  h.aliases.foldl (fun env a => env.withAlias a.name ⟨a.params, a.type⟩) env

end Env

namespace Verify

/-- Declares a value of a header; a second declaration must fit the first. -/
def Session.declareValue (s : Session) (v : ValueStatement) : Session :=
  match s.env.declare ⟨v.name, v.type, v.line⟩ with
  | .ok env => { s with env := env }
  | .error old => s.reportAll (mismatch? s.env v.name v.type old.type v.line).toList

/-- The session in which a program with this header starts. -/
def Session.ofHeader (header : Header) (imports : List ImportedType) : Session :=
  let env := imports.foldl Env.withImport (Env.initial.push (.ofKind .header))
  header.values.foldl Session.declareValue { env := env.withAliases header }

/-- The type that an export statement declares: if it is a name, the declared value of that name
comes first. -/
def exportType (env : Env) : Ty → Ty
  | .named c =>
    if c.builtin then .named c
    else ((env.lookupIn? .header c.name).map (·.type)).getD (.named c)
  | t => t

/-- The context in which the statements of a module are checked; `env` knows its header. -/
def moduleContext (script : Script) (lines : LineMap) (header : Header) (policy : ExportPolicy)
    (env : Env) : Context where
  lines := lines
  policy := policy
  summary := script.summarize lines
  declared := header.exportDefault?.map fun e => exportType env e.type
  frame := none

/-- The session after all statements of a module have been checked, in a scope of their own. -/
def checkModule (ctx : Context) (start : Session) (statements : List Script.Stmt) : Session :=
  ((Script.checkStmts ctx statements).run
    ((start.enter (.ofKind .module)).hoist ctx statements)).2

/-- What the module exports in the end: what was assigned to it, or else the exported properties
if there are any. -/
def exportsType (ctx : Context) (s : Session) : Option Ty :=
  match s.exported with
  | some t => some t
  | none =>
    if s.properties.isEmpty then none
    else some (.moduleExports (ctx.declared.getD (.object s.properties)))

/-- What is left to do at the end of the module; `exportLine` is where the exports are declared. -/
def finish (ctx : Context) (exportLine : Nat) (s : Session) : Outcome :=
  let s := s.checkPending ctx
  let missing := (ctx.unassignedExport? s).map (missingExport · exportLine)
  ⟨s.errors ++ missing.toList, exportsType ctx s⟩

end Verify

open Verify in
/-- Checks a program against its header. -/
def verify (script : Script) (lines : LineMap) (header : Header) (imports : List ImportedType)
    (policy : ExportPolicy) : Outcome :=
  let start := Session.ofHeader header imports
  let ctx := moduleContext script lines header policy start.env
  finish ctx ((header.exportDefault?.map (·.line)).getD 0) (checkModule ctx start script.statements)

end Countersign
