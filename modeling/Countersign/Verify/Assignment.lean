/-
# Assignments

What is assigned to decides what is demanded of the value and what the assignment does: a name, a
field of an object, a field of a prototype, the exports of the module or one property of them.

Key definitions: `Target`, `Target.demand`, `Target.complete`, `Session.declareResult`,
`returnDemand`, `returnErrors`.
-/
import Countersign.Verify.Constructor
import Countersign.Verify.Function
import Countersign.Verify.Value

namespace Countersign
namespace Verify

open Script (DeclKind Decl DeclList ForInit)

/-- What is assigned to. -/
inductive Target where
  | name (text : String)
  | exports
  | exportProperty (name : String)
  | prototypeField (ctor field : String)
  /-- A field of an object of a type; `text` stands for the object in diagnostics. -/
  | field (object : Ty) (text field : String)
  | other
  deriving Inhabited

/-- The demand on the value of a field, given the fields that there are. -/
def fieldDemand (fields : Option (List (String × Ty))) (text field : String) (line : Nat) :
    Checking Demand :=
  match fields with
  | none => pure .loose
  | some fs =>
    match fs.lookup field with
    | some t => pure (.fit t field)
    | none => do
      report (missingMember text field line)
      pure .loose

/-- The demand on a value that is assigned to a prototype. -/
def prototypeDemand (ctx : Context) (ctor field : String) (line : Nat) : Checking Demand := do
  let s ← get
  if (s.env.lookup? ctor).isNone then report (unknownName ctor line)
  if !ctx.policy.allowPrototypeAfterExport && s.exportedCtors.contains ctor then
    report
      { kind := .prototypeAssignmentAfterExport, line := line, fieldName := some field
        funcName := some ctor }
  match s.env.instanceType? ctor with
  | none => pure .free
  | some instanceType => fieldDemand instanceType.asObject? (ctor ++ ".prototype") field line

/-- The demand on a value that is exported as a property: the field of the declared exports if
they are an object, or else what the header declares by that name. -/
def exportPropertyDemand (ctx : Context) (name : String) (line : Nat) : Checking Demand := do
  let env := (← get).env
  match (ctx.declared.map env.resolve).bind (·.asObject?) with
  | some fs =>
    match fs.lookup name with
    | some t => pure (.fit t name)
    | none => do
      report (missingMember "module.exports" name line)
      pure (.fit .any name)
  | none =>
    match env.lookupIn? .header name with
    | some b => pure (.fit b.type name)
    | none => pure .derived

namespace Target

/-- What is demanded of the value, after what is wrong with the target was reported. -/
def demand (ctx : Context) (line : Nat) : Target → Checking Demand
  | name text => do
    match (← get).typeOf? text with
    | none => do
      report (unknownName text line)
      pure .loose
    | some t => pure (if t.isAny then .free else .fit t text)
  | exports =>
    pure (match ctx.declared with
      | some t => .fit t "module.exports"
      | none => .derived)
  | exportProperty key => exportPropertyDemand ctx key line
  | prototypeField ctor key => prototypeDemand ctx ctor key line
  | field object text key => do
    fieldDemand ((← get).env.resolve object).asObject? text key line
  | other => pure .loose

end Target

namespace Session

/-- Records that the exports of the module were given a type. Only the first time counts; another
time is reported unless it is allowed. -/
def assignExports (ctx : Context) (s : Session) (t : Ty) (line : Nat) : Session :=
  match s.exported with
  | none => { s with exported := some (.moduleExports t) }
  | some previous =>
    if ctx.policy.allowReassignment then s
    else
      s.report
        { kind := .reassigningModuleExports, line := line
          expected := some previous.className, actual := some t.className }

/-- Notes the export of a value that is a plain name. -/
def noteValue (ctx : Context) (s : Session) (valueName : Option String) (line : Nat) : Session :=
  match valueName with
  | none => s
  | some name => s.noteExport ctx name line

end Session

/-- What an assignment of a value of type `t` does; `valueName` is its name if it is a plain
name. -/
def Target.complete (ctx : Context) (valueName : Option String) (t : Ty) (line : Nat) :
    Target → Session → Session
  | exports, s => (s.assignExports ctx t line).noteValue ctx valueName line
  | exportProperty key, s =>
    { s with properties := Ty.setField s.properties key t }.noteValue ctx valueName line
  | _, s => s

namespace Session

/-- Binds a declared variable, in the block or in the body around it. -/
def declareAs (s : Session) (kind : DeclKind) (b : Binding) : Except Binding Env :=
  if kind.isBlockScoped then s.env.declare b else s.env.declareVar b

/-- Binds a variable that has been given a type. One that was bound as `Any` takes the type; one
that has another type must have been given one that fits it. -/
def bindVariable (s : Session) (kind : DeclKind) (b : Binding) : Session :=
  match s.declareAs kind b with
  | .ok env => { s with env := env }
  | .error old =>
    if old.type.isAny then s.rebind b.name b.type
    else
      s.reportAll
        (mismatch? s.env (b.name ++ ": " ++ b.type.className) b.type old.type b.line).toList

/-- Binds a declared variable, given the type of its first value if it has one, or else the type
that the header declares. A variable without either is bound as `Any` in its block, unless it was
hoisted. -/
def declareResult (s : Session) (kind : DeclKind) (name : String) (line : Nat)
    (type : Option Ty) : Session :=
  match type with
  | some t => s.bindVariable kind ⟨name, t, line⟩
  | none =>
    if (s.env.lookupLocal? name).isSome || !kind.isBlockScoped then s
    else s.bindVariable kind ⟨name, .any, line⟩

/-- Binds the variable of a loop over the keys of an object. -/
def declareKey (ctx : Context) (kind : DeclKind) (s : Session) : Decl → Session
  | .mk span name _ =>
    let key := Ty.ofName "String"
    match s.declareAs kind ⟨name.text, key, ctx.line span.pos⟩ with
    | .ok env => { s with env := env }
    | .error _ => s.rebind name.text key

/-- Binds the variables of a loop over the keys of an object. -/
def declareKeys (ctx : Context) (s : Session) : DeclList → Session
  | .mk _ kind ds => ds.foldl (declareKey ctx kind) s

end Session

/-- The demand on the value of a variable declaration. -/
def initialDemand (declared : Option Ty) (name : String) : Demand :=
  match declared with
  | some t => .fit t name
  | none => .derived

/-- The demand on a value that is returned. -/
def returnDemand (ctx : Context) (env : Env) : Demand :=
  match ctx.frame with
  | none => .free
  | some frame =>
    match frame.result with
    | none => .loose
    | some result => if (env.resolve result).isVoid then .free else .fit result anonymous

/-- What is wrong with a return statement, given the type of its value if it has one. -/
def returnErrors (ctx : Context) (env : Env) (pos : Nat) (given : Option Ty) : List Diagnostic :=
  match ctx.frame with
  | none => []
  | some frame =>
    match frame.result with
    | none => []
    | some result =>
      let resolved := env.resolve result
      match given with
      | some actual =>
        if resolved.isVoid && !actual.admitsUndefined then
          [{ kind := .nonVoidReturnType, line := ctx.line pos, funcName := some frame.name
             expected := some "void", actual := some actual.className }]
        else []
      | none =>
        let site := (ctx.summary.functionAt? frame.pos).bind (·.returns.find? (·.pos == pos))
        if (site.all (·.reachable)) && !resolved.admitsUndefined then
          [missingReturn frame.name result (ctx.line pos)]
        else []

end Verify
end Countersign
