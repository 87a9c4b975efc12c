/-
# Project files

A project file is a JSON object that names the programs to check and sets options. Every entry may
be left out or null. An entry of an unknown name is passed over, except among the options, where it
is an error; so is an entry given twice. In place of an object there may be an array with all its
entries in order.

Key definitions: `Config`, `Config.parse?`, `Config.load`, `Settings`, `Config.settings`.
-/
import Countersign.Files.Tree
import Countersign.Json.Reader
import Countersign.Verify.Session

namespace Countersign

/-- The options of a project, as far as they are set. -/
structure VerifyOptions where
  allowPrototypeAfterExport : Option Bool
  allowExportReassignment : Option Bool
  headerExtension : Option String
  deriving Repr, DecidableEq, Inhabited

/-- A project: the programs by name, or where to look for them and what to pass over, and the
options. -/
structure Config where
  files : Option (List String)
  included : Option (List String)
  excluded : Option (List String)
  verify : Option VerifyOptions
  deriving Repr, DecidableEq, Inhabited

/-- How programs are checked. -/
structure Settings where
  policy : ExportPolicy := {}
  /-- The extension of headers, without its dot. -/
  headerExtension : String := "hjs"
  deriving Repr, DecidableEq, Inhabited

namespace Config

/-- The project that sets nothing. -/
def empty : Config := ⟨none, none, none, none⟩

/-- Whether a prototype may be given fields after its constructor was exported. -/
def allowPrototypeAfterExport (c : Config) : Bool :=
  (c.verify.bind (·.allowPrototypeAfterExport)).getD true

/-- Whether the exports may be assigned more than once. -/
def allowExportReassignment (c : Config) : Bool :=
  (c.verify.bind (·.allowExportReassignment)).getD false

/-- The extension of headers; dots before it do not count. -/
def headerExtension (c : Config) : String :=
  match c.verify.bind (·.headerExtension) with
  | some ext => String.ofList (ext.toList.dropWhile (· == '.'))
  | none => ({} : Settings).headerExtension

/-- The settings of a project. -/
def settings (c : Config) : Settings where
  policy :=
    { allowReassignment := c.allowExportReassignment
      allowPrototypeAfterExport := c.allowPrototypeAfterExport }
  headerExtension := c.headerExtension

/-! ### Reading -/

/-- The entries of an object, or of an array in its place, in the order of `names`. Every member
has a name that is a text, known names stand once, and unknown names are refused if `strict`. -/
def entries? (names : List String) (strict : Bool) : JsonValue → Option (List (Option JsonValue))
  | .object members =>
    let known (name : String) := members.filter (·.1 == some name)
    if members.any (·.1.isNone) || names.any fun n => (known n).length > 1 then none
    else if strict && members.any fun m => !names.contains (m.1.getD "") then none
    else some (names.map fun n => (known n).head?.map (·.2))
  | .array items => if items.length == names.length then some (items.map some) else none
  | _ => none

/-- An entry that may be left out or null. -/
def optional {α : Type} (read : JsonValue → Option α) : Option JsonValue → Option (Option α)
  | none => some none
  | some .null => some none
  | some v => (read v).map some

/-- A string. -/
def string? : JsonValue → Option String
  | .string s => s
  | _ => none

/-- A truth value. -/
def bool? : JsonValue → Option Bool
  | .bool b => some b
  | _ => none

/-- An array of strings. -/
def strings? : JsonValue → Option (List String)
  | .array items => items.mapM string?
  | _ => none

/-- The options of a project. -/
def options? (v : JsonValue) : Option VerifyOptions := do
  match ← entries?
    ["allowPrototypeAfterExport", "allowExportReassignment", "headerExtension"] true v with
  | [p, r, e] => return ⟨← optional bool? p, ← optional bool? r, ← optional string? e⟩
  | _ => none

/-- A project. -/
def ofJson? (v : JsonValue) : Option Config := do
  match ← entries? ["files", "include", "exclude", "verify"] false v with
  | [f, i, e, o] =>
    return ⟨← optional strings? f, ← optional strings? i, ← optional strings? e,
      ← optional options? o⟩
  | _ => none

/-- Reads the text of a project file. -/
def parse? (text : String) : Option Config := (JsonValue.parse? text).bind ofJson?

end Config

/-- Why a project cannot be loaded. -/
inductive ConfigError where
  | unreadable (path : Path) (e : ReadError)
  | malformed
  deriving Repr, DecidableEq, Inhabited

/-- The reason in words. -/
def ConfigError.message : ConfigError → String
  | unreadable path e => "cannot read " ++ path.text ++ ": " ++ e.message
  | malformed => "invalid project file"

/-- The project in the file at a path. -/
def Config.load (tree : FileTree) (path : Path) : Except ConfigError Config :=
  match tree.readText path with
  | .error e => .error (.unreadable path e)
  | .ok text =>
    match Config.parse? text with
    | some c => .ok c
    | none => .error .malformed

end Countersign
