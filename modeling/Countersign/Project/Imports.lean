/-
# Headers of other modules

The header of a program stands beside it under the same name with another extension. A header that
takes types from other headers names them by paths as seen from its own directory. Imports go one
step: the names that an imported type mentions are not imported with it.

Key definitions: `companionPath`, `importPath`, `importNames`, `resolveImports`, `HeaderError`.
-/
import Countersign.Files.Tree
import Countersign.Header.Reader
import Countersign.Verify

namespace Countersign

/-- Why an import cannot be satisfied. -/
inductive HeaderError where
  | unreadable (path : Path) (e : ReadError)
  | malformed (path : Path) (e : SignatureError)
  | missingExport (path : Path) (name : String) (line : Nat)
  deriving Repr, DecidableEq, Inhabited

/-- The reason in words. -/
def HeaderError.message : HeaderError → String
  | unreadable path e => "cannot read header " ++ path.text ++ ": " ++ e.message
  | malformed path e => "invalid header " ++ path.text ++ ": " ++ e.message
  | missingExport path name line =>
    path.text ++ " does not export '" ++ name ++ "' (imported on line " ++ Nat.repr line ++ ")"

/-- The header that stands beside a program. -/
def companionPath (source : Path) (extension : String) : Path := source.withExtension extension

/-- The header that is meant by a path in an import, as seen from the directory `base`: the header
itself, the one beside a program, or the one that the extension completes. -/
def importPath (base : Path) (specifier extension : String) : Path :=
  let candidate := base.join ⟨specifier⟩
  let ending := candidate.extension?
  if ending == some extension then candidate
  else if ending == some "js" then candidate.withExtension extension
  else ⟨candidate.text ++ "." ++ extension⟩

/-- The type that an import names, out of the header at `path`. -/
def importName (path : Path) (exporting : Header) (line : Nat) (n : ImportName) :
    Except HeaderError ImportedType :=
  match exporting.exportedAlias? n.name with
  | some (params, type) => .ok ⟨n.name, n.localName, params, type⟩
  | none => .error (.missingExport path n.name line)

/-- The types that an import statement names, out of the header at `path`. -/
def importNames (i : ImportStatement) (exporting : Header) (path : Path) :
    Except HeaderError (List ImportedType) :=
  i.names.mapM (importName path exporting i.line)

/-- The header in the file at a path. -/
def loadHeader (tree : FileTree) (path : Path) : Except HeaderError Header :=
  match tree.readText path with
  | .error e => .error (.unreadable path e)
  | .ok text => (parseHeader text).mapError (.malformed path)

/-- The types that one import statement of a header in `base` takes from the file it names. -/
def resolveImport (tree : FileTree) (base : Path) (extension : String) (i : ImportStatement) :
    Except HeaderError (List ImportedType) := do
  let path := importPath base i.path extension
  importNames i (← loadHeader tree path) path

/-- The types that a header in `base` takes from others, in order; the first failure counts. -/
def resolveImports (tree : FileTree) (h : Header) (base : Path) (extension : String) :
    Except HeaderError (List ImportedType) :=
  List.flatten <$> h.imports.mapM (resolveImport tree base extension)

end Countersign
