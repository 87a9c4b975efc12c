/-
# The command line

Programs are named on the command line, or a project file names them. The command line can only
allow more than the project does.

Key definitions: `Cli.Options`, `Cli.parse`, `Cli.inputFiles`, `Cli.run`.
-/
import Countersign.Project.Discovery
import Countersign.Project.Report

namespace Countersign
namespace Cli

/-- What the command line asks for. -/
structure Options where
  paths : List Path := []
  project : Option Path := none
  json : Bool := false
  allowPrototypeAfterExport : Bool := false
  allowExportReassignment : Bool := false
  listFiles : Bool := false
  deriving Repr, DecidableEq, Inhabited

/-- A command line that is not understood. -/
inductive UsageError where
  | unknown (arg : String)
  | repeated (option : String)
  | missingValue (option : String)
  | unwantedValue (option : String)
  deriving Repr, DecidableEq, Inhabited

/-- The fault in words. -/
def UsageError.message : UsageError → String
  | unknown arg => "unexpected argument '" ++ arg ++ "' found"
  | repeated option => "the argument '" ++ option ++ "' cannot be used multiple times"
  | missingValue option => "a value is required for '" ++ option ++ "' but none was supplied"
  | unwantedValue option => "unexpected value for '" ++ option ++ "' found; no more were expected"

/-- Turns on an option that stands for itself. -/
def switch (o : Options) (name : String) : Except UsageError Options :=
  let once (isSet : Bool) (o : Options) : Except UsageError Options :=
    if isSet then .error (.repeated name) else .ok o
  match name with
  | "--json" => once o.json { o with json := true }
  | "--allow-prototype-after-export" =>
    once o.allowPrototypeAfterExport { o with allowPrototypeAfterExport := true }
  | "--allow-export-reassignment" =>
    once o.allowExportReassignment { o with allowExportReassignment := true }
  | "--list-files" => once o.listFiles { o with listFiles := true }
  | _ => .error (.unknown name)

/-- Sets the project. -/
def setProject (o : Options) (value : String) : Except UsageError Options :=
  if o.project.isSome then .error (.repeated "--project <PROJECT>")
  else if value.isEmpty then .error (.missingValue "--project <PROJECT>")
  else .ok { o with project := some ⟨value⟩ }

/-- Adds a path. -/
def addPath (o : Options) (value : String) : Except UsageError Options :=
  if value.isEmpty then .error (.missingValue "[PATH]...")
  else .ok { o with paths := o.paths ++ [⟨value⟩] }

/-- Whether an argument is an option. A hyphen alone is a path. -/
def isOption (arg : String) : Bool := "-".toList.isPrefixOf arg.toList && arg != "-"

/-- An option with its value in the same argument, if it is one: `--name=value`, or `-pvalue` with
or without an equals sign. -/
def attached? (arg : String) : Option (String × String) :=
  match arg.toList with
  | '-' :: '-' :: cs =>
    match cs.dropWhile (· != '=') with
    | [] => none
    | _ :: value => some (String.ofList ('-' :: '-' :: cs.takeWhile (· != '=')), String.ofList value)
  | '-' :: 'p' :: '=' :: value => some ("-p", String.ofList value)
  | '-' :: 'p' :: c :: value => some ("-p", String.ofList (c :: value))
  | _ => none

/-- Whether an option names the project. -/
def isProjectOption (name : String) : Bool := name == "-p" || name == "--project"

/-- Reads arguments from left to right; after `--` all are paths. -/
def parseFrom (o : Options) : List String → Except UsageError Options
  | [] => .ok o
  | "--" :: rest => rest.foldlM addPath o
  | arg :: rest =>
    if !isOption arg then do parseFrom (← addPath o arg) rest
    else
      match attached? arg with
      | some (name, value) =>
        if isProjectOption name then do parseFrom (← setProject o value) rest
        else do
          discard (switch o name)
          .error (.unwantedValue name)
      | none =>
        if isProjectOption arg then
          match rest with
          | value :: rest =>
            if isOption value then .error (.missingValue "--project <PROJECT>")
            else do parseFrom (← setProject o value) rest
          | [] => .error (.missingValue "--project <PROJECT>")
        else do parseFrom (← switch o arg) rest

/-- Reads a command line. -/
def parse (args : List String) : Except UsageError Options := parseFrom {} args

/-- The project that counts if none is named and no path is given. -/
def defaultProject : Path := ⟨"jsig.json"⟩

/-- The programs of a project, and the project. -/
def loadProject (tree : FileTree) (path : Path) : Except String (List Path × Config) := do
  let config ←
    (Config.load tree path).mapError fun e =>
      "Failed to read project '" ++ path.text ++ "': " ++ e.message
  let root := path.parent?.getD ⟨"."⟩
  let files :=
    discover tree root (config.included.getD ["."]) (config.excluded.getD []) config.files
  return (files, config)

/-- The programs that a path stands for: all those in a directory, in order, or the file itself. -/
def expand (tree : FileTree) (p : Path) : List Path :=
  if tree.isDirectoryAt p then sortPaths (collectAt tree [] p) else [p]

/-- The programs to check, and the project they belong to. -/
def inputFiles (tree : FileTree) (o : Options) : Except String (List Path × Config) :=
  match o.project with
  | some path => loadProject tree path
  | none =>
    if !o.paths.isEmpty then .ok (o.paths.flatMap (expand tree), .empty)
    else if tree.isFileAt defaultProject then loadProject tree defaultProject
    else .ok ([], .empty)

/-- The settings of a project with what the command line allows. -/
def settings (o : Options) (config : Config) : Settings :=
  let s := config.settings
  { s with
    policy :=
      { allowReassignment := s.policy.allowReassignment || o.allowExportReassignment
        allowPrototypeAfterExport :=
          s.policy.allowPrototypeAfterExport || o.allowPrototypeAfterExport } }

/-- What a run leaves behind. -/
structure Output where
  exitCode : Nat
  stdout : String := ""
  stderr : String := ""
  deriving Repr, DecidableEq, Inhabited

/-- Checks what the options ask for. -/
def run (tree : FileTree) (o : Options) : Output :=
  match inputFiles tree o with
  | .error message => { exitCode := 1, stderr := errorLine message }
  | .ok ([], _) => { exitCode := 1, stderr := errorLine "No input files found." }
  | .ok (files, config) =>
    let results := verifyAll tree (settings o config) files
    let listed := if o.listFiles then String.join (files.map fun f => f.text ++ "\n") else ""
    let code := (Tally.ofResults results).exitCode
    if o.json then
      { exitCode := code, stdout := listed ++ (jsonReport results).pretty 0 ++ "\n" }
    else { exitCode := code, stdout := listed, stderr := textReport results }

/-- Runs a command line in a file tree. -/
def runArgs (tree : FileTree) (args : List String) : Output :=
  match parse args with
  | .error e => { exitCode := 2, stderr := errorLine e.message }
  | .ok o => run tree o

end Cli
end Countersign
