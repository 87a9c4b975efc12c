/-
# Finding programs

The programs of a project are the files it lists, or all those in the files and directories it
includes. Directories of packages and of version control are not searched, and paths that contain
an excluded text are passed over.

Key definitions: `collect`, `collectAt`, `sortPaths`, `discover`.
-/
import Countersign.Files.Tree

namespace Countersign

/-- Directories that are not searched. -/
def skippedDirectories : List String := ["node_modules", ".git"]

/-- Whether a path is that of a program. -/
def isProgram (p : Path) : Bool := p.extension? == some "js"

/-- A text without the leading pairs of dot and slash. -/
def dropHere : List Char → List Char
  | '.' :: '/' :: cs => dropHere cs
  | cs => cs

/-- Whether one text stands somewhere in another. -/
def occursIn (part : List Char) : List Char → Bool
  | [] => part.isEmpty
  | c :: cs => part.isPrefixOf (c :: cs) || occursIn part cs

/-- Whether a path contains an excluded text. -/
def isExcluded (excluded : List String) (p : Path) : Bool :=
  excluded.any fun pattern =>
    let part := dropHere pattern.toList
    !part.isEmpty && occursIn part p.text.toList

mutual

/-- The programs in a tree that stands at a path. -/
def collect (excluded : List String) (p : Path) : FileTree → List Path
  | .file _ => if !isExcluded excluded p && isProgram p then [p] else []
  | .directory entries => if isExcluded excluded p then [] else collectEntries excluded p entries
termination_by structural t => t

/-- The programs in the entries of the directory at a path. -/
def collectEntries (excluded : List String) (p : Path) : List (String × FileTree) → List Path
  | [] => []
  | (name, t) :: entries =>
    (if t.isDirectory && skippedDirectories.contains name then []
      else collect excluded (p.join ⟨name⟩) t) ++ collectEntries excluded p entries
termination_by structural t => t

end

/-- The programs at a path, if anything is there. -/
def collectAt (tree : FileTree) (excluded : List String) (p : Path) : List Path :=
  match tree.find p with
  | .ok t => collect excluded p t
  | .error _ => []

/-- Paths in order; of equal ones the first stays first. -/
def sortPaths (ps : List Path) : List Path := ps.mergeSort Path.le

/-- Paths without those that equal the one before them. -/
def dedupPaths : List Path → List Path
  | [] => []
  | p :: ps =>
    match dedupPaths ps with
    | [] => [p]
    | q :: qs => if p.same q then p :: qs else p :: q :: qs

/-- The programs of a project in the directory `root`: the listed files that there are, in their
order, or else what is included, in the order of paths. -/
def discover (tree : FileTree) (root : Path) (included excluded : List String)
    (listed : Option (List String)) : List Path :=
  match listed with
  | some files => (files.map fun f => root.join ⟨f⟩).filter tree.isFileAt
  | none =>
    dedupPaths (sortPaths (included.flatMap fun i => collectAt tree excluded (root.join ⟨i⟩)))

end Countersign
