/-
# File trees

The files below the working directory. A path leads through the tree component by component; where
that fails there is a reason, which has a text of its own.

Key definitions: `FileTree`, `FileTree.find`, `FileTree.read`, `FileTree.readText`, `ReadError`.
-/
import Countersign.Files.Path

namespace Countersign

/-- A file with its bytes, or a directory with its entries by name. -/
inductive FileTree where
  | file (bytes : ByteArray)
  | directory (entries : List (String × FileTree))
  deriving Inhabited

/-- Why a file cannot be read. -/
inductive ReadError where
  | notFound
  | notDirectory
  | isDirectory
  | nameTooLong
  | nameWithNul
  | notText
  deriving Repr, DecidableEq, Inhabited

/-- The reason in words. -/
def ReadError.message : ReadError → String
  | notFound => "No such file or directory (os error 2)"
  | notDirectory => "Not a directory (os error 20)"
  | isDirectory => "Is a directory (os error 21)"
  | nameTooLong => "File name too long (os error 36)"
  | nameWithNul => "file name contained an unexpected NUL byte"
  | notText => "stream did not contain valid UTF-8"

namespace FileTree

/-- The directory without entries. -/
def empty : FileTree := .directory []

/-- Whether this is a directory. -/
def isDirectory : FileTree → Bool
  | .directory _ => true
  | .file _ => false

/-- A file or directory at the end of a chain of new directories. -/
def chain (node : FileTree) : List String → FileTree
  | [] => node
  | name :: names => .directory [(name, chain node names)]

mutual

/-- The tree with `node` at the end of a chain of names. -/
def insert (node : FileTree) : FileTree → List String → FileTree
  | t, [] =>
    match t, node with
    | .directory entries, .directory [] => .directory entries
    | _, node => node
  | .file _, names => chain node names
  | .directory entries, name :: names => .directory (insertEntry node name names entries)
termination_by structural t => t

/-- The entries with `node` at the end of a chain of names from the entry `name`. -/
def insertEntry (node : FileTree) (name : String) (names : List String) :
    List (String × FileTree) → List (String × FileTree)
  | [] => [(name, chain node names)]
  | (n, t) :: entries =>
    if n == name then (n, insert node t names) :: entries
    else (n, t) :: insertEntry node name names entries
termination_by structural t => t

end

/-- The tree with these files and directories, each at its path. -/
def ofEntries (entries : List (Path × FileTree)) : FileTree :=
  entries.foldl (fun tree e => insert e.2 tree (e.1.pieces.filter (!·.isEmpty))) empty

/-- The longest name of an entry, in bytes. -/
def nameLimit : Nat := 255

/-- The longest path, in bytes. -/
def pathLimit : Nat := 4095

/-- One step along a path from the innermost of the directories passed so far. -/
def step (passed : List FileTree) (piece : String) : Except ReadError (List FileTree) :=
  match passed with
  | .directory entries :: outer =>
    if piece == "" || piece == "." then .ok passed
    else if piece == ".." then
      if outer.isEmpty then .error .notFound else .ok outer
    else if piece.utf8ByteSize > nameLimit then .error .nameTooLong
    else
      match entries.lookup piece with
      | some t => .ok (t :: passed)
      | none => .error .notFound
  | _ => .error .notDirectory

/-- What a path leads to. Nothing outside the tree is known. -/
def find (tree : FileTree) (p : Path) : Except ReadError FileTree := do
  if p.text.toList.contains '\x00' then .error .nameWithNul
  else if p.text.utf8ByteSize > pathLimit then .error .nameTooLong
  else if p.text.isEmpty || p.isAbsolute then .error .notFound
  else
    let passed ← p.pieces.foldlM step [tree]
    return passed.headD tree

/-- Whether the path leads to a file. -/
def isFileAt (tree : FileTree) (p : Path) : Bool :=
  match tree.find p with
  | .ok (.file _) => true
  | _ => false

/-- Whether the path leads to a directory. -/
def isDirectoryAt (tree : FileTree) (p : Path) : Bool :=
  match tree.find p with
  | .ok (.directory _) => true
  | _ => false

/-- The bytes of the file at a path. -/
def read (tree : FileTree) (p : Path) : Except ReadError ByteArray := do
  match ← tree.find p with
  | .file bytes => return bytes
  | .directory _ => throw .isDirectory

/-- The text of the file at a path. -/
def readText (tree : FileTree) (p : Path) : Except ReadError String := do
  match String.fromUTF8? (← tree.read p) with
  | some text => return text
  | none => throw .notText

end FileTree
end Countersign
