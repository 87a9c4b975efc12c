/-
# Paths

A path is a text whose components are separated by slashes. Doubled and final slashes and the
component `.` say nothing, except at the beginning, where `.` stands for itself. Paths keep the
text they were made from; they are compared by their components.

Key definitions: `Path`, `Path.components`, `Path.join`, `Path.parent?`, `Path.extension?`,
`Path.withExtension`, `Path.le`.
-/

namespace Countersign

/-- A path by its text. -/
structure Path where
  text : String
  deriving Repr, DecidableEq, Inhabited

namespace Path

/-- A part of a path. -/
inductive Component where
  | root
  | current
  | parent
  | name (text : String)
  deriving Repr, DecidableEq, Inhabited

/-- The pieces between slashes, empty ones included. -/
def pieces (p : Path) : List String := (p.text.toList.splitOn '/').map String.ofList

/-- The component that a piece after the first means, if it means one. -/
def Component.ofPiece? (piece : String) : Option Component :=
  if piece == "" || piece == "." then none
  else if piece == ".." then some .parent
  else some (.name piece)

/-- Whether the path starts at the root. -/
def isAbsolute (p : Path) : Bool := p.text.toList.head? == some '/'

/-- The parts of the path that say something. -/
def components (p : Path) : List Component :=
  let start :=
    if p.isAbsolute then [Component.root]
    else if p.pieces.head? == some "." then [Component.current]
    else []
  start ++ p.pieces.filterMap Component.ofPiece?

/-- Whether two paths have the same components. -/
def same (p q : Path) : Bool := p.components == q.components

/-- Where a component stands among components of other forms. -/
def Component.rank : Component → Nat
  | .root => 0
  | .current => 1
  | .parent => 2
  | .name _ => 3

/-- The order of components: by form, and names by their characters. -/
def Component.lt : Component → Component → Bool
  | .name a, .name b => a < b
  | a, b => a.rank < b.rank

/-- The order of paths is that of their components, the first difference deciding. -/
def leComponents : List Component → List Component → Bool
  | [], _ => true
  | _ :: _, [] => false
  | a :: as, b :: bs => a.lt b || (a == b && leComponents as bs)

/-- Whether `p` stands before `q` or has the same components. -/
def le (p q : Path) : Bool := leComponents p.components q.components

/-- The path `q` as seen from `p`. -/
def join (p q : Path) : Path :=
  if q.isAbsolute || p.text.isEmpty then q
  else if p.text.toList.getLast? == some '/' then ⟨p.text ++ q.text⟩
  else ⟨p.text ++ "/" ++ q.text⟩

/-- A text backwards, without what says nothing at its end. -/
def dropIdle : List Char → List Char
  | '/' :: cs => dropIdle cs
  | '.' :: '/' :: cs => dropIdle cs
  | cs => cs

/-- The path without what says nothing at its end, backwards. -/
def backwards (p : Path) : List Char := dropIdle p.text.toList.reverse

/-- The name of the file that the path leads to. -/
def fileName? (p : Path) : Option String :=
  match p.components.getLast? with
  | some (.name n) => some n
  | _ => none

/-- The path to the directory around: everything before the last component. -/
def parent? (p : Path) : Option Path :=
  match p.components.getLast? with
  | none => none
  | some .root => none
  | some _ =>
    match dropIdle (p.backwards.dropWhile (· != '/')) with
    | [] => some ⟨if p.isAbsolute then "/" else ""⟩
    | cs => some ⟨String.ofList cs.reverse⟩

/-- A file name parted at its last dot, unless that is its first character. -/
def splitName (name : String) : String × Option String :=
  let ending := name.toList.reverse.takeWhile (· != '.')
  match name.toList.reverse.dropWhile (· != '.') with
  | [] => (name, none)
  | [_] => (name, none)
  | _ :: stem => (String.ofList stem.reverse, some (String.ofList ending.reverse))

/-- What follows the last dot of the file name. -/
def extension? (p : Path) : Option String := p.fileName?.bind fun n => (splitName n).2

/-- The path with as many characters less at its end as its extension has. -/
def dropExtension (p : Path) : Path :=
  match p.extension? with
  | none => p
  | some ext => ⟨String.ofList (p.text.toList.take (p.text.length - ext.length))⟩

/-- The path with `ext` in the place of what follows the stem of its file name; a path without a
file name stays. -/
def setExtension (p : Path) (ext : String) : Path :=
  match p.fileName? with
  | none => p
  | some name =>
    let kept := p.backwards.drop (name.length - (splitName name).1.length)
    ⟨String.ofList kept.reverse ++ (if ext.isEmpty then "" else "." ++ ext)⟩

/-- The path with another extension, or none if it is empty. The old extension is taken off first,
so a name that was two dots and an extension becomes the directory around and stays that. -/
def withExtension (p : Path) (ext : String) : Path := p.dropExtension.setExtension ext

end Path
end Countersign
