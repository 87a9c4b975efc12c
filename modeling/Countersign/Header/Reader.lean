/-
# Reading headers

A header's text is a sequence of statements, each ended by a semicolon or not. The words `import`,
`type` and `export` open statements of their own unless a colon follows, which makes them ordinary
names. A header may also stand in a block comment of a program, after the marker `@jsig`.

Key definitions: `parseHeaderAt`, `parseHeader`, `inlineHeaderBody?`.
-/
import Countersign.Header.Basic
import Countersign.Signature.Parser

namespace Countersign
namespace Signature

/-- One imported name, perhaps with a name of its own here. -/
def importName : Reads ImportName := fun ts => do
  let (name, ts) ← identifier ts
  match eatWord? "as" ts with
  | some rest =>
    let (newName, ts) ← identifier rest
    return (⟨name, some newName⟩, ts)
  | none => return (⟨name, none⟩, ts)

/-- Imported names up to the closing brace, each but the last followed by a comma; at most
`limit`. -/
def importNames : Nat → Reads (List ImportName)
  | 0, ts => .ok ([], ts)
  | limit + 1, ts =>
    if atPunct .closeBrace ts then .ok ([], ts)
    else do
      let (n, ts) ← importName ts
      match eat? .comma ts with
      | some rest =>
        let (more, ts) ← importNames limit rest
        return (n :: more, ts)
      | none => return ([n], ts)

/-- A quoted module path. -/
def modulePath : Reads String
  | ⟨.value v, start⟩ :: rest =>
    if v.kind = .string then .ok (unquote v.text, rest)
    else .error ⟨[.modulePath], ⟨.value v, start⟩ :: rest⟩
  | ts => .error ⟨[.modulePath], ts⟩

/-- An import statement after its first word. -/
def importStatement (line : Nat) : Reads HeaderStatement := fun ts => do
  let ((), ts) ← expect .openBrace ts
  let (names, ts) ← importNames (ts.length + 1) ts
  let ((), ts) ← expect .closeBrace ts
  let ((), ts) ← expectWord "from" ts
  let (path, ts) ← modulePath ts
  return (.importNames ⟨names, path, line⟩, ts)

/-- The type parameters of an alias, if it has any. -/
def aliasParams : Reads (List String) := fun ts =>
  match eat? .less ts with
  | none => .ok ([], ts)
  | some ts => do
    let (ps, ts) ← sepBy .comma identifier ts
    let ((), ts) ← expect .greater ts
    return (ps, ts)

/-- A type alias after its first word. -/
def aliasStatement (line : Nat) : Reads HeaderStatement := fun ts => do
  let (name, ts) ← identifier ts
  let (ps, ts) ← aliasParams ts
  let ((), ts) ← expect .colon ts
  let (t, ts) ← readType ts
  return (.typeAlias ⟨name, ps, t, line⟩, ts)

/-- An export statement after its first word. -/
def exportStatement (line : Nat) : Reads HeaderStatement := fun ts => do
  let ((), ts) ← expectWord "default" ts
  let (t, ts) ← readType ts
  return (.exportDefault ⟨t, line⟩, ts)

/-- The declaration of a value. -/
def valueStatement (line : Nat) : Reads HeaderStatement
  | ⟨.name s, _⟩ :: rest => do
    let ((), ts) ← expect .colon rest
    let (t, ts) ← readType ts
    return (.value ⟨s, t, line⟩, ts)
  | ts => .error ⟨[.word "import", .word "type", .word "export", .identifier], ts⟩

/-- A statement, given the line of its first token. -/
def statement (line : Nat) : Reads HeaderStatement := fun ts =>
  if atPunct .colon (ts.drop 1) then valueStatement line ts
  else
    match eatWord? "import" ts, eatWord? "type" ts, eatWord? "export" ts with
    | some rest, _, _ => importStatement line rest
    | _, some rest, _ => aliasStatement line rest
    | _, _, some rest => exportStatement line rest
    | none, none, none => valueStatement line ts

/-- The statements of the tokens left, at most `limit`; `lineOf` gives the line of a token's
offset. Semicolons between statements are skipped. -/
def statements (lineOf : Nat → Nat) : Nat → Reads (List HeaderStatement)
  | 0, ts => .ok ([], ts)
  | _ + 1, [] => .ok ([], [])
  | limit + 1, l :: rest =>
    if l.token = .punct .semicolon then statements lineOf limit rest
    else do
      let (s, ts) ← statement (lineOf l.start) (l :: rest)
      let (more, ts) ← statements lineOf limit ((eat? .semicolon ts).getD ts)
      return (s :: more, ts)

end Signature

open Signature

/-- Reads a header whose text begins on line `first` of its file. -/
def parseHeaderAt (text : String) (first : Nat) : Except SignatureError Header := do
  let c ← Cursor.ofText text first
  let statements ← (c.read (statements (lineAt text.toList first) (c.rest.length + 1))).1
  return ⟨statements⟩

/-- Reads a header. -/
def parseHeader (text : String) : Except SignatureError Header := parseHeaderAt text 1

/-- The word that makes a block comment a header. -/
def inlineHeaderMarker : String := "@jsig"

/-- The header text in the body of a block comment: what follows the marker, which blanks may
precede and must follow unless the body ends with it. -/
def inlineHeaderBody? (body : String) : Option String :=
  match inlineHeaderMarker.toList.isPrefixOf? (body.toList.dropWhile Text.isBlank) with
  | none => none
  | some [] => some ""
  | some (c :: rest) => if Text.isBlank c then some (String.ofList (c :: rest)) else none

end Countersign
