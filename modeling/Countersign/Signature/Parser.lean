/-
# Reading types

The grammar of types, each rule reading tokens off the front of a list:

    type         := intersection ('|' intersection)*
    intersection := applied ('&' applied)*
    applied      := primary ('<' type (',' type)* '>')?
    primary      := value | Name ('as' Name)? | object | tuple | function | '(' type ')'

A single member of a union or an intersection stands for itself. A list in parentheses is the
parameters of a function if an arrow follows it, and otherwise a group, which then holds exactly
one unnamed type.

Every rule takes as a parameter the rule for the types nested in what it reads. `typeAt` ties the
knot: its number bounds how deep types may be nested, and since each level of nesting costs at
least one token, the number of tokens is always enough.

Key definitions: `typeAt`, `readType`, `parseType`, and `Cursor`, for reading several types in a
row.
-/
import Countersign.Signature.Token

namespace Countersign
namespace Signature

/-- Reading failed: what was wanted, and the tokens from the unwanted one on. -/
structure Failure where
  expected : List Expected
  rest : List Lexeme
  deriving Repr, DecidableEq, Inhabited

/-- Reads an `α` off the front of a list of tokens. -/
abbrev Reads (α : Type) := List Lexeme → Except Failure (α × List Lexeme)

/-- The rest after the mark `p`, if it comes next. -/
def eat? (p : Punct) : List Lexeme → Option (List Lexeme)
  | ⟨.punct q, _⟩ :: rest => if q = p then some rest else none
  | _ => none

/-- The rest after the name `w`, if it comes next. -/
def eatWord? (w : String) : List Lexeme → Option (List Lexeme)
  | ⟨.name s, _⟩ :: rest => if s == w then some rest else none
  | _ => none

/-- Whether the mark `p` comes next. -/
def atPunct (p : Punct) (ts : List Lexeme) : Bool := (eat? p ts).isSome

/-- The mark `p`. -/
def expect (p : Punct) : Reads Unit := fun ts =>
  match eat? p ts with
  | some rest => .ok ((), rest)
  | none => .error ⟨[.punct p], ts⟩

/-- The name `w`. -/
def expectWord (w : String) : Reads Unit := fun ts =>
  match eatWord? w ts with
  | some rest => .ok ((), rest)
  | none => .error ⟨[.word w], ts⟩

/-- Any name. -/
def identifier : Reads String
  | ⟨.name s, _⟩ :: rest => .ok (s, rest)
  | ts => .error ⟨[.identifier], ts⟩

/-- Further items, each after the mark `p`; at most `limit` of them. -/
def further {α : Type} (p : Punct) (item : Reads α) : Nat → Reads (List α)
  | 0, ts => .ok ([], ts)
  | limit + 1, ts =>
    match eat? p ts with
    | none => .ok ([], ts)
    | some ts => do
      let (a, ts) ← item ts
      let (more, ts) ← further p item limit ts
      return (a :: more, ts)

/-- One or more items with the mark `p` between them. -/
def sepBy {α : Type} (p : Punct) (item : Reads α) : Reads (List α) := fun ts => do
  let (a, ts) ← item ts
  let (more, ts) ← further p item ts.length ts
  return (a :: more, ts)

/-- The text between the quotes of a quoted text. -/
def unquote (text : String) : String := String.ofList (text.toList.drop 1).dropLast

/-- The name of an object's field: a name, or a string without its quotes. -/
def fieldName : Reads String
  | ⟨.name s, _⟩ :: rest => .ok (s, rest)
  | ⟨.value v, start⟩ :: rest =>
    if v.kind = .string then .ok (unquote v.text, rest)
    else .error ⟨[.fieldName, .punct .closeBrace], ⟨.value v, start⟩ :: rest⟩
  | ts => .error ⟨[.fieldName, .punct .closeBrace], ts⟩

/-- The rest after one optional comma or semicolon. -/
def skipSeparator (ts : List Lexeme) : List Lexeme :=
  match eat? .comma ts with
  | some rest => rest
  | none => (eat? .semicolon ts).getD ts

/-- The fields up to the closing brace, after the fields `done`; at most `limit` of them. -/
def fields (sub : Reads Ty) : Nat → List (String × Ty) → Reads (List (String × Ty))
  | 0, done, ts => .ok (done, ts)
  | limit + 1, done, ts =>
    if atPunct .closeBrace ts then .ok (done, ts)
    else do
      let (name, ts) ← fieldName ts
      if done.any (·.1 == name) then .error ⟨[.uniqueFieldName], ts⟩
      let ((), ts) ← expect .colon ts
      let (t, ts) ← sub ts
      fields sub limit (done ++ [(name, t)]) (skipSeparator ts)

/-- An object after its opening brace. -/
def object (sub : Reads Ty) : Reads Ty := fun ts => do
  let (fs, ts) ← fields sub (ts.length + 1) [] ts
  let ((), ts) ← expect .closeBrace ts
  return (.object fs, ts)

/-- A tuple after its opening bracket. -/
def tuple (sub : Reads Ty) : Reads Ty := fun ts => do
  let (items, ts) ← if atPunct .closeBracket ts then .ok ([], ts) else sepBy .comma sub ts
  let ((), ts) ← expect .closeBracket ts
  return (.tuple items, ts)

/-- The parameters of a function as far as they have been read. -/
structure Params where
  receiver : Option Ty
  positional : List (Option String × Ty)
  deriving Inhabited

/-- The rest after the name `this` and a colon, if they come next. -/
def eatReceiver? (ts : List Lexeme) : Option (List Lexeme) :=
  (eatWord? "this" ts).bind (eat? .colon)

/-- One parameter after those in `done`: a name, a colon and a type, or only a type. The receiver
is named `this` and comes first. -/
def param (sub : Reads Ty) (done : Params) : Reads Params := fun ts =>
  match eatReceiver? ts with
  | some rest =>
    if done.receiver.isSome || !done.positional.isEmpty then .error ⟨[.parameter], ts⟩
    else do
      let (t, ts) ← sub rest
      return ({ done with receiver := some t }, ts)
  | none =>
    match ts with
    | ⟨.name s, _⟩ :: ⟨.punct .colon, _⟩ :: rest => do
      let (t, ts) ← sub rest
      return ({ done with positional := done.positional ++ [(some s, t)] }, ts)
    | ts => do
      let (t, ts) ← sub ts
      return ({ done with positional := done.positional ++ [(none, t)] }, ts)

/-- One or more parameters with commas between them, after those in `done`; at most `limit`. -/
def params (sub : Reads Ty) : Nat → Params → Reads Params
  | 0, done, ts => .ok (done, ts)
  | limit + 1, done, ts => do
    let (done, ts) ← param sub done ts
    match eat? .comma ts with
    | some rest => params sub limit done rest
    | none => return (done, ts)

/-- A function, or a single type in parentheses, after the opening parenthesis. -/
def functionOrGroup (sub : Reads Ty) : Reads Ty := fun ts => do
  let (ps, ts) ←
    if atPunct .closeParen ts then .ok (⟨none, []⟩, ts)
    else params sub (ts.length + 1) ⟨none, []⟩ ts
  let ((), ts) ← expect .closeParen ts
  match eat? .arrow ts with
  | some rest =>
    let (result, ts) ← sub rest
    return (.function ps.positional result ps.receiver, ts)
  | none =>
    match ps with
    | ⟨none, [(none, t)]⟩ => return (t, ts)
    | _ => .error ⟨[.punct .arrow], ts⟩

/-- A name, perhaps with a new name for it: `Channel`, `Channel as C`. -/
def className (name : String) : Reads Ty := fun ts =>
  match eatWord? "as" ts with
  | some rest => do
    let (newName, ts) ← identifier rest
    return (.renamed (.user newName) (.resolve name), ts)
  | none => .ok (.ofName name, ts)

/-- A type that needs no parentheses anywhere. -/
def primary (sub : Reads Ty) : Reads Ty
  | ⟨.value v, _⟩ :: rest => .ok (.value v, rest)
  | ⟨.name s, _⟩ :: rest => className s rest
  | ⟨.punct .openBrace, _⟩ :: rest => object sub rest
  | ⟨.punct .openBracket, _⟩ :: rest => tuple sub rest
  | ⟨.punct .openParen, _⟩ :: rest => functionOrGroup sub rest
  | ts => .error ⟨[.type], ts⟩

/-- A primary type, perhaps applied to arguments. -/
def applied (sub : Reads Ty) : Reads Ty := fun ts => do
  let (base, ts) ← primary sub ts
  match eat? .less ts with
  | none => return (base, ts)
  | some ts =>
    let (args, ts) ← sepBy .comma sub ts
    let ((), ts) ← expect .greater ts
    return (.generic base args, ts)

/-- Applied types with ampersands between them. -/
def intersection (sub : Reads Ty) : Reads Ty := fun ts => do
  let (members, ts) ← sepBy .ampersand (applied sub) ts
  return (.intersectionOf members, ts)

/-- Intersections with bars between them. -/
def union (sub : Reads Ty) : Reads Ty := fun ts => do
  let (members, ts) ← sepBy .pipe (intersection sub) ts
  return (.unionOf members, ts)

/-- A type nested less than `depth` levels deep. -/
def typeAt : Nat → Reads Ty
  | 0 => fun ts => .error ⟨[.type], ts⟩
  | depth + 1 => union (typeAt depth)

/-- A type. -/
def readType : Reads Ty := fun ts => typeAt (ts.length + 1) ts

/-- Nothing more. -/
def endOfInput : Reads Unit
  | [] => .ok ((), [])
  | ts => .error ⟨[.endOfInput], ts⟩

/-- The byte offset where the tokens `ts` begin in a text, which is its end if there are none. -/
def offsetOf (text : String) : List Lexeme → Nat
  | [] => text.utf8ByteSize
  | l :: _ => l.start

/-- What a list of tokens begins with. -/
def foundAt : List Lexeme → Found
  | [] => .endOfInput
  | l :: _ => .text l.token.text

/-- The error that a failure means in a text that begins on line `first`. -/
def Failure.toError (f : Failure) (text : String) (first : Nat) : SignatureError :=
  .locate text.toList first (offsetOf text f.rest) f.expected (foundAt f.rest)

/-- The error that a lexical fault means in a text that begins on line `first`. -/
def LexFault.toError (f : LexFault) (text : String) (first : Nat) : SignatureError :=
  .locate text.toList first f.offset [f.expected] f.found

/-- A text that begins on line `firstLine`, and the tokens of it that are still to be read. -/
structure Cursor where
  text : String
  firstLine : Nat
  rest : List Lexeme
  deriving Repr, Inhabited

namespace Cursor

/-- All tokens of a text that begins on line `first`. -/
def ofText (text : String) (first : Nat) : Except SignatureError Cursor :=
  match tokenize text.toList with
  | .ok ts => .ok ⟨text, first, ts⟩
  | .error f => .error (f.toError text first)

/-- Reads one item. A failed attempt leaves the cursor at the token that was not wanted. -/
def read {α : Type} (item : Reads α) (c : Cursor) : Except SignatureError α × Cursor :=
  match item c.rest with
  | .ok (a, rest) => (.ok a, { c with rest := rest })
  | .error f => (.error (f.toError c.text c.firstLine), { c with rest := f.rest })

/-- Reads the next type. -/
def readType (c : Cursor) : Except SignatureError Ty × Cursor := c.read Signature.readType

end Cursor

/-- A type and nothing more. -/
def wholeType : Reads Ty := fun ts => do
  let (t, ts) ← readType ts
  let ((), ts) ← endOfInput ts
  return (t, ts)

/-- Reads a text as exactly one type. -/
def parseType (text : String) : Except SignatureError Ty := do
  let c ← Cursor.ofText text 1
  (c.read wholeType).1

end Signature
end Countersign
