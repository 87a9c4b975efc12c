/-
# Errors in signature text

Reading stops at the first fault. An error says where it is, what would have been accepted there
and what stands there instead. Offsets count bytes, columns count characters, lines count line
feeds; a text that begins further down a file shifts its lines by its first line. Lines and columns
are 32-bit words.

Key definitions: `Expected`, `Found`, `SignatureError`, `SignatureError.locate`.
-/
import Countersign.Ty.Basic

namespace Countersign

/-- The marks of the signature language. -/
inductive Punct where
  | pipe
  | ampersand
  | less
  | greater
  | comma
  | semicolon
  | colon
  | openParen
  | closeParen
  | openBrace
  | closeBrace
  | openBracket
  | closeBracket
  | arrow
  deriving Repr, DecidableEq, Inhabited

/-- How the mark is written. -/
def Punct.text : Punct → String
  | pipe => "|"
  | ampersand => "&"
  | less => "<"
  | greater => ">"
  | comma => ","
  | semicolon => ";"
  | colon => ":"
  | openParen => "("
  | closeParen => ")"
  | openBrace => "\x7b"
  | closeBrace => "\x7d"
  | openBracket => "["
  | closeBracket => "]"
  | arrow => "=>"

/-- Something that would have been accepted. -/
inductive Expected where
  | type
  | identifier
  | number
  | closingQuote
  | closingComment
  | endOfInput
  | fieldName
  | uniqueFieldName
  | parameter
  | modulePath
  | valueKind (k : ValueKind)
  | word (w : String)
  | punct (p : Punct)
  deriving Repr, DecidableEq, Inhabited

/-- Names it in a message. -/
def Expected.describe : Expected → String
  | type => "type"
  | identifier => "identifier"
  | number => "number"
  | closingQuote => "closing quote"
  | closingComment => "'*/'"
  | endOfInput => "end of input"
  | fieldName => "field name"
  | uniqueFieldName => "unique field name"
  | parameter => "parameter"
  | modulePath => "module path"
  | valueKind k => k.word
  | word w => "'" ++ w ++ "'"
  | punct p => "'" ++ p.text ++ "'"

/-- What stands at the place of an error. -/
inductive Found where
  | endOfInput
  | text (s : String)
  deriving Repr, DecidableEq, Inhabited

/-- Names it in a message. -/
def Found.describe : Found → String
  | endOfInput => "end of input"
  | text s => "'" ++ s ++ "'"

/-- The first character of the rest of a text. -/
def Found.ofChars : List Char → Found
  | [] => .endOfInput
  | c :: _ => .text (String.singleton c)

/-- A text that is not in the signature language. -/
structure SignatureError where
  /-- Byte offset into the text. -/
  offset : Nat
  /-- Line, counted from one. -/
  line : Nat
  /-- Column in characters, counted from one. -/
  column : Nat
  expected : List Expected
  found : Found
  deriving Repr, DecidableEq, Inhabited

namespace Signature

/-- The characters of `text` that fit into its first `bytes` bytes. -/
def charsBefore (bytes : Nat) : List Char → List Char
  | [] => []
  | c :: text => if c.utf8Size ≤ bytes then c :: charsBefore (bytes - c.utf8Size) text else []

/-- The text before byte offset `offset`, or all of it if no character ends there. -/
def textBefore (text : List Char) (offset : Nat) : List Char :=
  let before := charsBefore offset text
  if (String.ofList before).utf8ByteSize = offset then before else text

/-- Lines and columns are 32-bit words. -/
def lineWord (n : Nat) : Nat := n % 4294967296

/-- The line of byte offset `offset` in a text that begins on line `first`. -/
def lineAt (text : List Char) (first offset : Nat) : Nat :=
  lineWord ((charsBefore offset text).count '\n' + first)

end Signature

namespace SignatureError

open Signature

/-- The error at byte offset `offset` of a text that begins on line `first`, or at its end if that
comes before; a text that begins before the first line begins on it. -/
def locate (text : List Char) (first offset : Nat) (expected : List Expected) (found : Found) :
    SignatureError :=
  let offset := min offset (String.ofList text).utf8ByteSize
  let before := textBefore text offset
  { offset
    line := lineWord (before.count '\n' + 1 + (first - 1))
    column := lineWord ((before.reverse.takeWhile (· != '\n')).length + 1)
    expected
    found }

/-- The message `line:column: expected … but found …`. -/
def message (e : SignatureError) : String :=
  s!"{e.line}:{e.column}: expected " ++ " or ".intercalate (e.expected.map Expected.describe) ++
    " but found " ++ e.found.describe

end SignatureError
end Countersign
