/-
# Literal values

The six kinds of literal value as they are written: a string between two equal quotes with no
quote in between, a number, and the words `null`, `undefined`, `true` and `false`. The kinds are
tried in this order and the first that matches wins; a word matches only if no further identifier
character follows it.

Key definitions: `Value.scan?`, which reads a value off the front of a text, and `Value.parse`,
which reads a text as exactly one value.
-/
import Countersign.Text.Identifier
import Countersign.Signature.Error

namespace Countersign
namespace Value

/-- Either quote character. -/
def isQuote (c : Char) : Bool := c == '"' || c == '\''

/-- A string: a quote, characters other than quotes, and the same quote. -/
def scanString? : List Char → Option (Value × List Char)
  | [] => none
  | q :: text =>
    if isQuote q then
      match text.dropWhile (!isQuote ·) with
      | [] => none
      | c :: rest =>
        if c == q then
          some (⟨String.ofList (q :: text.takeWhile (!isQuote ·) ++ [q]), .string⟩, rest)
        else none
    else none

/-- The sign a number may have, and what follows it. -/
def splitSign : List Char → List Char × List Char
  | '-' :: text => (['-'], text)
  | text => ([], text)

/-- The fractional part at the front of a text: a point with digits behind it, or nothing. -/
def splitFraction : List Char → List Char × List Char
  | '.' :: text =>
    match text.takeWhile Char.isDigit with
    | [] => ([], '.' :: text)
    | ds => ('.' :: ds, text.dropWhile Char.isDigit)
  | text => ([], text)

/-- The sign an exponent may have, and what follows it. -/
def splitExponentSign : List Char → List Char × List Char
  | '+' :: text => (['+'], text)
  | '-' :: text => (['-'], text)
  | text => ([], text)

/-- The exponent at the front of a text: `e` or `E`, perhaps a sign, and digits, or nothing. -/
def splitExponent : List Char → List Char × List Char
  | [] => ([], [])
  | e :: text =>
    if e == 'e' || e == 'E' then
      let (sign, more) := splitExponentSign text
      match more.takeWhile Char.isDigit with
      | [] => ([], e :: text)
      | ds => (e :: sign ++ ds, more.dropWhile Char.isDigit)
    else ([], e :: text)

/-- A number: perhaps a minus sign, digits, perhaps a fraction, perhaps an exponent. -/
def scanNumber? (text : List Char) : Option (Value × List Char) :=
  let (sign, text) := splitSign text
  match text.takeWhile Char.isDigit with
  | [] => none
  | ds =>
    let (fraction, text) := splitFraction (text.dropWhile Char.isDigit)
    let (exponent, text) := splitExponent text
    some (⟨String.ofList (sign ++ ds ++ fraction ++ exponent), .number⟩, text)

/-- The kinds whose only value is spelled as their own word. -/
def wordKinds : List ValueKind := [.null, .undefined, .trueWord, .falseWord]

/-- The word of kind `k`, unless an identifier character follows it. -/
def scanWord? (text : List Char) (k : ValueKind) : Option (Value × List Char) :=
  match k.word.toList.isPrefixOf? text with
  | none => none
  | some [] => some (⟨k.word, k⟩, [])
  | some (c :: rest) => if Text.isIdentPart c then none else some (⟨k.word, k⟩, c :: rest)

/-- The value at the front of a text, and the rest of the text. -/
def scan? (text : List Char) : Option (Value × List Char) :=
  scanString? text <|> scanNumber? text <|> wordKinds.findSome? (scanWord? text)

/-- The number of bytes in which the value is written. -/
def bytes (v : Value) : Nat := v.text.utf8ByteSize

/-- What may stand where a value is wanted. -/
def alternatives : List Expected :=
  (ValueKind.string :: .number :: wordKinds).map .valueKind

/-- A text as exactly one value. -/
def parse (text : String) : Except SignatureError Value :=
  match scan? text.toList with
  | some (v, []) => .ok v
  | some (v, rest) =>
    .error (.locate text.toList 1 v.bytes [.endOfInput] (.ofChars rest))
  | none => .error (.locate text.toList 1 0 alternatives (.ofChars text.toList))

end Value
end Countersign
