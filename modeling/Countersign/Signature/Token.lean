/-
# Tokens of the signature language

Signature text is a sequence of names, values and marks, with blanks and comments between them. A
line comment runs to the next line feed, a block comment to the next `*/`, which must be there.
Each token is kept with the byte offset at which it starts; its text is the slice of the source
from there, so it ends where its text does.

Key definitions: `Token`, `Lexeme`, `tokenize`.
-/
import Countersign.Text.Blank
import Countersign.Signature.Value

namespace Countersign
namespace Signature

/-- A word of the signature language. -/
inductive Token where
  | name (s : String)
  | value (v : Value)
  | punct (p : Punct)
  deriving Repr, DecidableEq, Inhabited

/-- The token as it is written. -/
def Token.text : Token → String
  | name s => s
  | value v => v.text
  | punct p => p.text

/-- A token and the byte offset where it starts. -/
structure Lexeme where
  token : Token
  start : Nat
  deriving Repr, DecidableEq, Inhabited

/-- The byte offset just past the token. -/
def Lexeme.stop (l : Lexeme) : Nat := l.start + l.token.text.utf8ByteSize

/-- A fault that keeps a text from being split into tokens. -/
structure LexFault where
  offset : Nat
  expected : Expected
  found : Found
  deriving Repr, DecidableEq, Inhabited

/-- What a run of skipped text is inside of. -/
inductive Trivia where
  /-- Between tokens. -/
  | blank
  /-- In a comment that runs to the end of the line. -/
  | line
  /-- In a block comment that opened at this offset. -/
  | block (opened : Nat)
  deriving Repr, DecidableEq, Inhabited

/-- Skips blanks and comments from offset `pos` on, and gives the offset and the text where the
next token starts. A block comment that is never closed is a fault where it opened. -/
def skipTrivia : Trivia → Nat → List Char → Except LexFault (Nat × List Char)
  | .block opened, _, [] => .error ⟨opened, .closingComment, .endOfInput⟩
  | _, pos, [] => .ok (pos, [])
  | .blank, pos, '/' :: '/' :: text => skipTrivia .line (pos + 2) text
  | .blank, pos, '/' :: '*' :: text => skipTrivia (.block pos) (pos + 2) text
  | .blank, pos, c :: text =>
    if Text.isBlank c then skipTrivia .blank (pos + c.utf8Size) text else .ok (pos, c :: text)
  | .line, pos, c :: text =>
    skipTrivia (if c == '\n' then .blank else .line) (pos + c.utf8Size) text
  | .block _, pos, '*' :: '/' :: text => skipTrivia .blank (pos + 2) text
  | .block opened, pos, c :: text => skipTrivia (.block opened) (pos + c.utf8Size) text

/-- The mark at the front of a text. -/
def scanPunct? : List Char → Option (Punct × List Char)
  | '|' :: text => some (.pipe, text)
  | '&' :: text => some (.ampersand, text)
  | '<' :: text => some (.less, text)
  | '>' :: text => some (.greater, text)
  | ',' :: text => some (.comma, text)
  | ';' :: text => some (.semicolon, text)
  | ':' :: text => some (.colon, text)
  | '(' :: text => some (.openParen, text)
  | ')' :: text => some (.closeParen, text)
  | '\x7b' :: text => some (.openBrace, text)
  | '\x7d' :: text => some (.closeBrace, text)
  | '[' :: text => some (.openBracket, text)
  | ']' :: text => some (.closeBracket, text)
  | '=' :: '>' :: text => some (.arrow, text)
  | _ => none

/-- Whether a character opens a string or a number. -/
def opensValue (c : Char) : Bool := Value.isQuote c || c == '-' || c.isDigit

/-- A run of identifier characters is a value if it is the word of one, and a name otherwise. -/
def wordToken (word : String) : Token :=
  match Value.wordKinds.find? (·.word == word) with
  | some k => .value ⟨word, k⟩
  | none => .name word

/-- The token at the front of a text that starts with `c` at offset `pos`. -/
def scanToken (pos : Nat) (c : Char) (text : List Char) : Except LexFault (Token × List Char) :=
  match scanPunct? (c :: text) with
  | some (p, rest) => .ok (.punct p, rest)
  | none =>
    if opensValue c then
      match Value.scan? (c :: text) with
      | some (v, rest) => .ok (.value v, rest)
      | none => .error ⟨pos, if c == '-' then .number else .closingQuote, .endOfInput⟩
    else if Text.isIdentStart c then
      .ok (wordToken (String.ofList ((c :: text).takeWhile Text.isIdentPart)),
        (c :: text).dropWhile Text.isIdentPart)
    else
      .error ⟨pos, .type, .text (String.singleton c)⟩

/-- The tokens of a text that starts at offset `pos`, at most `limit` of them. -/
def lexemesFrom : Nat → Nat → List Char → Except LexFault (List Lexeme)
  | 0, _, _ => .ok []
  | limit + 1, pos, text => do
    match ← skipTrivia .blank pos text with
    | (_, []) => return []
    | (start, c :: rest) =>
      let (token, rest) ← scanToken start c rest
      let more ← lexemesFrom limit (Lexeme.stop ⟨token, start⟩) rest
      return ⟨token, start⟩ :: more

/-- Splits a text into its tokens. No text has more tokens than characters. -/
def tokenize (text : List Char) : Except LexFault (List Lexeme) :=
  lexemesFrom (text.length + 1) 0 text

end Signature
end Countersign
