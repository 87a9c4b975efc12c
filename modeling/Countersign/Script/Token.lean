/-
# Tokens of programs

How the text of a program is cut into tokens. `scanAt` reads the token that follows an offset: it
skips blanks and comments, recording block comments and whether a line ends on the way, and then
takes the longest token that the next character can start. `rescanRegex` reads a token that began
with a slash again, as a regular expression.

Offsets count characters.

Key definitions: `Token`, `Comment`, `skipTrivia`, `scanAt`, `rescanRegex`.
-/
import Countersign.Text.Blank
import Countersign.Text.Identifier
import Countersign.Text.Span
import Countersign.Script.Fault

namespace Countersign
namespace Script

/-- What scanning noticed about a token. -/
structure TokenFlags where
  /-- A line ends between this token and the one before. -/
  lineBreakBefore : Bool := false
  /-- A string or regular expression that is not closed. -/
  unterminated : Bool := false
  /-- A number with an exponent. -/
  scientific : Bool := false
  /-- A hexadecimal number. -/
  hex : Bool := false
  /-- A number that starts with a zero and an octal digit. -/
  octal : Bool := false
  /-- A string with an escape of the form `\u`. -/
  unicodeEscape : Bool := false
  deriving Repr, DecidableEq, Inhabited

/-- A token: its kind, where it stands, its text with escapes replaced, and its flags. -/
structure Token where
  kind : TokenKind
  span : Span
  value : String
  flags : TokenFlags
  deriving Repr, DecidableEq, Inhabited

/-- A block comment with its delimiters. -/
structure Comment where
  span : Span
  text : String
  deriving Repr, DecidableEq, Inhabited

/-- The text between the delimiters of a block comment. -/
def Comment.body (c : Comment) : String :=
  let inner := ("/*".toList.isPrefixOf? c.text.toList).getD c.text.toList
  String.ofList ((("/*".toList.isPrefixOf? inner.reverse).map List.reverse).getD inner)

/-! ### Blanks and comments -/

/-- What skipping came to: where it stopped, whether a line ended, the block comments passed, and
where one opened that is never closed. -/
structure Skipped where
  pos : Nat
  rest : List Char
  lineBreak : Bool
  comments : List Comment
  unclosed : Option Nat
  deriving Repr, DecidableEq, Inhabited

namespace Skipped

/-- Nothing is skipped. -/
def stop (pos : Nat) (rest : List Char) : Skipped := ⟨pos, rest, false, [], none⟩

/-- The same after the character `c`. -/
def after (c : Char) (s : Skipped) : Skipped := { s with lineBreak := Text.isLineBreak c || s.lineBreak }

/-- The same after the comment `c`. -/
def afterComment (c : Comment) (s : Skipped) : Skipped := { s with comments := c :: s.comments }

end Skipped

/-- What skipped text is inside of. -/
inductive Trivia where
  | blank
  | line
  /-- A block comment that opened at an offset, with its text up to here in reverse. -/
  | block (opened : Nat) (reversed : List Char)
  deriving Repr, DecidableEq, Inhabited

/-- The comment that opened at `opened` and ends before `pos`. -/
def blockComment (opened pos : Nat) (reversed : List Char) : Comment :=
  ⟨⟨opened, pos⟩, String.ofList reversed.reverse⟩

/-- Skips blanks and comments from offset `pos` on. -/
def skipTrivia : Trivia → Nat → List Char → Skipped
  | .block opened reversed, pos, [] =>
    { Skipped.stop pos [] with
      comments := [blockComment opened pos reversed], unclosed := some opened }
  | _, pos, [] => .stop pos []
  | .blank, pos, '/' :: '/' :: rest => skipTrivia .line (pos + 2) rest
  | .blank, pos, '/' :: '*' :: rest => skipTrivia (.block pos ['*', '/']) (pos + 2) rest
  | .blank, pos, c :: rest =>
    if Text.isLineBreak c || Text.isInlineBlank c then (skipTrivia .blank (pos + 1) rest).after c
    else .stop pos (c :: rest)
  | .line, pos, c :: rest =>
    (skipTrivia (if Text.isLineBreak c then .blank else .line) (pos + 1) rest).after c
  | .block opened reversed, pos, '*' :: '/' :: rest =>
    (skipTrivia .blank (pos + 2) rest).afterComment
      (blockComment opened (pos + 2) ('/' :: '*' :: reversed))
  | .block opened reversed, pos, c :: rest =>
    (skipTrivia (.block opened (c :: reversed)) (pos + 1) rest).after c

/-! ### Tokens

Each reader below gets the text from the first character of the token on, and says how many
characters belong to it. -/

/-- What a reader found at the front of a text. -/
structure Lexed where
  kind : TokenKind
  length : Nat
  value : String
  flags : TokenFlags := {}
  fault : Option Fault := none
  deriving Repr, DecidableEq, Inhabited

/-- The value of a hexadecimal digit. -/
def hexDigit? (c : Char) : Option Nat :=
  if c.isDigit then some (c.toNat - '0'.toNat)
  else if 'a' ≤ c ∧ c ≤ 'f' then some (c.toNat - 'a'.toNat + 10)
  else if 'A' ≤ c ∧ c ≤ 'F' then some (c.toNat - 'A'.toNat + 10)
  else none

/-- The number that the digits `ds` write in hexadecimal. -/
def hexValue? (ds : List Char) : Option Nat :=
  ds.foldl (fun acc d => acc.bind fun n => (hexDigit? d).map (16 * n + ·)) (some 0)

/-- The character with a code; half of a surrogate pair is none and becomes the replacement
character. -/
def codeChar (n : Nat) : Char := if 0xD800 ≤ n ∧ n ≤ 0xDFFF then '\ufffd' else Char.ofNat n

/-- What an escape sequence is: how many characters of it follow the backslash, what they stand
for, and whether the escape is of the form `\u`. -/
structure Escape where
  length : Nat
  chars : List Char
  unicode : Bool := false
  deriving Repr, DecidableEq, Inhabited

/-- The character that a single letter after a backslash stands for; most stand for themselves. -/
def simpleEscape (c : Char) : Char :=
  match c with
  | 'n' => '\n'
  | 't' => '\t'
  | 'r' => '\r'
  | 'b' => '\x08'
  | 'f' => '\x0c'
  | 'v' => '\x0b'
  | _ => c

/-- An escape by `n` hexadecimal digits after the letter `c`, which stands for itself if the digits
are not all there. -/
def hexEscape (n : Nat) (c : Char) (rest : List Char) : Escape :=
  match hexValue? (rest.take n) with
  | some code =>
    if n ≤ rest.length then { length := n + 1, chars := [codeChar code] }
    else { length := 1, chars := [c] }
  | none => { length := 1, chars := [c] }

/-- Whether a text starts with a decimal digit. -/
def startsDigit : List Char → Bool
  | c :: _ => c.isDigit
  | [] => false

/-- The escape sequence at the front of a text that follows a backslash. A backslash before the end
of a line joins the lines. -/
def readEscape : List Char → Escape
  | [] => { length := 0, chars := [] }
  | 'x' :: rest => hexEscape 2 'x' rest
  | 'u' :: rest => { hexEscape 4 'u' rest with unicode := true }
  | '0' :: rest => { length := 1, chars := [if startsDigit rest then '0' else Char.ofNat 0] }
  | '\r' :: '\n' :: _ => { length := 2, chars := [] }
  | c :: _ => { length := 1, chars := if Text.isLineBreak c then [] else [simpleEscape c] }

/-- The rest of a string after some point: its length in the source with the closing quote, its
characters, whether it is closed, and whether it holds an escape of the form `\u`. -/
structure StringRest where
  length : Nat
  chars : List Char
  closed : Bool
  unicodeEscape : Bool
  deriving Repr, DecidableEq, Inhabited

/-- The same after one more character of source, where `chars` stand for what starts there. -/
def StringRest.after (chars : List Char) (unicode : Bool) (r : StringRest) : StringRest :=
  { r with
    length := r.length + 1, chars := chars ++ r.chars, unicodeEscape := unicode || r.unicodeEscape }

/-- Reads a string after its opening quote, or after some of its characters, of which the next
`skip` have been accounted for by an escape. -/
def scanString (quote : Char) : Nat → List Char → StringRest
  | _, [] => ⟨0, [], false, false⟩
  | skip + 1, _ :: rest => (scanString quote skip rest).after [] false
  | 0, c :: rest =>
    if c == quote then ⟨1, [], true, false⟩
    else if c == '\\' then
      let e := readEscape rest
      (scanString quote e.length rest).after e.chars e.unicode
    else if Text.isLineBreak c then ⟨0, [], false, false⟩
    else (scanString quote 0 rest).after [c] false

/-- A string literal that opens with `quote`, from the character after it on. -/
def lexString (quote : Char) (text : List Char) : Lexed :=
  let r := scanString quote 0 text
  { kind := .string, length := r.length + 1, value := String.ofList r.chars
    flags := { unterminated := !r.closed, unicodeEscape := r.unicodeEscape }
    fault := if r.closed then none else some .unterminatedString }

/-- A hexadecimal digit. -/
def isHexDigit (c : Char) : Bool := (hexDigit? c).isSome

/-- The rest after one character if it is one of `cs`. -/
def skipOneOf (cs : List Char) : List Char → List Char
  | c :: rest => if cs.contains c then rest else c :: rest
  | [] => []

/-- The rest of a number after its whole part: perhaps a point and digits. -/
def skipFraction : List Char → List Char
  | '.' :: rest => rest.dropWhile Char.isDigit
  | rest => rest

/-- Whether a text starts with an exponent's letter. -/
def startsExponent : List Char → Bool
  | c :: _ => c == 'e' || c == 'E'
  | [] => false

/-- The rest of a number after its fraction: perhaps an exponent, whose digits may be missing. -/
def skipExponent (text : List Char) : List Char :=
  if startsExponent text then (skipOneOf ['+', '-'] (text.drop 1)).dropWhile Char.isDigit else text

/-- Whether a number starts with a zero and an octal digit. -/
def startsOctal : List Char → Bool
  | '0' :: c :: _ => '0' ≤ c && c ≤ '7'
  | _ => false

/-- The first `n` characters of a text. -/
def firstChars (n : Nat) (text : List Char) : String := String.ofList (text.take n)

/-- A decimal number, which may start with its point. -/
def lexDecimal (text : List Char) : Lexed :=
  let fraction := skipFraction (text.dropWhile Char.isDigit)
  let length := text.length - (skipExponent fraction).length
  { kind := .number, length := length, value := firstChars length text
    flags := { octal := startsOctal text, scientific := startsExponent fraction } }

/-- A number. -/
def lexNumber (text : List Char) : Lexed :=
  match text with
  | '0' :: x :: digits =>
    if x == 'x' || x == 'X' then
      let length := (digits.takeWhile isHexDigit).length + 2
      { kind := .number, length := length, value := firstChars length text
        flags := { hex := true } }
    else lexDecimal text
  | _ => lexDecimal text

/-- An identifier or a reserved word that starts with `c`. -/
def lexName (c : Char) (text : List Char) : Lexed :=
  let name := String.ofList (c :: text.takeWhile Text.isIdentPart)
  { kind := ((Word.ofText? name).map TokenKind.word).getD .identifier
    length := (text.takeWhile Text.isIdentPart).length + 1
    value := name }

/-- The longest mark at the front of a text, or a character that starts no token. -/
def lexMark (text : List Char) : Lexed :=
  match Mark.byLength.find? (·.text.toList.isPrefixOf text) with
  | some m => { kind := .mark m, length := m.text.length, value := "" }
  | none => { kind := .unknown, length := 1, value := "", fault := some .invalidCharacter }

/-- Whether a text starts with a point and a digit. -/
def startsPointDigit : List Char → Bool
  | '.' :: d :: _ => d.isDigit
  | _ => false

/-- The token at the front of a text. -/
def lexToken : List Char → Lexed
  | [] => { kind := .endOfFile, length := 0, value := "" }
  | c :: text =>
    if c == '\'' || c == '"' then lexString c text
    else if c.isDigit || startsPointDigit (c :: text) then lexNumber (c :: text)
    else if Text.isIdentStart c then lexName c text
    else lexMark (c :: text)

/-- What scanning one token gave. -/
structure Scanned where
  token : Token
  comments : List Comment
  errors : List SyntaxError
  deriving Repr, DecidableEq, Inhabited

/-- Reads the token that follows offset `pos` of a text. -/
def scanAt (text : List Char) (pos : Nat) : Scanned :=
  let s := skipTrivia .blank pos (text.drop pos)
  let l := lexToken s.rest
  { token :=
      { kind := l.kind, span := ⟨s.pos, s.pos + l.length⟩, value := l.value
        flags := { l.flags with lineBreakBefore := s.lineBreak } }
    comments := s.comments
    errors :=
      (s.unclosed.map (⟨·, .unterminatedComment⟩)).toList ++ (l.fault.map (⟨s.pos, ·⟩)).toList }

/-! ### Regular expressions -/

/-- The length of a regular expression after its first slash, or after some of its characters, and
whether it is closed. A slash in a character class does not close it. -/
def regexRest (inClass : Bool) : List Char → Nat × Bool
  | [] => (0, false)
  | '\\' :: [] => (1, false)
  | '\\' :: c :: rest =>
    if Text.isLineBreak c then (1, false)
    else
      let (n, closed) := regexRest inClass rest
      (n + 2, closed)
  | c :: rest =>
    if c == '/' && !inClass then ((rest.takeWhile Text.isIdentPart).length + 1, true)
    else if Text.isLineBreak c then (0, false)
    else
      let (n, closed) := regexRest (if c == '[' then true else if c == ']' then false else inClass) rest
      (n + 1, closed)

/-- Reads the token `t` of a text again, as a regular expression. -/
def rescanRegex (text : List Char) (t : Token) : Token × List SyntaxError :=
  let (n, closed) := regexRest false (text.drop (t.span.pos + 1))
  let stop := t.span.pos + 1 + n
  ({ kind := .regex, span := ⟨t.span.pos, stop⟩
     value := firstChars (n + 1) (text.drop t.span.pos)
     flags := { t.flags with unterminated := !closed || t.flags.unterminated } },
    if closed then [] else [⟨t.span.pos, .unterminatedRegex⟩])

end Script
end Countersign
