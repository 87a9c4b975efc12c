/-
# Scanning a program

A scanner walks through the text of a program token by token. It can look ahead, which leaves the
current token alone. Comments and errors are kept however they were come across, each once.

Key definitions: `Scanner`, `Scanner.scan`, `Scanner.peek`, `Scanner.rescanSlash`.
-/
import Countersign.Script.Token

namespace Countersign
namespace Script

/-- A text, the current token, and what was noticed on the way. -/
structure Scanner where
  text : List Char
  token : Token
  /-- Block comments in order. -/
  comments : List Comment
  /-- Where the last recorded comment ends. -/
  commentsEnd : Nat
  errors : List SyntaxError
  deriving Repr, Inhabited

namespace Scanner

/-- The scanner before the first token. -/
def ofText (text : String) : Scanner where
  text := text.toList
  token := { kind := .unknown, span := ⟨0, 0⟩, value := "", flags := {} }
  comments := []
  commentsEnd := 0
  errors := []

/-- Records a comment, unless it lies before the end of those recorded. -/
def addComment (s : Scanner) (c : Comment) : Scanner :=
  if s.commentsEnd ≤ c.span.pos then
    { s with comments := s.comments ++ [c], commentsEnd := c.span.stop }
  else s

/-- Records an error, unless there is one at its place. -/
def addError (s : Scanner) (e : SyntaxError) : Scanner :=
  if s.errors.any (·.pos == e.pos) then s else { s with errors := s.errors ++ [e] }

/-- Goes on to the next token. -/
def scan (s : Scanner) : Scanner :=
  let r := scanAt s.text s.token.span.stop
  r.errors.foldl addError (r.comments.foldl addComment { s with token := r.token })

/-- Reads the current token again, as a regular expression. -/
def rescanSlash (s : Scanner) : Scanner :=
  let (token, errors) := rescanRegex s.text s.token
  errors.foldl addError { s with token := token }

/-- The next `n` tokens, and the scanner at the current token again. What was noticed on the way
is kept. -/
def peek (s : Scanner) : Nat → List Token × Scanner
  | 0 => ([], s)
  | n + 1 =>
    let next := s.scan
    let (more, last) := next.peek n
    (next.token :: more, { last with token := s.token })

/-- Passes over a first line that starts with `#!`. -/
def skipShebang (s : Scanner) : Scanner :=
  if s.token.span.stop == 0 && ['#', '!'].isPrefixOf s.text then
    let stop := (s.text.takeWhile (!Text.isLineBreak ·)).length
    { s with token := { s.token with span := ⟨s.token.span.pos, stop⟩ } }
  else s

/-- The tokens from here to the end of the text, at most `limit`, and the scanner after them. -/
def scanAllWithin : Nat → Scanner → List Token × Scanner
  | 0, s => ([], s)
  | limit + 1, s =>
    let s := s.scan
    if s.token.kind = .endOfFile then ([s.token], s)
    else
      let (more, last) := scanAllWithin limit s
      (s.token :: more, last)

/-- The tokens from here to the end of the text, and the scanner after them. Every token but the
last one takes at least a character. -/
def scanAll (s : Scanner) : List Token × Scanner := scanAllWithin (s.text.length + 1) s

/-- The errors so far, which are not given again. -/
def takeErrors (s : Scanner) : List SyntaxError × Scanner := (s.errors, { s with errors := [] })

/-- The comments so far, which are not given again. -/
def takeComments (s : Scanner) : List Comment × Scanner := (s.comments, { s with comments := [] })

end Scanner
end Script
end Countersign
