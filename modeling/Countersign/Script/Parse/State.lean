/-
# The state of reading a program

Reading a program walks a scanner along, remembers where the last token ended, and collects
errors. It never stops at an error: missing tokens are reported and reading goes on. It does stop,
with no result, when a bound on the work runs out; `Script.parse` gives a bound that is enough for
every text whose reading comes to an end.

Key definitions: `ParseState`, `Parse`, and the basic moves `next`, `accept`, `expect`,
`expectSemicolon`, `report`.
-/
import Countersign.Script.Scanner
import Countersign.Script.Tree

namespace Countersign
namespace Script

/-- Where reading stands. -/
structure ParseState where
  scanner : Scanner
  /-- Where the last token that was passed ends. -/
  lastEnd : Nat
  /-- Whether `in` ends an expression, as in the head of a `for` loop. -/
  noIn : Bool
  /-- Errors of the grammar, the latest first. -/
  errors : List SyntaxError
  /-- How many expressions the current one is nested in. -/
  depth : Nat
  deriving Inhabited

/-- A step of reading. It has no result if the bound on the work ran out. -/
abbrev Parse := StateT ParseState Option

namespace Parse

/-- The bound on the work has run out. -/
def stuck {α : Type} : Parse α := fun _ => none

/-- The current token. -/
def token : Parse Token := do return (← get).scanner.token

/-- The kind of the current token. -/
def kind : Parse TokenKind := do return (← token).kind

/-- Where the current token starts. -/
def pos : Parse Nat := do return (← token).span.pos

/-- Where the last token that was passed ends. -/
def lastEnd : Parse Nat := do return (← get).lastEnd

/-- The span from `start` to the end of the last token that was passed. -/
def spanFrom (start : Nat) : Parse Span := do return ⟨start, ← lastEnd⟩

/-- Whether a line ends before the current token. -/
def lineBreakBefore : Parse Bool := do return (← token).flags.lineBreakBefore

/-- Passes the current token. -/
def next : Parse Unit :=
  modify fun s => { s with lastEnd := s.scanner.token.span.stop, scanner := s.scanner.scan }

/-- Whether the current token is of kind `k`. -/
def at? (k : TokenKind) : Parse Bool := do return (← kind) == k

/-- Whether the current token is the mark `m`. -/
def atMark (m : Mark) : Parse Bool := at? (.mark m)

/-- Whether the current token is the word `w`. -/
def atWord (w : Word) : Parse Bool := at? (.word w)

/-- The kind of the token after the current one. -/
def peekKind : Parse TokenKind := do
  let s ← get
  let (tokens, scanner) := s.scanner.peek 1
  set { s with scanner := scanner }
  return (tokens.map (·.kind)).headD .endOfFile

/-- Reports a fault at the current token, unless the last report was about it. -/
def report (f : Fault) : Parse Unit := do
  let pos ← pos
  modify fun s =>
    if (s.errors.head?.map (·.pos)) == some pos then s
    else { s with errors := ⟨pos, f⟩ :: s.errors }

/-- Passes the current token if it is of kind `k`, and says whether it was. -/
def accept (k : TokenKind) : Parse Bool := do
  if ← at? k then
    next
    return true
  else return false

/-- Passes the mark `m` if it comes next, and says whether it did. -/
def acceptMark (m : Mark) : Parse Bool := accept (.mark m)

/-- Passes a token of kind `k`, or reports that it is missing. -/
def expect (k : TokenKind) : Parse Unit := do
  unless ← accept k do report (.missing k)

/-- Passes the mark `m`, or reports that it is missing. -/
def expectMark (m : Mark) : Parse Unit := expect (.mark m)

/-- Passes the end of a statement: a semicolon, or nothing where one may be left out, which is
before a closing brace, at the end of the text and at the end of a line. -/
def expectSemicolon : Parse Unit := do
  if ← atMark .semicolon then next
  else if (← atMark .closeBrace) || (← at? .endOfFile) || (← lineBreakBefore) then return ()
  else report (.missing (.mark .semicolon))

/-- Reads with `in` as an operator or not, and goes back to how it was before. -/
def withNoIn {α : Type} (noIn : Bool) (p : Parse α) : Parse α := do
  let saved := (← get).noIn
  modify fun s => { s with noIn := noIn }
  let a ← p
  modify fun s => { s with noIn := saved }
  return a

/-- Repeats `item` while `more` holds, at most `limit` times. -/
def repeatWhile {α : Type} (more : Parse Bool) (item : Parse α) : Nat → Parse (List α)
  | 0 => stuck
  | limit + 1 => do
    if ← more then
      let a ← item
      let rest ← repeatWhile more item limit
      return a :: rest
    else return []

/-- Reads items with commas between them while `more` holds; one comma may follow the last. -/
def commaList {α : Type} (more : Parse Bool) (item : Parse α) : Nat → Parse (List α)
  | 0 => stuck
  | limit + 1 => do
    if ← more then
      let a ← item
      if ← acceptMark .comma then
        let rest ← commaList more item limit
        return a :: rest
      else return [a]
    else return []

/-- Whether neither the mark `m` nor the end of the text comes next. -/
def before (m : Mark) : Parse Bool := do
  return !(← atMark m) && !(← at? .endOfFile)

end Parse
end Script
end Countersign
