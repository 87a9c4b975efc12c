/-
# Reading programs

`Rules.within` ties the knot of the grammar: its number bounds how deep constructs may be nested.
Each level of nesting costs at least a token, and each round of a list too, so the length of the
text gives a bound that is enough for every text whose reading comes to an end. Reading does not
come to an end where the statements of a clause are nested deeper than expressions may be; such a
program is reported as too involved.

Key definitions: `Script.parseWithin`, `Script.parse`.
-/
import Countersign.Script.Parse.Statement

namespace Countersign
namespace Script

/-- The rules for constructs nested less than a number of levels deep. -/
def Rules.within (bound : Nat) : Nat → Rules
  | 0 => ⟨bound, Parse.stuck, Parse.stuck, fun _ => Parse.stuck, Parse.stuck, Parse.stuck, Parse.stuck⟩
  | depth + 1 =>
    { bound := bound
      expression := fun s => Rule.expression (Rules.within bound depth) s
      assignment := fun s => Rule.assignment (Rules.within bound depth) s
      binary := fun least s => Rule.binary (Rules.within bound depth) least s
      unary := fun s => Rule.unary (Rules.within bound depth) s
      construct := fun s => Rule.construct (Rules.within bound depth) s
      statement := fun s => Rule.statement (Rules.within bound depth) s }

/-- Where reading starts: before the first token, after a first line that starts with `#!`. -/
def ParseState.ofText (text : String) : ParseState where
  scanner := (Scanner.ofText text).skipShebang
  lastEnd := 0
  noIn := false
  errors := []
  depth := 0

namespace Rule

open Parse

/-- The statements of a program. A closing brace that closes nothing is reported and passed. -/
def program (r : Rules) : Nat → Parse (List Stmt)
  | 0 => stuck
  | limit + 1 => do
    let ss ← statements r
    if ← atMark .closeBrace then
      report .statementExpected
      next
      let more ← program r limit
      return ss ++ more
    else return ss

end Rule

/-- Puts an error before those that come later in the text. -/
def insertError (e : SyntaxError) : List SyntaxError → List SyntaxError
  | [] => [e]
  | f :: es => if e.pos ≤ f.pos then e :: f :: es else f :: insertError e es

/-- The errors by offset; those at one offset keep their order. -/
def sortErrors (es : List SyntaxError) : List SyntaxError := es.foldr insertError []

/-- Reads a program with constructs nested, and lists continued, at most `bound` times. -/
def parseWithin (bound : Nat) (text : String) : Option Script := do
  let read : Parse (List Stmt) := do
    Parse.next
    Rule.program (Rules.within bound bound) bound
  let (statements, s) ← read (ParseState.ofText text)
  return {
    length := text.length
    statements := statements
    comments := s.scanner.comments
    errors := sortErrors (s.scanner.errors ++ s.errors.reverse) }

/-- Reads a program. -/
def parse (text : String) : Script :=
  (parseWithin (text.length + 3) text).getD
    { length := text.length, statements := [], comments := [], errors := [⟨0, .tooInvolved⟩] }

end Script
end Countersign
