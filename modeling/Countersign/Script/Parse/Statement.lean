/-
# Reading statements

The grammar of statements, one rule for each kind. As with expressions, statements nested in others
are read by the rules given as a parameter.

Key definitions: `Rule.statement`.
-/
import Countersign.Script.Parse.Expression

namespace Countersign
namespace Script
namespace Rule

open Parse

/-- The kind of declaration that a token opens, if it opens one. -/
def declKind? : TokenKind → Option DeclKind
  | .word .varWord => some .var
  | .word .letWord => some .let
  | .word .constWord => some .const
  | _ => none

/-- A declared variable, perhaps with its first value. -/
def decl (r : Rules) : Parse Decl := do
  let start ← pos
  let name ← identifier
  let init ← if ← acceptMark .assign then some <$> assignment r else pure none
  return .mk (← spanFrom start) name init

/-- One or more declared variables with commas between them. -/
def decls (r : Rules) : Nat → Parse (List Decl)
  | 0 => stuck
  | limit + 1 => do
    let d ← decl r
    if ← acceptMark .comma then
      let rest ← decls r limit
      return d :: rest
    else return [d]

/-- A list of declarations after a word of the given kind. -/
def declList (r : Rules) (k : DeclKind) : Parse DeclList := do
  let start ← pos
  next
  let ds ← decls r r.bound
  return .mk (← spanFrom start) k ds

/-- A statement that is a list of declarations. -/
def declStatement (r : Rules) (k : DeclKind) : Parse Stmt := do
  let start ← pos
  let l ← declList r k
  let span ← spanFrom start
  expectSemicolon
  return .declaration span l

/-- A statement that is a word. -/
def debuggerStatement : Parse Stmt := do
  let start ← pos
  next
  let span ← spanFrom start
  expectSemicolon
  return .debugger span

/-- A statement that is only a semicolon. -/
def emptyStatement : Parse Stmt := do
  let start ← pos
  next
  return .empty (← spanFrom start)

/-- A statement that is an expression. -/
def expressionStatement (r : Rules) : Parse Stmt := do
  let start ← pos
  let e ← expression r
  let span ← spanFrom start
  expectSemicolon
  return .expression span e

/-- An expression in parentheses after a word. -/
def head (r : Rules) : Parse Expr := do
  expectMark .openParen
  let e ← expression r
  expectMark .closeParen
  return e

/-- An `if` statement. -/
def ifStatement (r : Rules) : Parse Stmt := do
  let start ← pos
  next
  let test ← head r
  let yes ← r.statement
  let no ← if ← accept (.word .elseWord) then some <$> r.statement else pure none
  return .ifElse (← spanFrom start) test yes no

/-- A `return` statement. Its value must start on the same line. -/
def returnStatement (r : Rules) : Parse Stmt := do
  let start ← pos
  next
  let k ← kind
  let ends := k == .mark .semicolon || k == .mark .closeBrace || k == .endOfFile
  let value ← if ends || (← lineBreakBefore) then pure none else some <$> expression r
  let span ← spanFrom start
  expectSemicolon
  return .returnWith span value

/-- A `while` loop. -/
def whileStatement (r : Rules) : Parse Stmt := do
  let start ← pos
  next
  let test ← head r
  let body ← r.statement
  return .whileDo (← spanFrom start) test body

/-- A `do` loop; a semicolon may follow it even on the same line. -/
def doStatement (r : Rules) : Parse Stmt := do
  let start ← pos
  next
  let body ← r.statement
  expect (.word .whileWord)
  let test ← head r
  let span ← spanFrom start
  let _ ← acceptMark .semicolon
  return .doWhile span body test

/-- The first part of the head of a `for` loop, in which `in` is no operator. -/
def forInit (r : Rules) : Parse ForInit := do
  if ← atMark .semicolon then return .none
  else
    match declKind? (← kind) with
    | some k => return .decls (← withNoIn true (declList r k))
    | none => return .expr (← withNoIn true (expression r))

/-- A `for` loop over the keys of an object, after its word `in`. A loop without a first part gets
a hole for it. -/
def forInTail (r : Rules) (start : Nat) (init : ForInit) : Parse Stmt := do
  next
  let object ← expression r
  expectMark .closeParen
  let body ← r.statement
  let span ← spanFrom start
  match init with
  | .none =>
    report .expressionExpected
    return .forIn span (.expr (.omitted ⟨start, start⟩ false)) object body
  | init => return .forIn span init object body

/-- An expression, unless the mark `m` comes at once. -/
def unlessMark (r : Rules) (m : Mark) : Parse (Option Expr) := do
  if ← atMark m then return none else some <$> expression r

/-- A `for` loop with three parts, after the first. -/
def forTail (r : Rules) (start : Nat) (init : ForInit) : Parse Stmt := do
  expectMark .semicolon
  let test ← unlessMark r .semicolon
  expectMark .semicolon
  let update ← unlessMark r .closeParen
  expectMark .closeParen
  let body ← r.statement
  return .forLoop (← spanFrom start) init test update body

/-- A `for` loop of either form. -/
def forStatement (r : Rules) : Parse Stmt := do
  let start ← pos
  next
  expectMark .openParen
  let init ← forInit r
  if ← atWord .inWord then forInTail r start init else forTail r start init

/-- A `throw` statement. What is thrown must start on the same line. -/
def throwStatement (r : Rules) : Parse Stmt := do
  let start ← pos
  next
  if ← lineBreakBefore then report .expressionExpected
  let value ← expression r
  let span ← spanFrom start
  expectSemicolon
  return .throwing span value

/-- The handler of a `try` statement, if there is one. -/
def handler (r : Rules) : Parse Handler := do
  if ← atWord .catchWord then
    let start ← pos
    next
    expectMark .openParen
    let name ← identifier
    expectMark .closeParen
    let body ← block r
    return .catching (← spanFrom start) name body
  else return .none

/-- A `try` statement, which needs a handler or a finalizer. -/
def tryStatement (r : Rules) : Parse Stmt := do
  let start ← pos
  next
  let body ← block r
  let h ← handler r
  let f ← if ← accept (.word .finallyWord) then some <$> block r else pure none
  match h, f with
  | .none, none => report .handlerExpected
  | _, _ => pure ()
  return .tryCatch (← spanFrom start) body h f

/-- The label of a jump, which must be on the same line. -/
def label? : Parse (Option Ident) := do
  let t ← token
  if t.kind == .identifier && !t.flags.lineBreakBefore then some <$> identifier else return none

/-- A `break` or `continue` statement. -/
def jumpStatement (jump : Span → Option Ident → Stmt) : Parse Stmt := do
  let start ← pos
  next
  let label ← label?
  let span ← spanFrom start
  expectSemicolon
  return jump span label

/-- Whether a statement of a clause may come next. -/
def beforeClause : Parse Bool := do
  let k ← kind
  return !(k == .word .caseWord || k == .word .defaultWord || k == .mark .closeBrace ||
    k == .endOfFile)

/-- A clause after its first word and test. -/
def clauseTail (r : Rules) (start : Nat) (test : Option Expr) : Parse (Option Clause) := do
  expectMark .colon
  let body ← repeatWhile beforeClause r.statement r.bound
  return some (.mk (← spanFrom start) test body)

/-- A clause of a `switch`; anything else there is reported and passed. -/
def clause (r : Rules) : Parse (Option Clause) := do
  let start ← pos
  match ← kind with
  | .word .caseWord =>
    next
    let test ← expression r
    clauseTail r start (some test)
  | .word .defaultWord =>
    next
    clauseTail r start none
  | _ =>
    report .clauseExpected
    next
    return none

/-- A `switch` statement. -/
def switchStatement (r : Rules) : Parse Stmt := do
  let start ← pos
  next
  let subject ← head r
  expectMark .openBrace
  let clauses ← repeatWhile (before .closeBrace) (clause r) r.bound
  expectMark .closeBrace
  return .switchOn (← spanFrom start) subject (clauses.filterMap id)

/-- A statement with a label. -/
def labeledStatement (r : Rules) : Parse Stmt := do
  let start ← pos
  let label ← identifier
  expectMark .colon
  let body ← r.statement
  return .labeled (← spanFrom start) label body

/-- The declaration of a function. -/
def functionStatement (r : Rules) : Parse Stmt := do
  let start ← pos
  next
  let name ← identifier
  let ps ← params r
  let body ← functionBody r
  return .function (← spanFrom start) name ps body

/-- A statement. -/
def statement (r : Rules) : Parse Stmt := do
  match ← kind with
  | .mark .semicolon => emptyStatement
  | .word .debuggerWord => debuggerStatement
  | .mark .openBrace => return .block (← block r)
  | .word .varWord => declStatement r .var
  | .word .letWord => declStatement r .let
  | .word .constWord => declStatement r .const
  | .word .functionWord => functionStatement r
  | .word .ifWord => ifStatement r
  | .word .returnWord => returnStatement r
  | .word .whileWord => whileStatement r
  | .word .forWord => forStatement r
  | .word .doWord => doStatement r
  | .word .throwWord => throwStatement r
  | .word .tryWord => tryStatement r
  | .word .breakWord => jumpStatement .breakTo
  | .word .continueWord => jumpStatement .continueTo
  | .word .switchWord => switchStatement r
  | .word .withWord =>
    report .unsupported
    next
    r.statement
  | .identifier =>
    if (← peekKind) == .mark .colon then labeledStatement r else expressionStatement r
  | _ => expressionStatement r

end Rule
end Script
end Countersign
