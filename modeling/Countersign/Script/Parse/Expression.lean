/-
# Reading expressions

The grammar of expressions, from the tightest binding to the loosest: primary expressions, members
and calls, operators after and before an operand, binary operators by level, conditionals,
assignments and comma lists.

A rule that needs an expression nested in what it reads, or a statement in the body of a function,
takes the rules for those as a parameter, `Rules`; each of them is used only after at least one
token has been passed.

Key definitions: `Rules`, `Rule.primary`, `Rule.binary`, `Rule.assignment`, `Rule.expression`.
-/
import Countersign.Script.Parse.State

namespace Countersign
namespace Script

/-- The rules for nested expressions and statements, and a bound on the length of lists. -/
structure Rules where
  bound : Nat
  expression : Parse Expr
  assignment : Parse Expr
  /-- Operators that bind tighter than a level. -/
  binary : Nat → Parse Expr
  unary : Parse Expr
  construct : Parse Expr
  statement : Parse Stmt

/-- How tightly a token binds as a binary operator, if it is one. Assignment is not: it associates
to the right and is read on its own. -/
def TokenKind.level? : TokenKind → Option Nat
  | .mark .barBar => some 1
  | .mark .ampAmp => some 2
  | .mark .bar => some 3
  | .mark .caret => some 4
  | .mark .amp => some 5
  | .mark .eqEq => some 6
  | .mark .notEq => some 6
  | .mark .eqEqEq => some 6
  | .mark .notEqEq => some 6
  | .mark .less => some 7
  | .mark .greater => some 7
  | .mark .lessEq => some 7
  | .mark .greaterEq => some 7
  | .word .instanceofWord => some 7
  | .word .inWord => some 7
  | .mark .shiftLeft => some 8
  | .mark .shiftRight => some 8
  | .mark .shiftRightZero => some 8
  | .mark .plus => some 9
  | .mark .minus => some 9
  | .mark .star => some 10
  | .mark .slash => some 10
  | .mark .percent => some 10
  | _ => none

/-- The token as an operator before its operand, if it is one. -/
def TokenKind.beforeMark? : TokenKind → Option Mark
  | .mark .plusPlus => some .plusPlus
  | .mark .minusMinus => some .minusMinus
  | .mark .plus => some .plus
  | .mark .minus => some .minus
  | .mark .tilde => some .tilde
  | .mark .bang => some .bang
  | _ => none

/-- The token as an operator after its operand, if it is one. -/
def TokenKind.afterMark? : TokenKind → Option Mark
  | .mark .plusPlus => some .plusPlus
  | .mark .minusMinus => some .minusMinus
  | _ => none

/-- The token as an operator that is a word, if it is one. -/
def TokenKind.wordOp? : TokenKind → Option WordOp
  | .word .typeofWord => some .typeof
  | .word .deleteWord => some .delete
  | .word .voidWord => some .void
  | _ => none

/-- Whether an expression may be assigned to, looking through parentheses. -/
def Expr.isTarget (e : Expr) : Bool :=
  match e.skipParens with
  | .ident _ => true
  | .member _ _ _ => true
  | .index _ _ _ => true
  | _ => false

/-- How deep expressions may be nested in parentheses, brackets, arguments and functions. -/
def maxDepth : Nat := 200

namespace Rule

open Parse

/-- A name that is bound here. Reserved words are not names; a token that is none is passed, unless
it may be needed to close what surrounds it. -/
def identifier : Parse Ident := do
  let t ← token
  if t.kind == .identifier then
    next
    return ⟨t.span, t.value, false⟩
  else
    report .identifierExpected
    unless t.kind == .endOfFile || t.kind == .mark .closeBrace do next
    return ⟨t.span, "", true⟩

/-- The name of a property, which may be a reserved word. -/
def propertyIdent : Parse Ident := do
  let t ← token
  if t.kind.isWord then
    next
    return ⟨t.span, t.value, false⟩
  else identifier

/-- A number literal. -/
def numberLit : Parse NumberLit := do
  let t ← token
  next
  return ⟨t.span, t.value, t.flags.scientific, t.flags.hex, t.flags.octal⟩

/-- A string literal. -/
def stringLit : Parse StringLit := do
  let t ← token
  let text := (← get).scanner.text
  next
  return ⟨t.span, t.value, (text.drop t.span.pos).head? == some '\''⟩

/-- A regular expression whose first slash has been taken for an operator. -/
def regexLit : Parse Expr := do
  modify fun s => { s with scanner := s.scanner.rescanSlash }
  let t ← token
  next
  return .regex t.span t.value

/-- An expression is missing. The token there is passed, unless it ends a statement or a block. -/
def missing : Parse Expr := do
  let t ← token
  report .expressionExpected
  unless t.kind == .endOfFile || t.kind == .mark .closeBrace || t.kind == .mark .semicolon do next
  return .omitted ⟨t.span.pos, t.span.pos⟩ true

/-- An expression in parentheses. -/
def paren (r : Rules) : Parse Expr := do
  let start ← pos
  expectMark .openParen
  let e ← withNoIn false r.expression
  expectMark .closeParen
  return .paren (← spanFrom start) e

/-- An element of an array literal, or a hole where a comma comes at once. -/
def element (r : Rules) : Parse Expr := do
  if ← atMark .comma then
    let start ← pos
    return .omitted ⟨start, start⟩ false
  else r.assignment

/-- An array literal. -/
def arrayLit (r : Rules) : Parse Expr := do
  let start ← pos
  expectMark .openBracket
  let es ← withNoIn false (commaList (before .closeBracket) (element r) r.bound)
  expectMark .closeBracket
  return .array (← spanFrom start) es

/-- The arguments of a call. -/
def arguments (r : Rules) : Parse (List Expr) := do
  expectMark .openParen
  let es ← withNoIn false (commaList (before .closeParen) r.assignment r.bound)
  expectMark .closeParen
  return es

/-- A parameter of a function. -/
def param : Parse Param := do
  let start ← pos
  let name ← identifier
  return ⟨← spanFrom start, name⟩

/-- The parameters of a function. -/
def params (r : Rules) : Parse (List Param) := do
  expectMark .openParen
  let ps ← commaList (before .closeParen) param r.bound
  expectMark .closeParen
  return ps

/-- Whether reading can go on here after an error: at a closing brace, a word that begins a
statement, or the end of the text. -/
def atSync : Parse Bool := do
  let k ← kind
  return k == .endOfFile || k == .mark .closeBrace || k.beginsStatement

/-- Passes tokens up to one where reading can go on. -/
def synchronize (r : Rules) : Parse Unit := do
  let _ ← repeatWhile (do return !(← atSync)) next r.bound
  return ()

/-- A statement of a list. If it passes no token, one is dropped and reading goes on at the next
statement. -/
def listedStatement (r : Rules) : Parse Stmt := do
  let start ← pos
  let s ← r.statement
  if (← pos) == start then
    next
    synchronize r
  return s

/-- Statements up to a closing brace or the end of the text. -/
def statements (r : Rules) : Parse (List Stmt) :=
  repeatWhile (before .closeBrace) (listedStatement r) r.bound

/-- Statements in braces. -/
def block (r : Rules) : Parse Block := do
  let start ← pos
  expectMark .openBrace
  let ss ← statements r
  expectMark .closeBrace
  return .mk (← spanFrom start) ss

/-- The body of a function. -/
def functionBody (r : Rules) : Parse Block := withNoIn false (block r)

/-- A function expression, perhaps with a name. -/
def functionExpr (r : Rules) : Parse Expr := do
  let start ← pos
  expect (.word .functionWord)
  let name ← if ← at? .identifier then some <$> identifier else pure none
  let ps ← params r
  let body ← functionBody r
  return .function (← spanFrom start) name ps body

/-- Whether a property starts like an accessor: `get` or `set` and another name. -/
def atAccessor : Parse Bool := do
  let t ← token
  if t.value == "get" || t.value == "set" then return (← peekKind).isName else return false

/-- Reports an accessor, which is not supported, and passes it. -/
def skipAccessor (r : Rules) : Parse Unit := do
  report .unsupported
  next
  next
  let _ ← params r
  let _ ← functionBody r
  return ()

/-- A property after its name. -/
def propertyValue (r : Rules) (start : Nat) (name : PropertyName) : Parse (Option Property) := do
  expectMark .colon
  let value ← r.assignment
  return some (.mk (← spanFrom start) name value)

/-- A property of an object literal, or nothing where there is none. -/
def property (r : Rules) : Parse (Option Property) := do
  let t ← token
  match t.kind with
  | .string => propertyValue r t.span.pos (.string (← stringLit))
  | .number => propertyValue r t.span.pos (.number (← numberLit))
  | k =>
    if k.isName then
      if ← atAccessor then
        skipAccessor r
        return none
      else propertyValue r t.span.pos (.ident (← propertyIdent))
    else
      report .propertyExpected
      next
      return none

/-- An object literal. -/
def objectLit (r : Rules) : Parse Expr := do
  let start ← pos
  expectMark .openBrace
  let ps ← withNoIn false (commaList (before .closeBrace) (property r) r.bound)
  expectMark .closeBrace
  return .object (← spanFrom start) (ps.filterMap id)

/-- Passes a token that is an expression of its own. -/
def single (e : Span → Expr) : Parse Expr := do
  let t ← token
  next
  return e t.span

/-- An expression that nothing outside binds into. -/
def primary (r : Rules) : Parse Expr := do
  match ← kind with
  | .identifier => return .ident (← identifier)
  | .number => return .number (← numberLit)
  | .string => return .string (← stringLit)
  | .word .trueWord => single (.boolean · true)
  | .word .falseWord => single (.boolean · false)
  | .word .nullWord => single .null
  | .word .thisWord => single .this
  | .mark .openParen => paren r
  | .mark .openBracket => arrayLit r
  | .mark .openBrace => objectLit r
  | .word .functionWord => functionExpr r
  | .mark .slash => regexLit
  | .mark .slashAssign => regexLit
  | _ => missing

/-- Members, indices and, where `calls` allows them, calls after the expression `e`. -/
def tail (r : Rules) (calls : Bool) : Nat → Expr → Parse Expr
  | 0, _ => stuck
  | limit + 1, e => do
    match ← kind with
    | .mark .dot =>
      next
      let name ← propertyIdent
      tail r calls limit (.member (← spanFrom e.pos) e name)
    | .mark .openBracket =>
      next
      let index ← withNoIn false r.expression
      expectMark .closeBracket
      tail r calls limit (.index (← spanFrom e.pos) e index)
    | .mark .openParen =>
      if calls then
        let args ← arguments r
        tail r calls limit (.call (← spanFrom e.pos) e args)
      else return e
    | _ => return e

/-- A construction with `new`. Members of what is constructed belong to it, and so does the first
list of arguments. -/
def construct (r : Rules) : Parse Expr := do
  let start ← pos
  expect (.word .newWord)
  let callee ← if ← atWord .newWord then r.construct else primary r
  let callee ← tail r false r.bound callee
  if ← atMark .openParen then
    let args ← arguments r
    return .construct (← spanFrom start) callee true args
  else return .construct (← spanFrom start) callee false []

/-- A primary expression or construction with its members, indices and calls. -/
def leftHandSide (r : Rules) : Parse Expr := do
  let e ← if ← atWord .newWord then construct r else primary r
  tail r true r.bound e

/-- An expression with an operator after it, which must be on the same line. -/
def suffixed (r : Rules) : Parse Expr := do
  let e ← leftHandSide r
  let t ← token
  match t.kind.afterMark?, t.flags.lineBreakBefore with
  | some op, false =>
    next
    return .after ⟨e.pos, t.span.stop⟩ e op
  | _, _ => return e

/-- An expression with operators before it. -/
def unary (r : Rules) : Parse Expr := do
  let t ← token
  match t.kind.beforeMark?, t.kind.wordOp? with
  | some op, _ =>
    next
    let e ← r.unary
    return .before (← spanFrom t.span.pos) op e
  | none, some op =>
    next
    let e ← r.unary
    return .wordOp (← spanFrom t.span.pos) op e
  | none, none => suffixed r

/-- The current token as a binary operator that binds tighter than `least`, with its level. -/
def operator? (least : Nat) : Parse (Option (TokenKind × Nat)) := do
  let k ← kind
  if k == .word .inWord && (← get).noIn then return none
  else
    match k.level? with
    | some level => if least < level then return some (k, level) else return none
    | none => return none

/-- Binary operators that bind tighter than `least`, and their right operands, after the expression
`left`. -/
def binaryTail (r : Rules) (least : Nat) : Nat → Expr → Parse Expr
  | 0, _ => stuck
  | limit + 1, left => do
    match ← operator? least with
    | some (op, level) =>
      next
      let right ← r.binary level
      binaryTail r least limit (.binary (← spanFrom left.pos) left op right)
    | none => return left

/-- Operands of binary operators that bind tighter than `least`; equal levels associate to the
left. -/
def binary (r : Rules) (least : Nat) : Parse Expr := do
  let left ← unary r
  binaryTail r least r.bound left

/-- A conditional expression. -/
def conditional (r : Rules) : Parse Expr := do
  let test ← binary r 0
  if ← acceptMark .question then
    let yes ← withNoIn false r.assignment
    expectMark .colon
    let no ← r.assignment
    return .conditional (← spanFrom test.pos) test yes no
  else return test

/-- An assignment, or an expression that is none. Assignments associate to the right. -/
def assignment (r : Rules) : Parse Expr := do
  let target ← conditional r
  let op ← kind
  if op.isAssignment then
    unless target.isTarget do report .invalidTarget
    next
    let value ← r.assignment
    return .binary (← spanFrom target.pos) target op value
  else return target

/-- Further expressions after commas. -/
def commaTail (r : Rules) : Nat → Expr → Parse Expr
  | 0, _ => stuck
  | limit + 1, left => do
    if ← acceptMark .comma then
      let right ← assignment r
      commaTail r limit (.binary (← spanFrom left.pos) left (.mark .comma) right)
    else return left

/-- An expression. One that is nested too deep is reported and left out. -/
def expression (r : Rules) : Parse Expr := do
  if maxDepth ≤ (← get).depth then
    report .expressionExpected
    let start ← pos
    return .omitted ⟨start, start⟩ false
  else
    modify fun s => { s with depth := s.depth + 1 }
    let first ← assignment r
    let e ← commaTail r r.bound first
    modify fun s => { s with depth := s.depth - 1 }
    return e

end Rule
end Script
end Countersign
