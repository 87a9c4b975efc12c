/-
# Syntax trees of programs

The statements and expressions of the programs that are checked: those of ECMAScript 5 together
with `let` and `const`. Every node carries the span of text it was read from.

Key definitions: `Expr`, `Stmt`, `Block`, `Expr.span`, `Stmt.span`, `Script`.
-/
import Countersign.Script.Token

namespace Countersign
namespace Script

/-- An identifier. One that stands for a missing name is faulty and has no text. -/
structure Ident where
  span : Span
  text : String
  faulty : Bool := false
  deriving Repr, DecidableEq, Inhabited

/-- A parameter of a function. -/
structure Param where
  span : Span
  name : Ident
  deriving Repr, DecidableEq, Inhabited

/-- A string literal: its characters, and whether its quotes are single. -/
structure StringLit where
  span : Span
  text : String
  single : Bool
  deriving Repr, DecidableEq, Inhabited

/-- A number literal as written. -/
structure NumberLit where
  span : Span
  text : String
  scientific : Bool
  hex : Bool
  octal : Bool
  deriving Repr, DecidableEq, Inhabited

/-- The name of a property in an object literal. -/
inductive PropertyName where
  | ident (i : Ident)
  | string (s : StringLit)
  | number (n : NumberLit)
  deriving Repr, DecidableEq, Inhabited

/-- The key that the name introduces. -/
def PropertyName.key : PropertyName → String
  | ident i => i.text
  | string s => s.text
  | number n => n.text

/-- Operators that are words and stand before their operand. -/
inductive WordOp where
  | delete
  | typeof
  | void
  deriving Repr, DecidableEq, Inhabited

/-- The word that opens a list of declarations. -/
inductive DeclKind where
  | var
  | let
  | const
  deriving Repr, DecidableEq, Inhabited

mutual

/-- An expression. -/
inductive Expr where
  | ident (i : Ident)
  | string (s : StringLit)
  | number (n : NumberLit)
  | regex (span : Span) (text : String)
  | array (span : Span) (elements : List Expr)
  | object (span : Span) (properties : List Property)
  | member (span : Span) (object : Expr) (name : Ident)
  | index (span : Span) (object : Expr) (index : Expr)
  | call (span : Span) (callee : Expr) (args : List Expr)
  /-- A construction with `new`; `listed` says whether it has a list of arguments. -/
  | construct (span : Span) (callee : Expr) (listed : Bool) (args : List Expr)
  | paren (span : Span) (inner : Expr)
  | function (span : Span) (name : Option Ident) (params : List Param) (body : Block)
  | wordOp (span : Span) (op : WordOp) (operand : Expr)
  /-- An operator before its operand. -/
  | before (span : Span) (op : Mark) (operand : Expr)
  /-- An operator after its operand. -/
  | after (span : Span) (operand : Expr) (op : Mark)
  | binary (span : Span) (left : Expr) (op : TokenKind) (right : Expr)
  | conditional (span : Span) (test yes no : Expr)
  /-- A hole in an array literal, or a missing expression. -/
  | omitted (span : Span) (faulty : Bool)
  | this (span : Span)
  | null (span : Span)
  | boolean (span : Span) (value : Bool)

/-- A property of an object literal. -/
inductive Property where
  | mk (span : Span) (name : PropertyName) (value : Expr)

/-- A statement. -/
inductive Stmt where
  | declaration (span : Span) (decls : DeclList)
  | function (span : Span) (name : Ident) (params : List Param) (body : Block)
  | block (b : Block)
  | empty (span : Span)
  | expression (span : Span) (e : Expr)
  | ifElse (span : Span) (test : Expr) (yes : Stmt) (no : Option Stmt)
  | doWhile (span : Span) (body : Stmt) (test : Expr)
  | whileDo (span : Span) (test : Expr) (body : Stmt)
  | forLoop (span : Span) (init : ForInit) (test update : Option Expr) (body : Stmt)
  | forIn (span : Span) (init : ForInit) (object : Expr) (body : Stmt)
  | continueTo (span : Span) (label : Option Ident)
  | breakTo (span : Span) (label : Option Ident)
  | returnWith (span : Span) (value : Option Expr)
  | switchOn (span : Span) (subject : Expr) (clauses : List Clause)
  | labeled (span : Span) (label : Ident) (body : Stmt)
  | throwing (span : Span) (value : Expr)
  | tryCatch (span : Span) (body : Block) (handler : Handler) (finalizer : Option Block)
  | debugger (span : Span)

/-- Statements in braces. -/
inductive Block where
  | mk (span : Span) (body : List Stmt)

/-- Declarations after one word. -/
inductive DeclList where
  | mk (span : Span) (kind : DeclKind) (decls : List Decl)

/-- A declared variable, perhaps with its first value. -/
inductive Decl where
  | mk (span : Span) (name : Ident) (init : Option Expr)

/-- The first part of the head of a `for` loop. -/
inductive ForInit where
  | none
  | decls (l : DeclList)
  | expr (e : Expr)

/-- A clause of a `switch`; the default clause has no test. -/
inductive Clause where
  | mk (span : Span) (test : Option Expr) (body : List Stmt)

/-- The handler of a `try` statement, if it has one. -/
inductive Handler where
  | none
  | catching (span : Span) (name : Ident) (body : Block)

end

instance : Inhabited Expr := ⟨.omitted default false⟩
instance : Inhabited Stmt := ⟨.empty default⟩
instance : Inhabited Block := ⟨.mk default []⟩
instance : Inhabited Property := ⟨.mk default default default⟩
instance : Inhabited DeclList := ⟨.mk default default []⟩
instance : Inhabited Decl := ⟨.mk default default Option.none⟩
instance : Inhabited Clause := ⟨.mk default Option.none []⟩

/-- The span of an expression. -/
def Expr.span : Expr → Span
  | ident i => i.span
  | string s => s.span
  | number n => n.span
  | regex span _ => span
  | array span _ => span
  | object span _ => span
  | member span _ _ => span
  | index span _ _ => span
  | call span _ _ => span
  | construct span _ _ _ => span
  | paren span _ => span
  | function span _ _ _ => span
  | wordOp span _ _ => span
  | before span _ _ => span
  | after span _ _ => span
  | binary span _ _ _ => span
  | conditional span _ _ _ => span
  | omitted span _ => span
  | this span => span
  | null span => span
  | boolean span _ => span

/-- The offset where an expression starts. -/
def Expr.pos (e : Expr) : Nat := e.span.pos

namespace Expr

/-- The expression inside any number of parentheses. -/
def skipParens : Expr → Expr
  | paren _ inner => inner.skipParens
  | e => e

/-- The name of an identifier, looking through parentheses. -/
def identText? (e : Expr) : Option String :=
  match e.skipParens with
  | ident i => some i.text
  | _ => none

/-- Whether this is the property `name` of the identifier `object`, looking through
parentheses. -/
def isMemberOf (e : Expr) (object name : String) : Bool :=
  match e.skipParens with
  | member _ o n => n.text == name && o.identText? == some object
  | _ => false

end Expr

namespace Block

/-- The span of a block. -/
def span : Block → Span
  | mk span _ => span

/-- The statements of a block. -/
def body : Block → List Stmt
  | mk _ body => body

end Block

/-- The span of a statement. -/
def Stmt.span : Stmt → Span
  | declaration span _ => span
  | function span _ _ _ => span
  | block b => b.span
  | empty span => span
  | expression span _ => span
  | ifElse span _ _ _ => span
  | doWhile span _ _ => span
  | whileDo span _ _ => span
  | forLoop span _ _ _ _ => span
  | forIn span _ _ _ => span
  | continueTo span _ => span
  | breakTo span _ => span
  | returnWith span _ => span
  | switchOn span _ _ => span
  | labeled span _ _ => span
  | throwing span _ => span
  | tryCatch span _ _ _ => span
  | debugger span => span

/-- The offset where a statement starts. -/
def Stmt.pos (s : Stmt) : Nat := s.span.pos

end Script

/-- A program as read from its text: its statements, every block comment in order, and what is
wrong with the text, by offset. -/
structure Script where
  /-- The number of characters of the text. -/
  length : Nat
  statements : List Script.Stmt
  comments : List Script.Comment
  errors : List Script.SyntaxError
  deriving Inhabited

end Countersign
