/-
# Kinds of tokens in programs

The marks and reserved words of the programs that are checked, and the classes of tokens that the
grammar distinguishes.

Key definitions: `Mark`, `Word`, `TokenKind`, `Mark.spellings`, `Word.ofText?`.
-/

namespace Countersign
namespace Script

/-- Marks and operators. -/
inductive Mark where
  | openBrace
  | closeBrace
  | openParen
  | closeParen
  | openBracket
  | closeBracket
  | dot
  | semicolon
  | comma
  | less
  | greater
  | lessEq
  | greaterEq
  | eqEq
  | notEq
  | eqEqEq
  | notEqEq
  | plus
  | minus
  | star
  | slash
  | percent
  | plusPlus
  | minusMinus
  | shiftLeft
  | shiftRight
  | shiftRightZero
  | amp
  | bar
  | caret
  | bang
  | tilde
  | ampAmp
  | barBar
  | question
  | colon
  | assign
  | plusAssign
  | minusAssign
  | starAssign
  | slashAssign
  | percentAssign
  | shiftLeftAssign
  | shiftRightAssign
  | shiftRightZeroAssign
  | ampAssign
  | barAssign
  | caretAssign
  deriving Repr, DecidableEq, Inhabited

namespace Mark

/-- How the mark is written. -/
def text : Mark → String
  | openBrace => "\x7b"
  | closeBrace => "\x7d"
  | openParen => "("
  | closeParen => ")"
  | openBracket => "["
  | closeBracket => "]"
  | dot => "."
  | semicolon => ";"
  | comma => ","
  | less => "<"
  | greater => ">"
  | lessEq => "<="
  | greaterEq => ">="
  | eqEq => "=="
  | notEq => "!="
  | eqEqEq => "==="
  | notEqEq => "!=="
  | plus => "+"
  | minus => "-"
  | star => "*"
  | slash => "/"
  | percent => "%"
  | plusPlus => "++"
  | minusMinus => "--"
  | shiftLeft => "<<"
  | shiftRight => ">>"
  | shiftRightZero => ">>>"
  | amp => "&"
  | bar => "|"
  | caret => "^"
  | bang => "!"
  | tilde => "~"
  | ampAmp => "&&"
  | barBar => "||"
  | question => "?"
  | colon => ":"
  | assign => "="
  | plusAssign => "+="
  | minusAssign => "-="
  | starAssign => "*="
  | slashAssign => "/="
  | percentAssign => "%="
  | shiftLeftAssign => "<<="
  | shiftRightAssign => ">>="
  | shiftRightZeroAssign => ">>>="
  | ampAssign => "&="
  | barAssign => "|="
  | caretAssign => "^="

/-- All marks, the longest first, so that the first one that matches is the longest. -/
def byLength : List Mark :=
  [shiftRightZeroAssign,
    eqEqEq, notEqEq, shiftRightZero, shiftLeftAssign, shiftRightAssign,
    eqEq, notEq, lessEq, greaterEq, shiftLeft, shiftRight, plusPlus, minusMinus, ampAmp, barBar,
    plusAssign, minusAssign, starAssign, slashAssign, percentAssign, ampAssign, barAssign,
    caretAssign,
    openParen, closeParen, openBrace, closeBrace, openBracket, closeBracket, semicolon, comma,
    colon, question, tilde, dot, less, greater, assign, bang, plus, minus, star, slash, percent,
    amp, bar, caret]

/-- Operators that compute before they assign, such as `+=`. -/
def isCompoundAssignment : Mark → Bool
  | plusAssign => true
  | minusAssign => true
  | starAssign => true
  | slashAssign => true
  | percentAssign => true
  | shiftLeftAssign => true
  | shiftRightAssign => true
  | shiftRightZeroAssign => true
  | ampAssign => true
  | barAssign => true
  | caretAssign => true
  | _ => false

/-- Plain assignment and the operators that compute before they assign. -/
def isAssignment (m : Mark) : Bool := m == assign || m.isCompoundAssignment

end Mark

/-- Reserved words. -/
inductive Word where
  | breakWord
  | caseWord
  | catchWord
  | constWord
  | continueWord
  | debuggerWord
  | defaultWord
  | deleteWord
  | doWord
  | elseWord
  | falseWord
  | finallyWord
  | forWord
  | functionWord
  | ifWord
  | inWord
  | instanceofWord
  | letWord
  | newWord
  | nullWord
  | returnWord
  | switchWord
  | thisWord
  | throwWord
  | trueWord
  | tryWord
  | typeofWord
  | varWord
  | voidWord
  | whileWord
  | withWord
  deriving Repr, DecidableEq, Inhabited

namespace Word

/-- How the word is written. -/
def text : Word → String
  | breakWord => "break"
  | caseWord => "case"
  | catchWord => "catch"
  | constWord => "const"
  | continueWord => "continue"
  | debuggerWord => "debugger"
  | defaultWord => "default"
  | deleteWord => "delete"
  | doWord => "do"
  | elseWord => "else"
  | falseWord => "false"
  | finallyWord => "finally"
  | forWord => "for"
  | functionWord => "function"
  | ifWord => "if"
  | inWord => "in"
  | instanceofWord => "instanceof"
  | letWord => "let"
  | newWord => "new"
  | nullWord => "null"
  | returnWord => "return"
  | switchWord => "switch"
  | thisWord => "this"
  | throwWord => "throw"
  | trueWord => "true"
  | tryWord => "try"
  | typeofWord => "typeof"
  | varWord => "var"
  | voidWord => "void"
  | whileWord => "while"
  | withWord => "with"

/-- All reserved words. -/
def all : List Word :=
  [breakWord, caseWord, catchWord, constWord, continueWord, debuggerWord, defaultWord, deleteWord,
    doWord, elseWord, falseWord, finallyWord, forWord, functionWord, ifWord, inWord, instanceofWord,
    letWord, newWord, nullWord, returnWord, switchWord, thisWord, throwWord, trueWord, tryWord,
    typeofWord, varWord, voidWord, whileWord, withWord]

/-- The reserved word that is written like this. -/
def ofText? (text : String) : Option Word := all.find? (·.text == text)

/-- Words that begin a statement; reading goes on at one of them after an error. -/
def beginsStatement : Word → Bool
  | varWord => true
  | letWord => true
  | constWord => true
  | functionWord => true
  | ifWord => true
  | forWord => true
  | whileWord => true
  | doWord => true
  | switchWord => true
  | returnWord => true
  | throwWord => true
  | tryWord => true
  | breakWord => true
  | continueWord => true
  | _ => false

end Word

/-- The kind of a token. -/
inductive TokenKind where
  /-- No token: a character that starts none, or nothing read yet. -/
  | unknown
  | endOfFile
  | number
  | string
  | regex
  | identifier
  | mark (m : Mark)
  | word (w : Word)
  deriving Repr, DecidableEq, Inhabited

namespace TokenKind

/-- A reserved word. -/
def isWord : TokenKind → Bool
  | word _ => true
  | _ => false

/-- Plain or compound assignment. -/
def isAssignment : TokenKind → Bool
  | mark m => m.isAssignment
  | _ => false

/-- Compound assignment. -/
def isCompoundAssignment : TokenKind → Bool
  | mark m => m.isCompoundAssignment
  | _ => false

/-- What may stand as the name of a property: an identifier or a reserved word. -/
def isName : TokenKind → Bool
  | identifier => true
  | word _ => true
  | _ => false

/-- A word that begins a statement. -/
def beginsStatement : TokenKind → Bool
  | word w => w.beginsStatement
  | _ => false

/-- The spelling by which messages name a token that is missing. -/
def punctuation? : TokenKind → Option String
  | mark m =>
    if [Mark.openBrace, .closeBrace, .openParen, .closeParen, .openBracket, .closeBracket, .dot,
        .semicolon, .comma, .colon, .question, .assign].contains m then some m.text
    else none
  | word .whileWord => some "while"
  | _ => none

end TokenKind
end Script
end Countersign
