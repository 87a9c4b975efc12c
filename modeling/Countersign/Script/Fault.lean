/-
# Syntax errors in programs

What can be wrong with the text of a program, where, and how it is reported.

Key definitions: `Fault`, `Fault.message`, `SyntaxError`.
-/
import Countersign.Script.Kind

namespace Countersign
namespace Script

/-- What is wrong. -/
inductive Fault where
  | unterminatedComment
  | unterminatedString
  | unterminatedRegex
  | invalidCharacter
  | identifierExpected
  | expressionExpected
  | statementExpected
  | invalidTarget
  | unsupported
  | missing (kind : TokenKind)
  | handlerExpected
  | clauseExpected
  | propertyExpected
  | tooInvolved
  deriving Repr, DecidableEq, Inhabited

/-- The message for it. -/
def Fault.message : Fault → String
  | unterminatedComment => "'*/' expected."
  | unterminatedString => "Unterminated string literal."
  | unterminatedRegex => "Unterminated regular expression literal."
  | invalidCharacter => "Invalid character."
  | identifierExpected => "Identifier expected."
  | expressionExpected => "Expression expected."
  | statementExpected => "Declaration or statement expected."
  | invalidTarget => "Invalid left-hand side in assignment."
  | unsupported => "This syntax is not supported."
  | missing kind => "'" ++ kind.punctuation?.getD "token" ++ "' expected."
  | handlerExpected => "'catch' or 'finally' expected."
  | clauseExpected => "'case' or 'default' expected."
  | propertyExpected => "Property assignment expected."
  | tooInvolved => "The program is too involved."

/-- A fault and the offset of the character where it was found. -/
structure SyntaxError where
  pos : Nat
  fault : Fault
  deriving Repr, DecidableEq, Inhabited

namespace SyntaxError

/-- The message without its place. -/
def message (e : SyntaxError) : String := e.fault.message

/-- The message with its place. -/
def render (e : SyntaxError) : String := s!"{e.message} (at offset {e.pos})"

end SyntaxError
end Script
end Countersign
