/-
# Diagnostics

What a verification can report: a kind, the line, and the names, types and counts that belong to
the kind. The kind decides the message, which has a hole for every field it mentions.

Key definitions: `DiagnosticKind`, `Diagnostic`, `Diagnostic.message`, `Diagnostic.render`.
-/
import Countersign.Text.Template

namespace Countersign

/-- What can be wrong with a program. -/
inductive DiagnosticKind where
  | tooManyFunctionArgs
  | tooFewFunctionArgs
  | tooManyArgsInCall
  | tooFewArgsInCall
  | missingReturnStatement
  | nonVoidReturnType
  | nonExistantField
  | missingFieldInConstructor
  | untypedFunctionFound
  | unknownIdentifier
  | reassigningModuleExports
  | missingModuleExport
  | prototypeAssignmentAfterExport
  | typeClassMismatch
  deriving Repr, DecidableEq, Inhabited

namespace DiagnosticKind

/-- The published code of the kind. -/
def code : DiagnosticKind → String
  | tooManyFunctionArgs => "jsig.verify.too-many-function-args"
  | tooFewFunctionArgs => "jsig.verify.too-few-function-args"
  | tooManyArgsInCall => "jsig.verify.too-many-args-in-call"
  | tooFewArgsInCall => "jsig.verify.too-few-args-in-call"
  | missingReturnStatement => "jsig.verify.missing-return-statement"
  | nonVoidReturnType => "jsig.verify.non-void-return-type"
  | nonExistantField => "jsig.verify.non-existant-field"
  | missingFieldInConstructor => "jsig.verify.missing-field-in-constructor"
  | untypedFunctionFound => "jsig.verify.untyped-function-found"
  | unknownIdentifier => "jsig.verify.unknown-identifier"
  | reassigningModuleExports => "jsig.verify.reassigning-module-exports"
  | missingModuleExport => "jsig.verify.missing-module-export"
  | prototypeAssignmentAfterExport => "jsig.verify.prototype-assignment-after-export"
  | typeClassMismatch => "jsig.sub-type.type-class-mismatch"

open Template (hole) in
/-- The message of the kind, with holes. -/
def template : DiagnosticKind → String
  | tooManyFunctionArgs =>
    "Function '" ++ hole "funcName" ++ "' is declared with " ++ hole "expectedArgs" ++
      " argument(s) but implemented with " ++ hole "actualArgs" ++ "."
  | tooFewFunctionArgs =>
    "Function '" ++ hole "funcName" ++ "' is declared with " ++ hole "expectedArgs" ++
      " argument(s) but implemented with only " ++ hole "actualArgs" ++ "."
  | tooManyArgsInCall =>
    "Call to '" ++ hole "funcName" ++ "' passes " ++ hole "actualArgs" ++
      " argument(s) but it expects " ++ hole "expectedArgs" ++ "."
  | tooFewArgsInCall =>
    "Call to '" ++ hole "funcName" ++ "' passes only " ++ hole "actualArgs" ++
      " argument(s) but it expects " ++ hole "expectedArgs" ++ "."
  | missingReturnStatement =>
    "Function '" ++ hole "funcName" ++ "' must return " ++ hole "expected" ++
      " but can finish with " ++ hole "actual" ++ "."
  | nonVoidReturnType =>
    "Function '" ++ hole "funcName" ++ "' is declared to return " ++ hole "expected" ++
      " but returns " ++ hole "actual" ++ "."
  | nonExistantField =>
    "Field '" ++ hole "fieldName" ++ "' does not exist on '" ++ hole "objName" ++ "'."
  | missingFieldInConstructor =>
    "Constructor '" ++ hole "funcName" ++ "' never assigns field '" ++ hole "fieldName" ++
      "' (" ++ hole "otherField" ++ ")."
  | untypedFunctionFound => "Function '" ++ hole "funcName" ++ "' has no type signature."
  | unknownIdentifier => "Cannot find identifier '" ++ hole "name" ++ "'."
  | reassigningModuleExports =>
    "module.exports is already assigned; cannot reassign it to " ++ hole "actual" ++ "."
  | missingModuleExport =>
    "module.exports is declared as " ++ hole "expected" ++ " but is " ++ hole "actual" ++ "."
  | prototypeAssignmentAfterExport =>
    "Field '" ++ hole "fieldName" ++ "' is added to the prototype of '" ++ hole "funcName" ++
      "' after it was exported."
  | typeClassMismatch =>
    "Expected " ++ hole "expected" ++ " but got " ++ hole "actual" ++ "."

end DiagnosticKind

/-- Something wrong with a program, at a line counted from one. -/
structure Diagnostic where
  kind : DiagnosticKind
  line : Nat
  funcName : Option String := none
  fieldName : Option String := none
  objName : Option String := none
  expected : Option String := none
  actual : Option String := none
  expectedArgs : Option Nat := none
  actualArgs : Option Nat := none
  otherField : Option String := none
  name : Option String := none
  deriving Repr, DecidableEq, Inhabited

namespace Diagnostic

/-- The fields by key, in the order in which they fill the message. -/
def fields (d : Diagnostic) : List (String × Option String) :=
  [("funcName", d.funcName), ("fieldName", d.fieldName), ("objName", d.objName),
    ("expected", d.expected), ("actual", d.actual),
    ("expectedArgs", d.expectedArgs.map Nat.repr), ("actualArgs", d.actualArgs.map Nat.repr),
    ("otherField", d.otherField), ("name", d.name)]

/-- The message with its holes filled. -/
def message (d : Diagnostic) : String := Template.fill d.kind.template d.fields

/-- The diagnostic on one line of text. -/
def render (d : Diagnostic) : String := s!"line {d.line}: {d.message} ({d.kind.code})"

end Diagnostic
end Countersign
