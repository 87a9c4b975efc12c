/-
# Checking files

A program is read together with its headers: the one that stands beside it comes first, then those
in its comments, in order. Whatever cannot be read or is not well formed stops the check of that
file before it starts.

Key definitions: `LoadError`, `inlineHeader`, `fullHeader`, `verifySource`, `verifyFile`,
`verifyAll`.
-/
import Countersign.Project.Config
import Countersign.Project.Imports
import Countersign.Script.Parse

namespace Countersign

/-- Why a file cannot be checked. -/
inductive LoadError where
  /-- The program has syntax errors; the line is that of the first. -/
  | syntaxErrors (file : Path) (line : Nat) (messages : List String)
  | unreadable (path : Path) (e : ReadError)
  | notText (path : Path)
  | signature (path : Path) (e : SignatureError)
  | header (e : HeaderError)
  deriving Repr, DecidableEq, Inhabited

/-- The reason in words. -/
def LoadError.message : LoadError → String
  | syntaxErrors file line messages =>
    file.text ++ ":" ++ Nat.repr line ++ ": " ++ "; ".intercalate messages
  | unreadable path e => "cannot read " ++ path.text ++ ": " ++ e.message
  | notText path => path.text ++ " is not valid UTF-8"
  | signature path e => path.text ++ ": " ++ e.message
  | header e => e.message

/-- The line of the first character after the marker of an inline header: that of its comment, and
one more for each line feed before that character. -/
def inlineHeaderLine (lines : LineMap) (c : Script.Comment) (text : String) : Nat :=
  let before := c.body.toList.take (c.body.length - text.length)
  lines.lineNumber c.span.pos + before.count '\n'

/-- The header in a comment; other comments hold none. -/
def inlineHeader (lines : LineMap) (c : Script.Comment) : Except SignatureError Header :=
  match inlineHeaderBody? c.body with
  | none => .ok .empty
  | some text => parseHeaderAt text (inlineHeaderLine lines c text)

/-- All that is declared for a program: by the header beside it, if there is one, and in its
comments. -/
def fullHeader (file : Path) (lines : LineMap) (comments : List Script.Comment)
    (companion : Option String) (extension : String) : Except LoadError Header := do
  let first ←
    match companion with
    | none => .ok Header.empty
    | some text =>
      (parseHeaderAt text 1).mapError (.signature (companionPath file extension))
  let inline ← (comments.mapM (inlineHeader lines)).mapError (.signature file)
  return inline.foldl Header.append first

/-- Checks a program given its text and that of the header beside it; imports are looked up from
the directory `base`. -/
def verifySource (tree : FileTree) (file : Path) (source : String) (companion : Option String)
    (base : Path) (settings : Settings) : Except LoadError Outcome := do
  let script := Script.parse source
  let lines := LineMap.ofText source
  match script.errors with
  | e :: _ =>
    throw (.syntaxErrors file (lines.lineNumber e.pos) (script.errors.map (·.message)))
  | [] =>
    let header ← fullHeader file lines script.comments companion settings.headerExtension
    let imports ←
      (resolveImports tree header base settings.headerExtension).mapError .header
    return verify script lines header imports settings.policy

/-- The text of a file. -/
def readSource (tree : FileTree) (path : Path) : Except LoadError String :=
  match tree.read path with
  | .error e => .error (.unreadable path e)
  | .ok bytes =>
    match String.fromUTF8? bytes with
    | some text => .ok text
    | none => .error (.notText path)

/-- Checks the program in a file. -/
def verifyFile (tree : FileTree) (settings : Settings) (path : Path) : Except LoadError Outcome := do
  let source ← readSource tree path
  let header := companionPath path settings.headerExtension
  let companion ←
    if tree.isFileAt header then some <$> readSource tree header else pure none
  verifySource tree path source companion (path.parent?.getD ⟨"."⟩) settings

/-- What came of the check of a file. -/
structure FileResult where
  file : Path
  result : Except LoadError Outcome

/-- Checks files, each by itself. -/
def verifyAll (tree : FileTree) (settings : Settings) (files : List Path) : List FileResult :=
  files.map fun f => ⟨f, verifyFile tree settings f⟩

end Countersign
