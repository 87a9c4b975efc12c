import Countersign.Text.Identifier
import Countersign.Text.Blank
import Countersign.Text.Span
import Countersign.Text.LineMap
import Countersign.Ty.Basic
import Countersign.Ty.Source
import Countersign.Ty.Builtin
import Countersign.Signature.Error
import Countersign.Signature.Value
import Countersign.Signature.Token
import Countersign.Signature.Parser
import Countersign.Header.Basic
import Countersign.Header.Reader
import Countersign.Ty.Substitute
import Countersign.Env.Scope
import Countersign.Env.Basic
import Countersign.Env.Resolve
import Countersign.Subtype
import Countersign.Script.Kind
import Countersign.Script.Fault
import Countersign.Script.Token
import Countersign.Script.Scanner
import Countersign.Script.Tree
import Countersign.Script.Parse.State
import Countersign.Script.Parse.Expression
import Countersign.Script.Parse.Statement
import Countersign.Script.Parse
import Countersign.Script.Walk
import Countersign.Summary.Completion
import Countersign.Summary.Basic
import Countersign.Summary.Findings
import Countersign.Text.Template
import Countersign.Diagnostic
import Countersign.Script.Vars
import Countersign.Verify.Session
import Countersign.Verify.Hoist
import Countersign.Verify.Constructor
import Countersign.Verify.Function
import Countersign.Verify.Value
import Countersign.Verify.Assignment
import Countersign.Verify.Walk
import Countersign.Verify
import Countersign.Files.Path
import Countersign.Files.Tree
import Countersign.Json.Value
import Countersign.Json.Reader
import Countersign.Project.Config
import Countersign.Project.Imports
import Countersign.Project.Discovery
import Countersign.Project.Load
import Countersign.Project.Report
import Countersign.Cli
import Countersign.Main
import Countersign.Proofs.Signature.Spelling
import Countersign.Proofs.Signature.Written
import Countersign.Proofs.Signature.Tokens
import Countersign.Proofs.Signature.RoundTrip
import Countersign.Proofs.Signature.Unique
import Countersign.Proofs.Signature.Grammar
import Countersign.Proofs.Signature.Outline
import Countersign.Proofs.Signature.Quotes
import Countersign.Proofs.Signature.Protection
import Countersign.Proofs.Signature.Places
import Countersign.Proofs.Signature.Continued
import Countersign.Proofs.Subtype.Rules
import Countersign.Proofs.Subtype.Steps
import Countersign.Proofs.Subtype.Assumptions
import Countersign.Proofs.Subtype.Words
import Countersign.Proofs.Subtype.Coinductive
import Countersign.Proofs.Subtype.Aliases
import Countersign.Proofs.Subtype.ActualNames
import Countersign.Proofs.Subtype.Expansion
import Countersign.Proofs.Ty.Leaves
import Countersign.Proofs.Subtype.Reflexive
import Countersign.Proofs.Script.Scanner
import Countersign.Proofs.Script.Reads
import Countersign.Proofs.Summary.Execution
import Countersign.Proofs.Script.Positions
import Countersign.Proofs.Script.Tokens
import Countersign.Proofs.Script.Pieces
import Countersign.Proofs.Script.Writes
import Countersign.Proofs.Script.Whole
import Countersign.Proofs.Script.Lands
import Countersign.Proofs.Script.Termination
import Countersign.Proofs.Script.Endless
import Countersign.Proofs.Summary.Lookup
import Countersign.Proofs.Summary.Reachability
import Countersign.Proofs.Env.Names
import Countersign.Proofs.Verify.Session
import Countersign.Proofs.Verify.Walk
import Countersign.Proofs.Verify.Returns
import Countersign.Proofs.Ty.Fields
import Countersign.Proofs.Subtype.Widening
import Countersign.Proofs.Env.Scopes
import Countersign.Proofs.Verify.Plain
import Countersign.Proofs.Verify.Course
import Countersign.Proofs.Verify.Courses
import Countersign.Proofs.Verify.Balance
import Countersign.Proofs.Verify.Policy
import Countersign.Proofs.Verify.Exports
import Countersign.Proofs.Verify.Acceptance
import Countersign.Proofs.Env.Alike
import Countersign.Proofs.Verify.Alike
import Countersign.Proofs.Verify.HeaderOrder
import Countersign.Proofs.Verify.Untyped
import Countersign.Proofs.Header.Statements
import Countersign.Proofs.Header.Concatenation
import Countersign.Proofs.Header.Lines
import Countersign.Proofs.Subtype.Circles
import Countersign.Proofs.Subtype.Members
import Countersign.Proofs.Subtype.Alike
import Countersign.Proofs.Subtype.Renaming
import Countersign.Proofs.Script.Layout
import Countersign.Proofs.Script.Extents
import Countersign.Proofs.Script.Nesting
import Countersign.Proofs.Script.Tiling
import Countersign.Proofs.Script.Lookahead
import Countersign.Proofs.Summary.Functions
import Countersign.Proofs.Script.Precedence
import Countersign.Proofs.Script.Order
import Countersign.Proofs.Summary.Parentheses
import Countersign.Proofs.Env.Covers
import Countersign.Proofs.Script.Occurrences
import Countersign.Proofs.Verify.Calm
import Countersign.Proofs.Verify.Naming
import Countersign.Proofs.Ty.Tidy
import Countersign.Proofs.Env.Tidy
import Countersign.Proofs.Header.Tidy
import Countersign.Proofs.Verify.Tidy
import Countersign.Proofs.Verify.Yields
import Countersign.Proofs.Verify.Constructors
import Countersign.Proofs.Env.Stack
import Countersign.Proofs.Verify.Imports
import Countersign.Proofs.Ty.Styles
import Countersign.Proofs.Env.Styles
import Countersign.Proofs.Subtype.Styles
import Countersign.Proofs.Summary.Styles
import Countersign.Proofs.Verify.Styles
import Countersign.Proofs.Verify.Parallel
import Countersign.Proofs.Header.Styles
import Countersign.Proofs.Verify.Quotes
import Countersign.Proofs.Text.LineMap
import Countersign.Proofs.Script.LineBreaks
import Countersign.Proofs.Signature.Failures
import Countersign.Proofs.Header.Positions
import Countersign.Proofs.Signature.Literals
import Countersign.Proofs.Text.Runs
import Countersign.Proofs.Text.Template
import Countersign.Proofs.Env.Resolution
import Countersign.Proofs.Subtype.Sequence
import Countersign.Proofs.Signature.Gaps
import Countersign.Proofs.Signature.Bytes
import Countersign.Proofs.Signature.ByteTokens
import Countersign.Proofs.Signature.Tiling
import Countersign.Proofs.Signature.Offsets
import Countersign.Proofs.Signature.Apart
