/-
# Operators in the order of the text

What is read from a text has its operators in the order of the text, whether or not there are
errors, and every one of them binds by its level. For any sequence of operators and operands this
leaves one tree. Where there is no error no operator is left out of the tree.

Key theorems: `account_of_read`, `operators_bind_in_order`.
-/
import Countersign.Proofs.Script.Precedence
import Countersign.Proofs.Script.Whole

namespace Countersign
namespace Script

/-- Before the first token nothing has been read. -/
theorem Account.Holds.start (acc : Account) {text : String} {s : ParseState} {u : Unit}
    (h : Parse.next (ParseState.ofText text) = some (u, s)) :
    acc.Holds text.toList (firstToken text) [] s := by
  cases h
  have htext : (Scanner.ofText text).skipShebang.scan.text = text.toList :=
    (scan_text _).trans (skipShebang_text _)
  cases acc with
  | whole =>
    refine ⟨htext, ?_, [], .start, .nil⟩
    rw [scan_token]
    exact scanAt_solid _ _
  | firm => exact ⟨htext, [], .start, .nil⟩
  | reports => trivial

/-- A program is read to the end of its text, and account can be given of its firm pieces, and of
all its tokens if there is no error. -/
theorem account_of_read (acc : Account) {bound : Nat} {text : String} {script : Script}
    (hread : parseWithin bound text = some script) (hacc : acc = .firm ∨ script.errors = []) :
    ∃ s : ParseState, s.scanner.token.kind = .endOfFile ∧
      acc.Holds text.toList (firstToken text) (piecesOfStmts script.statements) s := by
  obtain ⟨⟨ss, s⟩, hrun, hscript⟩ := Option.bind_eq_some_iff.mp hread
  cases hscript
  obtain ⟨u, s₁, hnext, hprogram⟩ := bind_some hrun
  have hsilent : acc.Silent s := by
    rcases hacc with rfl | herrors
    · trivial
    · have hnone : s.errors = [] :=
        List.reverse_eq_nil_iff.mp (List.append_eq_nil_iff.mp (sortErrors_eq_nil herrors)).2
      cases acc with
      | firm => trivial
      | _ => exact hnone
  have htell := Rules.within_tell text.toList bound bound
  have hprogress := Rule.program_writes htell acc bound [] s₁ ss s trivial hprogram hsilent
  exact ⟨s, Rule.program_end _ _ _ _ hprogram, hprogress.2 _ (.start acc hnext)⟩

/-- **Operators bind by their levels and stand in the order of the text.** Of every program that is
read, with or without errors: the operands of each binary operator, assignment, comma and
conditional in its tree bind as tightly as these ask for, unless they are in parentheses; and the
operators, names and literals of its tree, written out from left to right, stand for tokens of the
text in the order of the text. If there is no error, the tree is written with the tokens of the text
and no others, so no operator of the text is missing from it. -/
theorem operators_bind_in_order {bound : Nat} {text : String} {script : Script}
    (hread : parseWithin bound text = some script) :
    (∀ n ∈ script.nodes, n.Bound) ∧
      ∃ ts last, Passed text.toList (firstToken text) ts last ∧ last.kind = .endOfFile ∧
        Traces text.toList (piecesOfStmts script.statements) ts ∧
        (script.errors = [] → Spells text.toList (piecesOfStmts script.statements) ts) := by
  refine ⟨bound_of_read hread, ?_⟩
  by_cases herrors : script.errors = []
  · obtain ⟨s, hend, -, -, ts, hpassed, hspells⟩ := account_of_read .whole hread (.inr herrors)
    exact ⟨ts, s.scanner.token, hpassed, hend, hspells.traces, fun _ => hspells⟩
  · obtain ⟨s, hend, -, ts, hpassed, htraces⟩ := account_of_read .firm hread (.inl rfl)
    exact ⟨ts, s.scanner.token, hpassed, hend, htraces, fun h => absurd h herrors⟩

/-- Operators of many levels, nested assignments, and an operand that is missing. -/
def operatorProgram : String :=
  "a = b += c - d - e * typeof f || g ? h, i : j = k in l; m + * n < (o, p), q;"

/-- Operators of many levels, one of them in parentheses, and no error. -/
def formulaProgram : String := "t = u += a - b - c * (d + e) < f && g ? h : i, j;"

/-- The operator of a binary operation that is not in parentheses. -/
def Expr.operator? : Expr → Option TokenKind
  | binary _ _ op _ => some op
  | _ => none

/-- A binary operation, between the operators of its operands. -/
def Node.operation? : Node → Option (Option TokenKind × TokenKind × Option TokenKind)
  | .expr (.binary _ left op right) => some (left.operator?, op, right.operator?)
  | _ => none

/-- The operations of `formulaProgram`, an operation before those in its operands. -/
def formulaOperations : List (Option TokenKind × TokenKind × Option TokenKind) :=
  [(some (.mark .assign), .mark .comma, none),
    (none, .mark .assign, some (.mark .plusAssign)),
    (none, .mark .plusAssign, none),
    (some (.mark .less), .mark .ampAmp, none),
    (some (.mark .minus), .mark .less, none),
    (some (.mark .minus), .mark .minus, some (.mark .star)),
    (none, .mark .minus, none),
    (none, .mark .star, none),
    (none, .mark .plus, none)]

theorem operators_bind_in_order_sample :
    (∃ script, parseWithin 80 operatorProgram = some script ∧
      script.errors ≠ [] ∧ (∀ n ∈ script.nodes, n.Bound) ∧
      ∃ ts last, Passed operatorProgram.toList (firstToken operatorProgram) ts last ∧
        last.kind = .endOfFile ∧
        Traces operatorProgram.toList (piecesOfStmts script.statements) ts ∧
        (script.errors = [] →
          Spells operatorProgram.toList (piecesOfStmts script.statements) ts)) ∧
    ∃ script, parseWithin 80 formulaProgram = some script ∧ script.errors = [] ∧
      script.nodes.filterMap Node.operation? = formulaOperations ∧ (∀ n ∈ script.nodes, n.Bound) ∧
      ∃ ts last, Passed formulaProgram.toList (firstToken formulaProgram) ts last ∧
        last.kind = .endOfFile ∧
        Traces formulaProgram.toList (piecesOfStmts script.statements) ts ∧
        Spells formulaProgram.toList (piecesOfStmts script.statements) ts := by
  constructor
  · have hread : (parseWithin 80 operatorProgram).map (·.errors.isEmpty) = some false := by
      decide +kernel
    obtain ⟨script, hscript, herrors⟩ := Option.map_eq_some_iff.mp hread
    refine ⟨script, hscript, fun hnil => ?_, operators_bind_in_order hscript⟩
    rw [hnil] at herrors
    cases herrors
  · have hread : (parseWithin 80 formulaProgram).map
        (fun script => (script.errors.isEmpty, script.nodes.filterMap Node.operation?)) =
        some (true, formulaOperations) := by
      decide +kernel
    obtain ⟨script, hscript, hfound⟩ := Option.map_eq_some_iff.mp hread
    obtain ⟨hempty, hoperations⟩ := Prod.mk.inj hfound
    have herrors : script.errors = [] := List.isEmpty_iff.mp hempty
    obtain ⟨hbound, ts, last, hpassed, hend, htraces, hspells⟩ := operators_bind_in_order hscript
    exact ⟨script, hscript, herrors, hoperations, hbound, ts, last, hpassed, hend, htraces,
      hspells herrors⟩

end Script
end Countersign
