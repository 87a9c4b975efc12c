/-
# Completion of statements

Whether control can flow past a statement to the next one, as far as its shape tells: conditions
may go either way and loops may run any number of times. A jump never completes, a list of
statements completes if all of them do, and a `switch` or a labelled statement also completes
through a `break`.

Key definitions: `Stmt.canComplete`, `allComplete`, `breaksOut`, `Stmt.jumpsToLabel`.
-/
import Countersign.Script.Tree

namespace Countersign
namespace Script

mutual

/-- Whether the statement may leave the `switch` around it by a `break` without a label. Loops and
inner switches keep such a `break` to themselves. -/
def Stmt.breaksOut : Stmt → Bool
  | .breakTo _ label => label.isNone
  | .block b => b.breaksOut
  | .ifElse _ _ yes no => yes.breaksOut || optBreaksOut no
  | .tryCatch _ body h f => body.breaksOut || h.breaksOut || optBlockBreaksOut f
  | .labeled _ _ body => body.breaksOut
  | _ => false
termination_by structural t => t

/-- Whether one of the statements may leave the `switch` around it. -/
def anyBreaksOut : List Stmt → Bool
  | [] => false
  | s :: ss => s.breaksOut || anyBreaksOut ss
termination_by structural t => t

/-- Whether an alternative may leave the `switch` around it. -/
def optBreaksOut : Option Stmt → Bool
  | none => false
  | some s => s.breaksOut
termination_by structural t => t

/-- Whether a block may leave the `switch` around it. -/
def Block.breaksOut : Block → Bool
  | .mk _ ss => anyBreaksOut ss
termination_by structural t => t

/-- Whether a finalizer may leave the `switch` around it. -/
def optBlockBreaksOut : Option Block → Bool
  | none => false
  | some b => b.breaksOut
termination_by structural t => t

/-- Whether a handler may leave the `switch` around it. -/
def Handler.breaksOut : Handler → Bool
  | .none => false
  | .catching _ _ b => b.breaksOut
termination_by structural t => t

end

mutual

/-- Whether there is a `break` with a label in the statement, whatever the label. -/
def Stmt.jumpsToLabel : Stmt → Bool
  | .breakTo _ label => label.isSome
  | .block b => b.jumpsToLabel
  | .ifElse _ _ yes no => yes.jumpsToLabel || optJumpsToLabel no
  | .whileDo _ _ body => body.jumpsToLabel
  | .doWhile _ body _ => body.jumpsToLabel
  | .forLoop _ _ _ _ body => body.jumpsToLabel
  | .forIn _ _ _ body => body.jumpsToLabel
  | .labeled _ _ body => body.jumpsToLabel
  | .switchOn _ _ cs => anyClauseJumpsToLabel cs
  | .tryCatch _ body h f => body.jumpsToLabel || h.jumpsToLabel || optBlockJumpsToLabel f
  | _ => false
termination_by structural t => t

/-- Whether there is a `break` with a label in one of the statements. -/
def anyJumpsToLabel : List Stmt → Bool
  | [] => false
  | s :: ss => s.jumpsToLabel || anyJumpsToLabel ss
termination_by structural t => t

/-- Whether there is a `break` with a label in an alternative. -/
def optJumpsToLabel : Option Stmt → Bool
  | none => false
  | some s => s.jumpsToLabel
termination_by structural t => t

/-- Whether there is a `break` with a label in one of the clauses. -/
def anyClauseJumpsToLabel : List Clause → Bool
  | [] => false
  | .mk _ _ ss :: cs => anyJumpsToLabel ss || anyClauseJumpsToLabel cs
termination_by structural t => t

/-- Whether there is a `break` with a label in a block. -/
def Block.jumpsToLabel : Block → Bool
  | .mk _ ss => anyJumpsToLabel ss
termination_by structural t => t

/-- Whether there is a `break` with a label in a finalizer. -/
def optBlockJumpsToLabel : Option Block → Bool
  | none => false
  | some b => b.jumpsToLabel
termination_by structural t => t

/-- Whether there is a `break` with a label in a handler. -/
def Handler.jumpsToLabel : Handler → Bool
  | .none => false
  | .catching _ _ b => b.jumpsToLabel
termination_by structural t => t

end

/-- Whether one of the clauses is the default clause. -/
def hasDefault : List Clause → Bool
  | [] => false
  | .mk _ test _ :: cs => test.isNone || hasDefault cs

/-- Whether a clause may leave its `switch` by a `break`. -/
def anyClauseBreaksOut : List Clause → Bool
  | [] => false
  | .mk _ _ ss :: cs => anyBreaksOut ss || anyClauseBreaksOut cs

mutual

/-- Whether control can flow past the statement. -/
def Stmt.canComplete : Stmt → Bool
  | .returnWith _ _ => false
  | .throwing _ _ => false
  | .breakTo _ _ => false
  | .continueTo _ _ => false
  | .block b => b.canComplete
  | .ifElse _ _ yes no => optCanComplete no || yes.canComplete
  | .switchOn _ _ cs => !hasDefault cs || lastCompletes cs || anyClauseBreaksOut cs
  | .tryCatch _ body h f => finalizerCompletes f && (body.canComplete || h.canComplete)
  | .labeled _ _ body => body.canComplete || body.jumpsToLabel
  | _ => true
termination_by structural t => t

/-- Whether control can flow past all of the statements. -/
def allComplete : List Stmt → Bool
  | [] => true
  | s :: ss => s.canComplete && allComplete ss
termination_by structural t => t

/-- Whether control can flow past an alternative, also where there is none. -/
def optCanComplete : Option Stmt → Bool
  | none => true
  | some s => s.canComplete
termination_by structural t => t

/-- Whether control can flow past the end of the last clause, also where there is none. -/
def lastCompletes : List Clause → Bool
  | [] => true
  | [.mk _ _ ss] => allComplete ss
  | _ :: c :: cs => lastCompletes (c :: cs)
termination_by structural t => t

/-- Whether control can flow past the block. -/
def Block.canComplete : Block → Bool
  | .mk _ ss => allComplete ss
termination_by structural t => t

/-- Whether control can flow past a finalizer, also where there is none. -/
def finalizerCompletes : Option Block → Bool
  | none => true
  | some b => b.canComplete
termination_by structural t => t

/-- Whether control can flow past a handler; where there is none it cannot. -/
def Handler.canComplete : Handler → Bool
  | .none => false
  | .catching _ _ b => b.canComplete
termination_by structural t => t

end

end Script
end Countersign
