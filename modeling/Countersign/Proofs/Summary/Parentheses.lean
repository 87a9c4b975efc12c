/-
# Parentheses and summaries

Parentheses around an expression say nothing about what a program implements, and a summary looks
through them: at the targets of assignments, at exported names, at prototypes and at the exports
themselves. There is one place where it does not. A field is counted as the receiver's only if it
stands right behind the word `this`; behind `(this)` it is not found. So the summary of a program in
which parentheses were put around any expressions is the same just if none of them, in a function,
stands around the `this` of a field.

`Enclosed` relates the two programs and counts the receivers that were lost in that way. The
accesses in all functions are fewer by at least that number, and nothing else changes.

Key definitions: `Expr.Enclosed`, `EnclosedStmts`, `Findings.accessCount`, `Findings.Loses`.
Key theorems: `Expr.Enclosed.findings`, `EnclosedStmts.findings`, `summary_same_iff`.
-/
import Countersign.Script.Parse
import Countersign.Summary.Findings
import Mathlib.Tactic

namespace Countersign
namespace Script

/-- Whether an expression is the receiver, without parentheses around it. -/
def Expr.isThis : Expr → Bool
  | .this _ => true
  | _ => false

mutual

/-- The second expression is the first one with parentheses around any of the expressions in it,
itself included. The flag says whether it stands in a function; the number counts the fields in
functions that stood right behind `this` and do so no more. -/
inductive Expr.Enclosed : Bool → Nat → Expr → Expr → Prop
  | same {inside : Bool} (e : Expr) : Expr.Enclosed inside 0 e e
  | enclose {inside : Bool} {k : Nat} {e e' : Expr} (span : Span) :
      Expr.Enclosed inside k e e' → Expr.Enclosed inside k e (.paren span e')
  | array {inside : Bool} {k : Nat} {span : Span} {es es' : List Expr} :
      EnclosedExprs inside k es es' → Expr.Enclosed inside k (.array span es) (.array span es')
  | object {inside : Bool} {k : Nat} {span : Span} {ps ps' : List Property} :
      EnclosedProperties inside k ps ps' →
      Expr.Enclosed inside k (.object span ps) (.object span ps')
  | member {inside : Bool} {k : Nat} {span : Span} {o o' : Expr} {n : Ident} :
      Expr.Enclosed inside k o o' → (o.isThis = true → o'.isThis = true) →
      Expr.Enclosed inside k (.member span o n) (.member span o' n)
  | receiver {inside : Bool} {span thisSpan : Span} {o' : Expr} {n : Ident} :
      Expr.Enclosed inside 0 (.this thisSpan) o' → o'.isThis = false →
      Expr.Enclosed inside inside.toNat (.member span (.this thisSpan) n) (.member span o' n)
  | index {inside : Bool} {k m : Nat} {span : Span} {o o' i i' : Expr} :
      Expr.Enclosed inside k o o' → Expr.Enclosed inside m i i' →
      Expr.Enclosed inside (k + m) (.index span o i) (.index span o' i')
  | call {inside : Bool} {k m : Nat} {span : Span} {c c' : Expr} {as as' : List Expr} :
      Expr.Enclosed inside k c c' → EnclosedExprs inside m as as' →
      Expr.Enclosed inside (k + m) (.call span c as) (.call span c' as')
  | construct {inside : Bool} {k m : Nat} {span : Span} {c c' : Expr} {listed : Bool}
      {as as' : List Expr} :
      Expr.Enclosed inside k c c' → EnclosedExprs inside m as as' →
      Expr.Enclosed inside (k + m) (.construct span c listed as) (.construct span c' listed as')
  | paren {inside : Bool} {k : Nat} {span : Span} {e e' : Expr} :
      Expr.Enclosed inside k e e' → Expr.Enclosed inside k (.paren span e) (.paren span e')
  | function {inside : Bool} {k : Nat} {span : Span} {n : Option Ident} {ps : List Param}
      {b b' : Block} :
      Block.Enclosed true k b b' →
      Expr.Enclosed inside k (.function span n ps b) (.function span n ps b')
  | wordOp {inside : Bool} {k : Nat} {span : Span} {op : WordOp} {e e' : Expr} :
      Expr.Enclosed inside k e e' →
      Expr.Enclosed inside k (.wordOp span op e) (.wordOp span op e')
  | before {inside : Bool} {k : Nat} {span : Span} {op : Mark} {e e' : Expr} :
      Expr.Enclosed inside k e e' →
      Expr.Enclosed inside k (.before span op e) (.before span op e')
  | after {inside : Bool} {k : Nat} {span : Span} {op : Mark} {e e' : Expr} :
      Expr.Enclosed inside k e e' → Expr.Enclosed inside k (.after span e op) (.after span e' op)
  | binary {inside : Bool} {k m : Nat} {span : Span} {op : TokenKind} {l l' r r' : Expr} :
      Expr.Enclosed inside k l l' → Expr.Enclosed inside m r r' →
      Expr.Enclosed inside (k + m) (.binary span l op r) (.binary span l' op r')
  | conditional {inside : Bool} {k m l : Nat} {span : Span} {t t' y y' n n' : Expr} :
      Expr.Enclosed inside k t t' → Expr.Enclosed inside m y y' → Expr.Enclosed inside l n n' →
      Expr.Enclosed inside (k + m + l) (.conditional span t y n) (.conditional span t' y' n')

/-- Parentheses were put into expressions. -/
inductive EnclosedExprs : Bool → Nat → List Expr → List Expr → Prop
  | nil {inside : Bool} : EnclosedExprs inside 0 [] []
  | cons {inside : Bool} {k m : Nat} {e e' : Expr} {es es' : List Expr} :
      Expr.Enclosed inside k e e' → EnclosedExprs inside m es es' →
      EnclosedExprs inside (k + m) (e :: es) (e' :: es')

/-- Parentheses were put into an expression, if there is one. -/
inductive EnclosedExpr? : Bool → Nat → Option Expr → Option Expr → Prop
  | none {inside : Bool} : EnclosedExpr? inside 0 none none
  | some {inside : Bool} {k : Nat} {e e' : Expr} :
      Expr.Enclosed inside k e e' → EnclosedExpr? inside k (some e) (some e')

/-- Parentheses were put into the values of properties. -/
inductive EnclosedProperties : Bool → Nat → List Property → List Property → Prop
  | nil {inside : Bool} : EnclosedProperties inside 0 [] []
  | cons {inside : Bool} {k m : Nat} {span : Span} {n : PropertyName} {e e' : Expr}
      {ps ps' : List Property} :
      Expr.Enclosed inside k e e' → EnclosedProperties inside m ps ps' →
      EnclosedProperties inside (k + m) (.mk span n e :: ps) (.mk span n e' :: ps')

/-- Parentheses were put into a statement. -/
inductive Stmt.Enclosed : Bool → Nat → Stmt → Stmt → Prop
  | same {inside : Bool} (s : Stmt) : Stmt.Enclosed inside 0 s s
  | declaration {inside : Bool} {k : Nat} {span listSpan : Span} {kind : DeclKind}
      {ds ds' : List Decl} :
      EnclosedDecls inside k ds ds' →
      Stmt.Enclosed inside k (.declaration span (.mk listSpan kind ds))
        (.declaration span (.mk listSpan kind ds'))
  | function {inside : Bool} {k : Nat} {span : Span} {n : Ident} {ps : List Param}
      {b b' : Block} :
      Block.Enclosed true k b b' →
      Stmt.Enclosed inside k (.function span n ps b) (.function span n ps b')
  | block {inside : Bool} {k : Nat} {b b' : Block} :
      Block.Enclosed inside k b b' → Stmt.Enclosed inside k (.block b) (.block b')
  | expression {inside : Bool} {k : Nat} {span : Span} {e e' : Expr} :
      Expr.Enclosed inside k e e' →
      Stmt.Enclosed inside k (.expression span e) (.expression span e')
  | ifElse {inside : Bool} {k m l : Nat} {span : Span} {t t' : Expr} {y y' : Stmt}
      {n n' : Option Stmt} :
      Expr.Enclosed inside k t t' → Stmt.Enclosed inside m y y' → EnclosedStmt? inside l n n' →
      Stmt.Enclosed inside (k + m + l) (.ifElse span t y n) (.ifElse span t' y' n')
  | doWhile {inside : Bool} {k m : Nat} {span : Span} {b b' : Stmt} {t t' : Expr} :
      Stmt.Enclosed inside k b b' → Expr.Enclosed inside m t t' →
      Stmt.Enclosed inside (k + m) (.doWhile span b t) (.doWhile span b' t')
  | whileDo {inside : Bool} {k m : Nat} {span : Span} {b b' : Stmt} {t t' : Expr} :
      Expr.Enclosed inside k t t' → Stmt.Enclosed inside m b b' →
      Stmt.Enclosed inside (k + m) (.whileDo span t b) (.whileDo span t' b')
  | forLoop {inside : Bool} {k m l j : Nat} {span : Span} {i i' : ForInit}
      {t t' u u' : Option Expr} {b b' : Stmt} :
      ForInit.Enclosed inside k i i' → EnclosedExpr? inside m t t' →
      EnclosedExpr? inside l u u' → Stmt.Enclosed inside j b b' →
      Stmt.Enclosed inside (k + m + l + j) (.forLoop span i t u b) (.forLoop span i' t' u' b')
  | forIn {inside : Bool} {k m l : Nat} {span : Span} {i i' : ForInit} {o o' : Expr}
      {b b' : Stmt} :
      ForInit.Enclosed inside k i i' → Expr.Enclosed inside m o o' →
      Stmt.Enclosed inside l b b' →
      Stmt.Enclosed inside (k + m + l) (.forIn span i o b) (.forIn span i' o' b')
  | returnWith {inside : Bool} {k : Nat} {span : Span} {v v' : Option Expr} :
      EnclosedExpr? inside k v v' →
      Stmt.Enclosed inside k (.returnWith span v) (.returnWith span v')
  | switchOn {inside : Bool} {k m : Nat} {span : Span} {e e' : Expr} {cs cs' : List Clause} :
      Expr.Enclosed inside k e e' → EnclosedClauses inside m cs cs' →
      Stmt.Enclosed inside (k + m) (.switchOn span e cs) (.switchOn span e' cs')
  | labeled {inside : Bool} {k : Nat} {span : Span} {label : Ident} {b b' : Stmt} :
      Stmt.Enclosed inside k b b' →
      Stmt.Enclosed inside k (.labeled span label b) (.labeled span label b')
  | throwing {inside : Bool} {k : Nat} {span : Span} {e e' : Expr} :
      Expr.Enclosed inside k e e' → Stmt.Enclosed inside k (.throwing span e) (.throwing span e')
  | tryCatch {inside : Bool} {k m l : Nat} {span : Span} {b b' : Block} {h h' : Handler}
      {f f' : Option Block} :
      Block.Enclosed inside k b b' → Handler.Enclosed inside m h h' →
      EnclosedBlock? inside l f f' →
      Stmt.Enclosed inside (k + m + l) (.tryCatch span b h f) (.tryCatch span b' h' f')

/-- Parentheses were put into statements. -/
inductive EnclosedStmts : Bool → Nat → List Stmt → List Stmt → Prop
  | nil {inside : Bool} : EnclosedStmts inside 0 [] []
  | cons {inside : Bool} {k m : Nat} {s s' : Stmt} {ss ss' : List Stmt} :
      Stmt.Enclosed inside k s s' → EnclosedStmts inside m ss ss' →
      EnclosedStmts inside (k + m) (s :: ss) (s' :: ss')

/-- Parentheses were put into a statement, if there is one. -/
inductive EnclosedStmt? : Bool → Nat → Option Stmt → Option Stmt → Prop
  | none {inside : Bool} : EnclosedStmt? inside 0 none none
  | some {inside : Bool} {k : Nat} {s s' : Stmt} :
      Stmt.Enclosed inside k s s' → EnclosedStmt? inside k (some s) (some s')

/-- Parentheses were put into a block. -/
inductive Block.Enclosed : Bool → Nat → Block → Block → Prop
  | mk {inside : Bool} {k : Nat} {span : Span} {ss ss' : List Stmt} :
      EnclosedStmts inside k ss ss' → Block.Enclosed inside k (.mk span ss) (.mk span ss')

/-- Parentheses were put into a block, if there is one. -/
inductive EnclosedBlock? : Bool → Nat → Option Block → Option Block → Prop
  | none {inside : Bool} : EnclosedBlock? inside 0 none none
  | some {inside : Bool} {k : Nat} {b b' : Block} :
      Block.Enclosed inside k b b' → EnclosedBlock? inside k (some b) (some b')

/-- Parentheses were put into the first values of declared variables. -/
inductive EnclosedDecls : Bool → Nat → List Decl → List Decl → Prop
  | nil {inside : Bool} : EnclosedDecls inside 0 [] []
  | cons {inside : Bool} {k m : Nat} {span : Span} {n : Ident} {e e' : Option Expr}
      {ds ds' : List Decl} :
      EnclosedExpr? inside k e e' → EnclosedDecls inside m ds ds' →
      EnclosedDecls inside (k + m) (.mk span n e :: ds) (.mk span n e' :: ds')

/-- Parentheses were put into the first part of a loop's head. -/
inductive ForInit.Enclosed : Bool → Nat → ForInit → ForInit → Prop
  | none {inside : Bool} : ForInit.Enclosed inside 0 .none .none
  | decls {inside : Bool} {k : Nat} {span : Span} {kind : DeclKind} {ds ds' : List Decl} :
      EnclosedDecls inside k ds ds' →
      ForInit.Enclosed inside k (.decls (.mk span kind ds)) (.decls (.mk span kind ds'))
  | expr {inside : Bool} {k : Nat} {e e' : Expr} :
      Expr.Enclosed inside k e e' → ForInit.Enclosed inside k (.expr e) (.expr e')

/-- Parentheses were put into clauses. -/
inductive EnclosedClauses : Bool → Nat → List Clause → List Clause → Prop
  | nil {inside : Bool} : EnclosedClauses inside 0 [] []
  | cons {inside : Bool} {k m l : Nat} {span : Span} {t t' : Option Expr} {ss ss' : List Stmt}
      {cs cs' : List Clause} :
      EnclosedExpr? inside k t t' → EnclosedStmts inside m ss ss' →
      EnclosedClauses inside l cs cs' →
      EnclosedClauses inside (k + m + l) (.mk span t ss :: cs) (.mk span t' ss' :: cs')

/-- Parentheses were put into a handler. -/
inductive Handler.Enclosed : Bool → Nat → Handler → Handler → Prop
  | none {inside : Bool} : Handler.Enclosed inside 0 .none .none
  | catching {inside : Bool} {k : Nat} {span : Span} {n : Ident} {b b' : Block} :
      Block.Enclosed inside k b b' →
      Handler.Enclosed inside k (.catching span n b) (.catching span n b')

end

/-! ### What is looked through -/

theorem Expr.Enclosed.identText? {inside : Bool} {k : Nat} {e e' : Expr} :
    Expr.Enclosed inside k e e' → e'.identText? = e.identText?
  | .same _ => rfl
  | .enclose _ h => h.identText?
  | .paren h => h.identText?
  | .array _ => rfl
  | .object _ => rfl
  | .member _ _ => rfl
  | .receiver _ _ => rfl
  | .index _ _ => rfl
  | .call _ _ => rfl
  | .construct _ _ => rfl
  | .function _ => rfl
  | .wordOp _ => rfl
  | .before _ => rfl
  | .after _ => rfl
  | .binary _ _ => rfl
  | .conditional _ _ _ => rfl

/-- The object and the name of an expression that is a member, looking through parentheses. -/
def Expr.asMember? (e : Expr) : Option (Option String × String) :=
  match e.skipParens with
  | .member _ o n => some (o.identText?, n.text)
  | _ => none

theorem Expr.isMemberOf_eq (e : Expr) (object name : String) :
    e.isMemberOf object name = (e.asMember? == some (some object, name)) := by
  unfold Expr.isMemberOf Expr.asMember?
  cases e.skipParens <;> first | rfl | exact Bool.and_comm _ _

theorem Expr.prototypeOf?_eq (e : Expr) :
    e.prototypeOf? = e.asMember?.bind fun m => if m.2 == "prototype" then m.1 else none := by
  unfold Expr.prototypeOf? Expr.asMember?
  cases e.skipParens <;> rfl

theorem Expr.Enclosed.asMember? {inside : Bool} {k : Nat} {e e' : Expr} :
    Expr.Enclosed inside k e e' → e'.asMember? = e.asMember?
  | .same _ => rfl
  | .enclose _ h => h.asMember?
  | .paren h => h.asMember?
  | .array _ => rfl
  | .object _ => rfl
  | .member h _ => congrArg (fun o => some (o, _)) h.identText?
  | .receiver h _ => congrArg (fun o => some (o, _)) h.identText?
  | .index _ _ => rfl
  | .call _ _ => rfl
  | .construct _ _ => rfl
  | .function _ => rfl
  | .wordOp _ => rfl
  | .before _ => rfl
  | .after _ => rfl
  | .binary _ _ => rfl
  | .conditional _ _ _ => rfl

/-- An assignment to a property of an object means what it meant before the object was enclosed. -/
theorem Expr.Enclosed.siteFindings {inside : Bool} {k : Nat} {o o' : Expr}
    (h : Expr.Enclosed inside k o o') (site : AssignmentSite) (name : String) :
    site.findings o' name = site.findings o name := by
  simp only [AssignmentSite.findings, exportTarget?, Expr.prototypeOf?_eq, Expr.isMemberOf_eq,
    h.identText?, h.asMember?]

/-! ### The flow of control -/

mutual

theorem Stmt.Enclosed.breaksOut {inside : Bool} {k : Nat} {s s' : Stmt} :
    Stmt.Enclosed inside k s s' → s'.breaksOut = s.breaksOut
  | .same _ => rfl
  | .declaration _ => rfl
  | .function _ => rfl
  | .block h => h.breaksOut
  | .expression _ => rfl
  | .ifElse _ hy hn => congrArg₂ (· || ·) hy.breaksOut hn.breaksOut
  | .doWhile _ _ => rfl
  | .whileDo _ _ => rfl
  | .forLoop _ _ _ _ => rfl
  | .forIn _ _ _ => rfl
  | .returnWith _ => rfl
  | .switchOn _ _ => rfl
  | .labeled h => h.breaksOut
  | .throwing _ => rfl
  | .tryCatch hb hh hf =>
    congrArg₂ (· || ·) (congrArg₂ (· || ·) hb.breaksOut hh.breaksOut) hf.breaksOut

theorem EnclosedStmts.breaksOut {inside : Bool} {k : Nat} {ss ss' : List Stmt} :
    EnclosedStmts inside k ss ss' → anyBreaksOut ss' = anyBreaksOut ss
  | .nil => rfl
  | .cons h hs => congrArg₂ (· || ·) h.breaksOut hs.breaksOut

theorem EnclosedStmt?.breaksOut {inside : Bool} {k : Nat} {s s' : Option Stmt} :
    EnclosedStmt? inside k s s' → optBreaksOut s' = optBreaksOut s
  | .none => rfl
  | .some h => h.breaksOut

theorem Block.Enclosed.breaksOut {inside : Bool} {k : Nat} {b b' : Block} :
    Block.Enclosed inside k b b' → b'.breaksOut = b.breaksOut
  | .mk h => h.breaksOut

theorem EnclosedBlock?.breaksOut {inside : Bool} {k : Nat} {b b' : Option Block} :
    EnclosedBlock? inside k b b' → optBlockBreaksOut b' = optBlockBreaksOut b
  | .none => rfl
  | .some h => h.breaksOut

theorem Handler.Enclosed.breaksOut {inside : Bool} {k : Nat} {h h' : Handler} :
    Handler.Enclosed inside k h h' → h'.breaksOut = h.breaksOut
  | .none => rfl
  | .catching h => h.breaksOut

end

mutual

theorem Stmt.Enclosed.jumpsToLabel {inside : Bool} {k : Nat} {s s' : Stmt} :
    Stmt.Enclosed inside k s s' → s'.jumpsToLabel = s.jumpsToLabel
  | .same _ => rfl
  | .declaration _ => rfl
  | .function _ => rfl
  | .block h => h.jumpsToLabel
  | .expression _ => rfl
  | .ifElse _ hy hn => congrArg₂ (· || ·) hy.jumpsToLabel hn.jumpsToLabel
  | .doWhile h _ => h.jumpsToLabel
  | .whileDo _ h => h.jumpsToLabel
  | .forLoop _ _ _ h => h.jumpsToLabel
  | .forIn _ _ h => h.jumpsToLabel
  | .returnWith _ => rfl
  | .switchOn _ h => h.jumpsToLabel
  | .labeled h => h.jumpsToLabel
  | .throwing _ => rfl
  | .tryCatch hb hh hf =>
    congrArg₂ (· || ·) (congrArg₂ (· || ·) hb.jumpsToLabel hh.jumpsToLabel) hf.jumpsToLabel

theorem EnclosedStmts.jumpsToLabel {inside : Bool} {k : Nat} {ss ss' : List Stmt} :
    EnclosedStmts inside k ss ss' → anyJumpsToLabel ss' = anyJumpsToLabel ss
  | .nil => rfl
  | .cons h hs => congrArg₂ (· || ·) h.jumpsToLabel hs.jumpsToLabel

theorem EnclosedStmt?.jumpsToLabel {inside : Bool} {k : Nat} {s s' : Option Stmt} :
    EnclosedStmt? inside k s s' → optJumpsToLabel s' = optJumpsToLabel s
  | .none => rfl
  | .some h => h.jumpsToLabel

theorem Block.Enclosed.jumpsToLabel {inside : Bool} {k : Nat} {b b' : Block} :
    Block.Enclosed inside k b b' → b'.jumpsToLabel = b.jumpsToLabel
  | .mk h => h.jumpsToLabel

theorem EnclosedBlock?.jumpsToLabel {inside : Bool} {k : Nat} {b b' : Option Block} :
    EnclosedBlock? inside k b b' → optBlockJumpsToLabel b' = optBlockJumpsToLabel b
  | .none => rfl
  | .some h => h.jumpsToLabel

theorem EnclosedClauses.jumpsToLabel {inside : Bool} {k : Nat} {cs cs' : List Clause} :
    EnclosedClauses inside k cs cs' → anyClauseJumpsToLabel cs' = anyClauseJumpsToLabel cs
  | .nil => rfl
  | .cons _ hs hcs => congrArg₂ (· || ·) hs.jumpsToLabel hcs.jumpsToLabel

theorem Handler.Enclosed.jumpsToLabel {inside : Bool} {k : Nat} {h h' : Handler} :
    Handler.Enclosed inside k h h' → h'.jumpsToLabel = h.jumpsToLabel
  | .none => rfl
  | .catching h => h.jumpsToLabel

end

theorem EnclosedExpr?.isNone {inside : Bool} {k : Nat} {e e' : Option Expr} :
    EnclosedExpr? inside k e e' → e'.isNone = e.isNone
  | .none => rfl
  | .some _ => rfl

theorem EnclosedClauses.hasDefault {inside : Bool} {k : Nat} {cs cs' : List Clause} :
    EnclosedClauses inside k cs cs' → hasDefault cs' = hasDefault cs
  | .nil => rfl
  | .cons ht _ hcs => congrArg₂ (· || ·) ht.isNone hcs.hasDefault

theorem EnclosedClauses.isEmpty {inside : Bool} {k : Nat} {cs cs' : List Clause} :
    EnclosedClauses inside k cs cs' → cs'.isEmpty = cs.isEmpty
  | .nil => rfl
  | .cons _ _ _ => rfl

theorem lastCompletes_cons (span : Span) (test : Option Expr) (ss : List Stmt)
    (cs : List Clause) :
    lastCompletes (.mk span test ss :: cs) =
      if cs.isEmpty then allComplete ss else lastCompletes cs := by
  cases cs <;> rfl

theorem EnclosedClauses.breaksOut {inside : Bool} {k : Nat} {cs cs' : List Clause} :
    EnclosedClauses inside k cs cs' → anyClauseBreaksOut cs' = anyClauseBreaksOut cs
  | .nil => rfl
  | .cons _ hs hcs => congrArg₂ (· || ·) hs.breaksOut hcs.breaksOut

mutual

theorem Stmt.Enclosed.canComplete {inside : Bool} {k : Nat} {s s' : Stmt} :
    Stmt.Enclosed inside k s s' → s'.canComplete = s.canComplete
  | .same _ => rfl
  | .declaration _ => rfl
  | .function _ => rfl
  | .block h => h.canComplete
  | .expression _ => rfl
  | .ifElse _ hy hn => congrArg₂ (· || ·) hn.canComplete hy.canComplete
  | .doWhile _ _ => rfl
  | .whileDo _ _ => rfl
  | .forLoop _ _ _ _ => rfl
  | .forIn _ _ _ => rfl
  | .returnWith _ => rfl
  | .switchOn _ h =>
    congrArg₂ (· || ·) (congrArg₂ (! · || ·) h.hasDefault h.lastCompletes) h.breaksOut
  | .labeled h => congrArg₂ (· || ·) h.canComplete h.jumpsToLabel
  | .throwing _ => rfl
  | .tryCatch hb hh hf =>
    congrArg₂ (· && ·) hf.canComplete (congrArg₂ (· || ·) hb.canComplete hh.canComplete)

theorem EnclosedStmts.allComplete {inside : Bool} {k : Nat} {ss ss' : List Stmt} :
    EnclosedStmts inside k ss ss' → allComplete ss' = allComplete ss
  | .nil => rfl
  | .cons h hs => congrArg₂ (· && ·) h.canComplete hs.allComplete

theorem EnclosedStmt?.canComplete {inside : Bool} {k : Nat} {s s' : Option Stmt} :
    EnclosedStmt? inside k s s' → optCanComplete s' = optCanComplete s
  | .none => rfl
  | .some h => h.canComplete

theorem EnclosedClauses.lastCompletes {inside : Bool} {k : Nat} {cs cs' : List Clause} :
    EnclosedClauses inside k cs cs' → lastCompletes cs' = lastCompletes cs
  | .nil => rfl
  | .cons _ hs hcs => by
    rw [lastCompletes_cons, lastCompletes_cons, hcs.isEmpty, hs.allComplete, hcs.lastCompletes]

theorem Block.Enclosed.canComplete {inside : Bool} {k : Nat} {b b' : Block} :
    Block.Enclosed inside k b b' → b'.canComplete = b.canComplete
  | .mk h => h.allComplete

theorem EnclosedBlock?.canComplete {inside : Bool} {k : Nat} {b b' : Option Block} :
    EnclosedBlock? inside k b b' → finalizerCompletes b' = finalizerCompletes b
  | .none => rfl
  | .some h => h.canComplete

theorem Handler.Enclosed.canComplete {inside : Bool} {k : Nat} {h h' : Handler} :
    Handler.Enclosed inside k h h' → h'.canComplete = h.canComplete
  | .none => rfl
  | .catching h => h.canComplete

end

/-! ### What is lost -/

end Script

/-- The second function is the first one with some of its accesses missing. -/
structure FunctionSummary.Fewer (f g : FunctionSummary) : Prop where
  accesses : g.accesses.Sublist f.accesses
  rest : g = { f with accesses := g.accesses }

/-- The number of accesses in the functions that were found, and in the function around them. -/
def Findings.accessCount (inside : Bool) (f : Findings) : Nat :=
  (if inside then f.accesses.length else 0) + (f.functions.map (·.accesses.length)).sum

/-- Between the first findings and the second, accesses behind `lost` receivers were lost, and
nothing else changed. -/
structure Findings.Loses (inside : Bool) (lost : Nat) (f g : Findings) : Prop where
  functions : List.Forall₂ FunctionSummary.Fewer f.functions g.functions
  accesses : g.accesses.Sublist f.accesses
  returns : g.returns = f.returns
  prototypes : g.prototypes = f.prototypes
  exports : g.exports = f.exports
  count : g.accessCount inside + lost ≤ f.accessCount inside
  none : lost = 0 → g.functions = f.functions ∧ (inside = true → g.accesses = f.accesses)

theorem FunctionSummary.Fewer.refl (f : FunctionSummary) : f.Fewer f := ⟨.refl _, rfl⟩

namespace Findings

variable {inside : Bool} {k m : Nat} {f f' g g' : Findings}

theorem accessCount_append :
    (f ++ g).accessCount inside = f.accessCount inside + g.accessCount inside := by
  show (if inside then (f.accesses ++ g.accesses).length else 0) +
    ((f.functions ++ g.functions).map _).sum = _
  rw [List.length_append, List.map_append, List.sum_append]
  unfold accessCount
  split <;> omega

theorem Loses.refl (f : Findings) : Loses inside 0 f f where
  functions := List.forall₂_same.mpr fun f _ => .refl f
  accesses := .refl _
  returns := rfl
  prototypes := rfl
  exports := rfl
  count := Nat.le_refl _
  none _ := ⟨rfl, fun _ => rfl⟩

theorem Loses.append (hf : Loses inside k f f') (hg : Loses inside m g g') :
    Loses inside (k + m) (f ++ g) (f' ++ g') where
  functions := List.rel_append hf.functions hg.functions
  accesses := hf.accesses.append hg.accesses
  returns := congrArg₂ (· ++ ·) hf.returns hg.returns
  prototypes := congrArg₂ (· ++ ·) hf.prototypes hg.prototypes
  exports := congrArg₂ (· ++ ·) hf.exports hg.exports
  count := by
    have := hf.count
    have := hg.count
    rw [accessCount_append, accessCount_append]
    omega
  none h := by
    obtain ⟨hfs, has⟩ := hf.none (by omega)
    obtain ⟨hgs, hbs⟩ := hg.none (by omega)
    exact ⟨congrArg₂ (· ++ ·) hfs hgs, fun h => congrArg₂ (· ++ ·) (has h) (hbs h)⟩

theorem Loses.append_left (f : Findings) (hg : Loses inside m g g') :
    Loses inside m (f ++ g) (f ++ g') :=
  m.zero_add ▸ (Loses.refl f).append hg

/-- What was lost in the body of a function is lost in the function. -/
theorem Loses.ofFunction {name : Option String} {kind : FunctionKind} {pos line params : Nat}
    {ends ends' : Bool} (hends : ends' = ends) (h : Loses true k f g) :
    Loses inside k (.ofFunction name kind pos line params ends f)
      (.ofFunction name kind pos line params ends' g) where
  functions := .cons ⟨h.accesses, by simp only [h.returns, hends]⟩ h.functions
  accesses := .slnil
  returns := rfl
  prototypes := h.prototypes
  exports := h.exports
  count := by
    have hcount := h.count
    simp only [accessCount, Findings.ofFunction, List.map_cons, List.sum_cons, List.length_nil,
      if_true, ite_self] at hcount ⊢
    omega
  none hk := by
    obtain ⟨hfunctions, haccesses⟩ := h.none hk
    simp only [Findings.ofFunction, hfunctions, haccesses rfl, h.returns, hends, implies_true,
      and_self]

/-- The accesses behind a receiver are lost, and nothing else is found there. -/
theorem Loses.receiver (as : List ThisAccess) (has : as ≠ []) :
    Loses inside inside.toNat { accesses := as } .empty where
  functions := .nil
  accesses := List.nil_sublist _
  returns := rfl
  prototypes := rfl
  exports := rfl
  count := by
    have := List.length_pos_iff.mpr has
    cases inside <;> simp [accessCount, Findings.empty]; omega
  none h := by
    cases inside with
    | false => exact ⟨rfl, fun h => nomatch h⟩
    | true => nomatch h

end Findings

namespace Script

/-! ### Findings -/

theorem Expr.findings_member_value {o : Expr} (h : o.isThis = false) (lines : LineMap)
    (span : Span) (n : Ident) :
    (Expr.member span o n).findings lines .value = o.findings lines .value := by
  cases o <;> first | rfl | cases h

theorem Expr.findings_member_target {o : Expr} (h : o.isThis = false) (lines : LineMap)
    (span : Span) (n : Ident) (site : AssignmentSite) :
    (Expr.member span o n).findings lines (.target site) =
      site.findings o n.text ++ o.findings lines .value := by
  cases o <;> first | rfl | cases h

/-- Parentheses make no receiver of what is none. -/
theorem Expr.Enclosed.isThis {inside : Bool} {k : Nat} {e e' : Expr} :
    Expr.Enclosed inside k e e' → e.isThis = false → e'.isThis = false
  | .same _ => id
  | .enclose _ _ => fun _ => rfl
  | .array _ => id
  | .object _ => id
  | .member _ _ => id
  | .receiver _ _ => id
  | .index _ _ => id
  | .call _ _ => id
  | .construct _ _ => id
  | .paren _ => id
  | .function _ => id
  | .wordOp _ => id
  | .before _ => id
  | .after _ => id
  | .binary _ _ => id
  | .conditional _ _ _ => id

/-- An enclosed `this` alone is no access. -/
theorem Expr.Enclosed.of_this {inside : Bool} {k : Nat} {span : Span} {e' : Expr}
    (lines : LineMap) : Expr.Enclosed inside k (.this span) e' →
      ∀ role, e'.findings lines role = .empty
  | .same _, .value => rfl
  | .same _, .target _ => rfl
  | .enclose _ h, .value => h.of_this lines .value
  | .enclose _ h, .target site => h.of_this lines (.target site)

open Findings (Loses)

/-- A field behind an enclosed `this` is not found as the receiver's. -/
theorem Expr.Enclosed.loses_receiver {inside : Bool} {span thisSpan : Span} {o' : Expr} {n : Ident}
    (h : Expr.Enclosed inside 0 (.this thisSpan) o') (hthis : o'.isThis = false) (lines : LineMap)
    (role : Role) :
    Loses inside inside.toNat ((Expr.member span (.this thisSpan) n).findings lines role)
      ((Expr.member span o' n).findings lines role) := by
  cases role with
  | value =>
    rw [findings_member_value hthis, h.of_this]
    exact .receiver [⟨n.text, false⟩] (List.cons_ne_nil _ _)
  | target site =>
    have hsite : site.findings (.this thisSpan) n.text = .empty := by
      unfold AssignmentSite.findings
      split <;> rfl
    rw [findings_member_target hthis, h.of_this, h.siteFindings, hsite]
    show Loses inside _ ((if site.plain then Findings.empty else .access n.text false) ++ _) _
    split
    · exact .receiver [⟨n.text, true⟩] (List.cons_ne_nil _ _)
    · exact .receiver [⟨n.text, false⟩, ⟨n.text, true⟩] (List.cons_ne_nil _ _)

theorem Expr.Enclosed.loses_member {inside : Bool} {k : Nat} {span : Span} {o o' : Expr}
    {n : Ident} (h : Expr.Enclosed inside k o o') (hthis : o.isThis = true → o'.isThis = true)
    (lines : LineMap) (hvalue : Loses inside k (o.findings lines .value) (o'.findings lines .value))
    (role : Role) :
    Loses inside k ((Expr.member span o n).findings lines role)
      ((Expr.member span o' n).findings lines role) := by
  cases ho : o.isThis with
  | true =>
    -- a `this` that still is one was not enclosed, so nothing changed
    have hk : k = 0 ∧ (Expr.member span o' n).findings lines role =
        (Expr.member span o n).findings lines role := by
      cases h with
      | same => exact ⟨rfl, rfl⟩
      | enclose => exact absurd (hthis ho) nofun
      | _ => cases ho
    rw [hk.1, hk.2]
    exact .refl _
  | false =>
    cases role with
    | value => rwa [findings_member_value ho, findings_member_value (h.isThis ho)]
    | target site =>
      rw [findings_member_target ho, findings_member_target (h.isThis ho), h.siteFindings]
      exact .append_left _ hvalue

/-- An operator with its operands, an assignment among them. -/
theorem loses_binary {inside : Bool} {k m : Nat} {l l' r r' : Expr} {op : TokenKind} {span : Span}
    {lines : LineMap} (hr : r'.identText? = r.identText?)
    (hl : ∀ role, Loses inside k (l.findings lines role) (l'.findings lines role))
    (hvalue : Loses inside m (r.findings lines .value) (r'.findings lines .value)) (role : Role) :
    Loses inside (k + m) ((Expr.binary span l op r).findings lines role)
      ((Expr.binary span l' op r').findings lines role) := by
  cases role <;>
  · show Loses inside _ (if op.isAssignment then _ else _) (if op.isAssignment then _ else _)
    rw [hr]
    split
    · exact (hl _).append hvalue
    · exact (hl .value).append hvalue

mutual

/-- What is lost in an expression, whatever it is used for. -/
theorem Expr.Enclosed.findings {inside : Bool} {k : Nat} {e e' : Expr} (lines : LineMap) :
    Expr.Enclosed inside k e e' → ∀ role,
      Loses inside k (e.findings lines role) (e'.findings lines role)
  | .same _, _ => .refl _
  | .enclose _ h, role => by cases role <;> exact h.findings lines _
  | .paren h, role => by cases role <;> exact h.findings lines _
  | .array h, role => by cases role <;> exact h.findings lines
  | .object h, role => by cases role <;> exact h.findings lines
  | .member h hthis, role => h.loses_member hthis lines (h.findings lines .value) role
  | .receiver h hthis, role => h.loses_receiver hthis lines role
  | .index ho hi, role => by
    cases role <;> exact (ho.findings lines .value).append (hi.findings lines .value)
  | .call hc has, role => by
    cases role <;> exact (hc.findings lines .value).append (has.findings lines)
  | .construct hc has, role => by
    cases role <;> exact (hc.findings lines .value).append (has.findings lines)
  | .function h, role => by
    cases role <;> exact (h.findings lines false).ofFunction h.canComplete
  | .wordOp h, role => by cases role <;> exact h.findings lines .value
  | .before h, role => by cases role <;> exact h.findings lines .value
  | .after h, role => by cases role <;> exact h.findings lines .value
  | .binary hl hr, role =>
    loses_binary hr.identText? (hl.findings lines) (hr.findings lines .value) role
  | .conditional ht hy hn, role => by
    have htest := ht.findings lines .value
    cases role <;> exact
      (htest.append (hy.findings lines .value)).append (hn.findings lines .value)

theorem EnclosedExprs.findings {inside : Bool} {k : Nat} {es es' : List Expr} (lines : LineMap) :
    EnclosedExprs inside k es es' →
      Loses inside k (findingsOfExprs lines es) (findingsOfExprs lines es')
  | .nil => .refl _
  | .cons h hs => (h.findings lines .value).append (hs.findings lines)

theorem EnclosedExpr?.findings {inside : Bool} {k : Nat} {e e' : Option Expr} (lines : LineMap) :
    EnclosedExpr? inside k e e' →
      Loses inside k (findingsOfExpr? lines e) (findingsOfExpr? lines e')
  | .none => .refl _
  | .some h => h.findings lines .value

theorem EnclosedProperties.findings {inside : Bool} {k : Nat} {ps ps' : List Property}
    (lines : LineMap) : EnclosedProperties inside k ps ps' →
      Loses inside k (findingsOfProperties lines ps) (findingsOfProperties lines ps')
  | .nil => .refl _
  | .cons h hs => (h.findings lines .value).append (hs.findings lines)

/-- What is lost in a statement, whether control gets there or not. -/
theorem Stmt.Enclosed.findings {inside : Bool} {k : Nat} {s s' : Stmt} (lines : LineMap) :
    Stmt.Enclosed inside k s s' → ∀ dead,
      Loses inside k (s.findings lines dead) (s'.findings lines dead)
  | .same _, _ => .refl _
  | .declaration h, _ => h.findings lines
  | .function h, _ => (h.findings lines false).ofFunction h.canComplete
  | .block h, dead => h.findings lines dead
  | .expression h, _ => h.findings lines .value
  | .ifElse ht hy hn, dead =>
    ((ht.findings lines .value).append (hy.findings lines dead)).append (hn.findings lines dead)
  | .doWhile hb ht, dead => (hb.findings lines dead).append (ht.findings lines .value)
  | .whileDo ht hb, dead => (ht.findings lines .value).append (hb.findings lines dead)
  | .forLoop hi ht hu hb, dead =>
    (((hi.findings lines).append (ht.findings lines)).append (hu.findings lines)).append
      (hb.findings lines dead)
  | .forIn hi ho hb, dead =>
    ((hi.findings lines).append (ho.findings lines .value)).append (hb.findings lines dead)
  | .returnWith hv, dead => .append_left _ (hv.findings lines)
  | .switchOn he hcs, dead => (he.findings lines .value).append (hcs.findings lines dead)
  | .labeled h, dead => h.findings lines dead
  | .throwing h, _ => h.findings lines .value
  | .tryCatch hb hh hf, dead =>
    ((hb.findings lines dead).append (hh.findings lines dead)).append (hf.findings lines dead)

theorem EnclosedStmts.findings {inside : Bool} {k : Nat} {ss ss' : List Stmt} (lines : LineMap) :
    EnclosedStmts inside k ss ss' → ∀ dead,
      Loses inside k (findingsOfStmts lines dead ss) (findingsOfStmts lines dead ss')
  | .nil, _ => .refl _
  | .cons h hs, dead => by
    -- what follows is dead if control never leaves the statement, which is as it was
    have hrest := hs.findings lines
    exact (h.findings lines dead).append (h.canComplete ▸ hrest _)

theorem EnclosedStmt?.findings {inside : Bool} {k : Nat} {s s' : Option Stmt} (lines : LineMap) :
    EnclosedStmt? inside k s s' → ∀ dead,
      Loses inside k (findingsOfStmt? lines dead s) (findingsOfStmt? lines dead s')
  | .none, _ => .refl _
  | .some h, dead => h.findings lines dead

theorem Block.Enclosed.findings {inside : Bool} {k : Nat} {b b' : Block} (lines : LineMap) :
    Block.Enclosed inside k b b' → ∀ dead,
      Loses inside k (b.findings lines dead) (b'.findings lines dead)
  | .mk h, dead => h.findings lines dead

theorem EnclosedBlock?.findings {inside : Bool} {k : Nat} {b b' : Option Block}
    (lines : LineMap) : EnclosedBlock? inside k b b' → ∀ dead,
      Loses inside k (findingsOfBlock? lines dead b) (findingsOfBlock? lines dead b')
  | .none, _ => .refl _
  | .some h, dead => h.findings lines dead

theorem EnclosedDecls.findings {inside : Bool} {k : Nat} {ds ds' : List Decl} (lines : LineMap) :
    EnclosedDecls inside k ds ds' →
      Loses inside k (findingsOfDecls lines ds) (findingsOfDecls lines ds')
  | .nil => .refl _
  | .cons h hs => (h.findings lines).append (hs.findings lines)

theorem ForInit.Enclosed.findings {inside : Bool} {k : Nat} {i i' : ForInit} (lines : LineMap) :
    ForInit.Enclosed inside k i i' → Loses inside k (i.findings lines) (i'.findings lines)
  | .none => .refl _
  | .decls h => h.findings lines
  | .expr h => h.findings lines .value

theorem EnclosedClauses.findings {inside : Bool} {k : Nat} {cs cs' : List Clause}
    (lines : LineMap) : EnclosedClauses inside k cs cs' → ∀ dead,
      Loses inside k (findingsOfClauses lines dead cs) (findingsOfClauses lines dead cs')
  | .nil, _ => .refl _
  | .cons ht hs hcs, dead =>
    ((ht.findings lines).append (hs.findings lines dead)).append (hcs.findings lines dead)

theorem Handler.Enclosed.findings {inside : Bool} {k : Nat} {h h' : Handler} (lines : LineMap) :
    Handler.Enclosed inside k h h' → ∀ dead,
      Loses inside k (h.findings lines dead) (h'.findings lines dead)
  | .none, _ => .refl _
  | .catching h, dead => h.findings lines dead

end

/-! ### The summary -/

/-- Parentheses leave the summary of a program as it is just if they enclose no receiver of a field
in a function. Otherwise the functions have fewer accesses, and nothing else changes. -/
theorem summary_same_iff {s s' : Script} {lost : Nat}
    (h : EnclosedStmts false lost s.statements s'.statements) (lines : LineMap) :
    (s'.summarize lines = s.summarize lines ↔ lost = 0) ∧
    (s'.summarize lines).prototypes = (s.summarize lines).prototypes ∧
    (s'.summarize lines).exports = (s.summarize lines).exports ∧
    List.Forall₂ FunctionSummary.Fewer (s.summarize lines).functions
      (s'.summarize lines).functions := by
  have hloses := h.findings lines false
  refine ⟨⟨fun hsame => ?_, fun hlost => ?_⟩, hloses.prototypes, hloses.exports, hloses.functions⟩
  · -- each lost receiver takes an access with it, and there are as many accesses as before
    have hfunctions : (findingsOfStmts lines false s'.statements).functions =
        (findingsOfStmts lines false s.statements).functions := congrArg Summary.functions hsame
    have hcount := hloses.count
    simp only [Findings.accessCount, hfunctions] at hcount
    simpa using hcount
  · simp only [summarize, (hloses.none hlost).1, hloses.prototypes, hloses.exports]

/-- The program `function F(x) { target = value; return value; }`. -/
def assigning (target value : Expr) : Script where
  length := 60
  statements := [.function ⟨0, 60⟩ ⟨⟨9, 10⟩, "F", false⟩ [⟨⟨11, 12⟩, ⟨11, 12⟩, "x", false⟩]
    (.mk ⟨14, 60⟩ [.expression ⟨16, 40⟩ (.binary ⟨16, 39⟩ target (.mark .assign) value),
      .returnWith ⟨41, 58⟩ (some value)])]
  comments := []
  errors := []

/-- The field `x` of an object. -/
def fieldX (object : Expr) : Expr := .member ⟨16, 24⟩ object ⟨⟨23, 24⟩, "x", false⟩

/-- The variable `x`. -/
def variableX : Expr := .ident ⟨⟨27, 28⟩, "x", false⟩

theorem EnclosedStmts.assigning {k m l : Nat} {target target' value value' : Expr}
    (ht : Expr.Enclosed true k target target') (hv : Expr.Enclosed true m value value')
    (hl : k + m + (m + 0) = l) :
    EnclosedStmts false (l + 0) (assigning target value).statements
      (assigning target' value').statements :=
  hl ▸ .cons (.function (.mk (.cons (.expression (.binary ht hv))
    (.cons (.returnWith (.some hv)) .nil)))) .nil

/-- `(this.x) = (x)` assigns to a field as `this.x = x` does. -/
theorem summary_same_iff_field :
    EnclosedStmts false 0 (assigning (fieldX (.this ⟨16, 20⟩)) variableX).statements
      (assigning (.paren ⟨15, 25⟩ (fieldX (.this ⟨16, 20⟩))) (.paren ⟨26, 29⟩ variableX)).statements ∧
    (assigning (.paren ⟨15, 25⟩ (fieldX (.this ⟨16, 20⟩))) (.paren ⟨26, 29⟩ variableX)).summarize
      ⟨[]⟩ = (assigning (fieldX (.this ⟨16, 20⟩)) variableX).summarize ⟨[]⟩ := by
  have henclosed := EnclosedStmts.assigning (.enclose ⟨15, 25⟩ (.same (fieldX (.this ⟨16, 20⟩))))
    (.enclose ⟨26, 29⟩ (.same variableX)) rfl
  exact ⟨henclosed, (summary_same_iff henclosed ⟨[]⟩).1.mpr rfl⟩

/-- `(this).x = x` is not found to assign to a field. -/
theorem enclosed_receiver_lost :
    EnclosedStmts false 1 (assigning (fieldX (.this ⟨16, 20⟩)) variableX).statements
      (assigning (fieldX (.paren ⟨15, 21⟩ (.this ⟨16, 20⟩))) variableX).statements ∧
    ((assigning (fieldX (.this ⟨16, 20⟩)) variableX).summarize ⟨[]⟩).functions.map (·.accesses) =
      [[⟨"x", true⟩]] ∧
    ((assigning (fieldX (.paren ⟨15, 21⟩ (.this ⟨16, 20⟩))) variableX).summarize
      ⟨[]⟩).functions.map (·.accesses) = [[]] :=
  ⟨.assigning (.receiver (.enclose ⟨15, 21⟩ (.same _)) rfl) (.same variableX) rfl, rfl, rfl⟩

end Script
end Countersign
