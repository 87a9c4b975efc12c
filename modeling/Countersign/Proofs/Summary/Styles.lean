/-
# Programs in other quotes

Two programs are related if they are the same but for the quotes of their strings. A string whose
content is shared with the types that the program is checked against changes its quotes just if that
content is among those that change them everywhere. So does a string that is fixed because its own type
can become that of an element of an array. Any other string may change its quotes or keep them.

Nothing that a summary says of a program, and nothing that is hoisted in it, depends on its strings.

Key definitions: `StringLit.Restyled`, `Expr.Restyled`, `RestyledStmts`.
Key theorems: `Expr.Restyled.findings`, `RestyledStmts.summarize`, `RestyledStmts.vars`.
-/
import Countersign.Proofs.Summary.Parentheses
import Countersign.Proofs.Ty.Styles
import Countersign.Script.Vars
import Countersign.Verify.Value

namespace Countersign

/-- Whether the value of an operation has the very type of its right operand. -/
def Verify.OperatorRule.passesRight : OperatorRule → Bool
  | assign => true
  | sequence => true
  | _ => false

namespace Script

open Signature (textQuotes)
open Verify (operatorRule)

/-! ### Related programs -/

/-- The second string is the first one, perhaps in other quotes: a string with a shared content, or
one that is fixed, has them just if its content is among `s`. No fixed string has its own quote between
its two. -/
structure StringLit.Restyled (s : String → Bool) (shared : String → Prop) (fixed : Bool)
    (l l' : StringLit) : Prop where
  span : l'.span = l.span
  text : l'.text = l.text
  closed : fixed = true → quoteOf l.single ∉ l.text.toList
  quotes : shared l.text ∨ fixed = true → l'.single = (l.single ^^ turns s l.text)

/-- The names introduce one key, which has no quotes in it. -/
structure PropertyName.Restyled (n n' : PropertyName) : Prop where
  key : n'.key = n.key
  plain : textQuotes n.key = 0

variable (s : String → Bool) (shared : String → Prop)

mutual

/-- The second expression is the first one in other quotes. The flag says whether the type of the
expression can become that of an element of an array. -/
inductive Expr.Restyled : Bool → Expr → Expr → Prop
  | ident {fixed : Bool} (i : Ident) : Expr.Restyled fixed (.ident i) (.ident i)
  | string {fixed : Bool} {l l' : StringLit} :
      l.Restyled s shared fixed l' → Expr.Restyled fixed (.string l) (.string l')
  | number {fixed : Bool} {n : NumberLit} :
      (fixed = true → textQuotes n.text = 0) → Expr.Restyled fixed (.number n) (.number n)
  | regex {fixed : Bool} (span : Span) (text : String) :
      Expr.Restyled fixed (.regex span text) (.regex span text)
  | array {fixed : Bool} {span : Span} {es es' : List Expr} :
      RestyledExprs true es es' → Expr.Restyled fixed (.array span es) (.array span es')
  | object {fixed : Bool} {span : Span} {ps ps' : List Property} :
      RestyledProperties ps ps' → Expr.Restyled fixed (.object span ps) (.object span ps')
  | member {fixed : Bool} {span : Span} {o o' : Expr} {n : Ident} :
      Expr.Restyled false o o' → Expr.Restyled fixed (.member span o n) (.member span o' n)
  | index {fixed : Bool} {span : Span} {o o' i i' : Expr} :
      Expr.Restyled false o o' → Expr.Restyled false i i' →
      Expr.Restyled fixed (.index span o i) (.index span o' i')
  | call {fixed : Bool} {span : Span} {c c' : Expr} {as as' : List Expr} :
      Expr.Restyled false c c' → RestyledExprs false as as' →
      Expr.Restyled fixed (.call span c as) (.call span c' as')
  | construct {fixed : Bool} {span : Span} {c c' : Expr} {listed : Bool} {as as' : List Expr} :
      Expr.Restyled false c c' → RestyledExprs false as as' →
      Expr.Restyled fixed (.construct span c listed as) (.construct span c' listed as')
  | paren {fixed : Bool} {span : Span} {e e' : Expr} :
      Expr.Restyled fixed e e' → Expr.Restyled fixed (.paren span e) (.paren span e')
  | function {fixed : Bool} {span : Span} {n : Option Ident} {ps : List Param} {b b' : Block} :
      Block.Restyled b b' →
      Expr.Restyled fixed (.function span n ps b) (.function span n ps b')
  | wordOp {fixed : Bool} {span : Span} {op : WordOp} {e e' : Expr} :
      Expr.Restyled false e e' → Expr.Restyled fixed (.wordOp span op e) (.wordOp span op e')
  | before {fixed : Bool} {span : Span} {op : Mark} {e e' : Expr} :
      Expr.Restyled false e e' → Expr.Restyled fixed (.before span op e) (.before span op e')
  | after {fixed : Bool} {span : Span} {op : Mark} {e e' : Expr} :
      Expr.Restyled false e e' → Expr.Restyled fixed (.after span e op) (.after span e' op)
  | binary {fixed : Bool} {span : Span} {op : TokenKind} {l l' r r' : Expr} :
      Expr.Restyled false l l' →
      Expr.Restyled (fixed && (operatorRule op).passesRight) r r' →
      Expr.Restyled fixed (.binary span l op r) (.binary span l' op r')
  | conditional {fixed : Bool} {span : Span} {t t' y y' n n' : Expr} :
      Expr.Restyled false t t' → Expr.Restyled false y y' → Expr.Restyled false n n' →
      Expr.Restyled fixed (.conditional span t y n) (.conditional span t' y' n')
  | omitted {fixed : Bool} (span : Span) (faulty : Bool) :
      Expr.Restyled fixed (.omitted span faulty) (.omitted span faulty)
  | this {fixed : Bool} (span : Span) : Expr.Restyled fixed (.this span) (.this span)
  | null {fixed : Bool} (span : Span) : Expr.Restyled fixed (.null span) (.null span)
  | boolean {fixed : Bool} (span : Span) (value : Bool) :
      Expr.Restyled fixed (.boolean span value) (.boolean span value)

/-- The second expressions are the first ones in other quotes. -/
inductive RestyledExprs : Bool → List Expr → List Expr → Prop
  | nil {fixed : Bool} : RestyledExprs fixed [] []
  | cons {fixed : Bool} {e e' : Expr} {es es' : List Expr} :
      Expr.Restyled fixed e e' → RestyledExprs fixed es es' →
      RestyledExprs fixed (e :: es) (e' :: es')

/-- The second expression is the first one in other quotes, if there is one. -/
inductive RestyledExpr? : Option Expr → Option Expr → Prop
  | none : RestyledExpr? none none
  | some {e e' : Expr} : Expr.Restyled false e e' → RestyledExpr? (some e) (some e')

/-- The second properties are the first ones in other quotes. -/
inductive RestyledProperties : List Property → List Property → Prop
  | nil : RestyledProperties [] []
  | cons {span : Span} {n n' : PropertyName} {e e' : Expr} {ps ps' : List Property} :
      n.Restyled n' → Expr.Restyled false e e' → RestyledProperties ps ps' →
      RestyledProperties (.mk span n e :: ps) (.mk span n' e' :: ps')

/-- The second statement is the first one in other quotes. -/
inductive Stmt.Restyled : Stmt → Stmt → Prop
  | declaration {span listSpan : Span} {kind : DeclKind} {ds ds' : List Decl} :
      RestyledDecls ds ds' →
      Stmt.Restyled (.declaration span (.mk listSpan kind ds))
        (.declaration span (.mk listSpan kind ds'))
  | function {span : Span} {n : Ident} {ps : List Param} {b b' : Block} :
      Block.Restyled b b' → Stmt.Restyled (.function span n ps b) (.function span n ps b')
  | block {b b' : Block} : Block.Restyled b b' → Stmt.Restyled (.block b) (.block b')
  | empty (span : Span) : Stmt.Restyled (.empty span) (.empty span)
  | expression {span : Span} {e e' : Expr} :
      Expr.Restyled false e e' → Stmt.Restyled (.expression span e) (.expression span e')
  | ifElse {span : Span} {t t' : Expr} {y y' : Stmt} {n n' : Option Stmt} :
      Expr.Restyled false t t' → Stmt.Restyled y y' → RestyledStmt? n n' →
      Stmt.Restyled (.ifElse span t y n) (.ifElse span t' y' n')
  | doWhile {span : Span} {b b' : Stmt} {t t' : Expr} :
      Stmt.Restyled b b' → Expr.Restyled false t t' →
      Stmt.Restyled (.doWhile span b t) (.doWhile span b' t')
  | whileDo {span : Span} {b b' : Stmt} {t t' : Expr} :
      Expr.Restyled false t t' → Stmt.Restyled b b' →
      Stmt.Restyled (.whileDo span t b) (.whileDo span t' b')
  | forLoop {span : Span} {i i' : ForInit} {t t' u u' : Option Expr} {b b' : Stmt} :
      ForInit.Restyled i i' → RestyledExpr? t t' → RestyledExpr? u u' → Stmt.Restyled b b' →
      Stmt.Restyled (.forLoop span i t u b) (.forLoop span i' t' u' b')
  | forIn {span : Span} {i i' : ForInit} {o o' : Expr} {b b' : Stmt} :
      ForInit.Restyled i i' → Expr.Restyled false o o' → Stmt.Restyled b b' →
      Stmt.Restyled (.forIn span i o b) (.forIn span i' o' b')
  | continueTo (span : Span) (label : Option Ident) :
      Stmt.Restyled (.continueTo span label) (.continueTo span label)
  | breakTo (span : Span) (label : Option Ident) :
      Stmt.Restyled (.breakTo span label) (.breakTo span label)
  | returnWith {span : Span} {v v' : Option Expr} :
      RestyledExpr? v v' → Stmt.Restyled (.returnWith span v) (.returnWith span v')
  | switchOn {span : Span} {e e' : Expr} {cs cs' : List Clause} :
      Expr.Restyled false e e' → RestyledClauses cs cs' →
      Stmt.Restyled (.switchOn span e cs) (.switchOn span e' cs')
  | labeled {span : Span} {label : Ident} {b b' : Stmt} :
      Stmt.Restyled b b' → Stmt.Restyled (.labeled span label b) (.labeled span label b')
  | throwing {span : Span} {e e' : Expr} :
      Expr.Restyled false e e' → Stmt.Restyled (.throwing span e) (.throwing span e')
  | tryCatch {span : Span} {b b' : Block} {c c' : Handler} {f f' : Option Block} :
      Block.Restyled b b' → Handler.Restyled c c' → RestyledBlock? f f' →
      Stmt.Restyled (.tryCatch span b c f) (.tryCatch span b' c' f')
  | debugger (span : Span) : Stmt.Restyled (.debugger span) (.debugger span)

/-- The second statements are the first ones in other quotes. -/
inductive RestyledStmts : List Stmt → List Stmt → Prop
  | nil : RestyledStmts [] []
  | cons {t t' : Stmt} {ts ts' : List Stmt} :
      Stmt.Restyled t t' → RestyledStmts ts ts' → RestyledStmts (t :: ts) (t' :: ts')

/-- The second statement is the first one in other quotes, if there is one. -/
inductive RestyledStmt? : Option Stmt → Option Stmt → Prop
  | none : RestyledStmt? none none
  | some {t t' : Stmt} : Stmt.Restyled t t' → RestyledStmt? (some t) (some t')

/-- The second block is the first one in other quotes. -/
inductive Block.Restyled : Block → Block → Prop
  | mk {span : Span} {ts ts' : List Stmt} :
      RestyledStmts ts ts' → Block.Restyled (.mk span ts) (.mk span ts')

/-- The second block is the first one in other quotes, if there is one. -/
inductive RestyledBlock? : Option Block → Option Block → Prop
  | none : RestyledBlock? none none
  | some {b b' : Block} : Block.Restyled b b' → RestyledBlock? (some b) (some b')

/-- The second declarations are the first ones in other quotes. -/
inductive RestyledDecls : List Decl → List Decl → Prop
  | nil : RestyledDecls [] []
  | cons {span : Span} {n : Ident} {e e' : Option Expr} {ds ds' : List Decl} :
      RestyledExpr? e e' → RestyledDecls ds ds' →
      RestyledDecls (.mk span n e :: ds) (.mk span n e' :: ds')

/-- The second head of a loop starts like the first one in other quotes. -/
inductive ForInit.Restyled : ForInit → ForInit → Prop
  | none : ForInit.Restyled .none .none
  | decls {span : Span} {kind : DeclKind} {ds ds' : List Decl} :
      RestyledDecls ds ds' →
      ForInit.Restyled (.decls (.mk span kind ds)) (.decls (.mk span kind ds'))
  | expr {e e' : Expr} : Expr.Restyled false e e' → ForInit.Restyled (.expr e) (.expr e')

/-- The second clauses are the first ones in other quotes. -/
inductive RestyledClauses : List Clause → List Clause → Prop
  | nil : RestyledClauses [] []
  | cons {span : Span} {t t' : Option Expr} {ts ts' : List Stmt} {cs cs' : List Clause} :
      RestyledExpr? t t' → RestyledStmts ts ts' → RestyledClauses cs cs' →
      RestyledClauses (.mk span t ts :: cs) (.mk span t' ts' :: cs')

/-- The second handler is the first one in other quotes. -/
inductive Handler.Restyled : Handler → Handler → Prop
  | none : Handler.Restyled .none .none
  | catching {span : Span} {n : Ident} {b b' : Block} :
      Block.Restyled b b' → Handler.Restyled (.catching span n b) (.catching span n b')

end

variable {s shared} {fixed : Bool}

/-! ### What is looked through -/

namespace Expr.Restyled

variable {e e' : Expr}

theorem span (h : Expr.Restyled s shared fixed e e') : e'.span = e.span := by
  cases h with
  | string h => exact h.span
  | _ => rfl

theorem pos (h : Expr.Restyled s shared fixed e e') : e'.pos = e.pos :=
  congrArg Span.pos h.span

theorem skipParens {e e' : Expr} : Expr.Restyled s shared fixed e e' →
    Expr.Restyled s shared fixed e.skipParens e'.skipParens
  | .paren h => h.skipParens
  | .ident i => .ident i
  | .string h => .string h
  | .number h => .number h
  | .regex span text => .regex span text
  | .array h => .array h
  | .object h => .object h
  | .member h => .member h
  | .index h h' => .index h h'
  | .call h h' => .call h h'
  | .construct h h' => .construct h h'
  | .function h => .function h
  | .wordOp h => .wordOp h
  | .before h => .before h
  | .after h => .after h
  | .binary h h' => .binary h h'
  | .conditional h h' h'' => .conditional h h' h''
  | .omitted span faulty => .omitted span faulty
  | .this span => .this span
  | .null span => .null span
  | .boolean span value => .boolean span value

theorem identText? (h : Expr.Restyled s shared fixed e e') : e'.identText? = e.identText? := by
  have hskip := h.skipParens
  unfold Expr.identText?
  generalize e.skipParens = x at hskip ⊢
  generalize e'.skipParens = x' at hskip ⊢
  cases hskip <;> rfl

theorem isFunction (h : Expr.Restyled s shared fixed e e') :
    Verify.isFunction e' = Verify.isFunction e := by
  have hskip := h.skipParens
  unfold Verify.isFunction
  generalize e.skipParens = x at hskip ⊢
  generalize e'.skipParens = x' at hskip ⊢
  cases hskip <;> rfl

theorem asMember? (h : Expr.Restyled s shared fixed e e') : e'.asMember? = e.asMember? := by
  have hskip := h.skipParens
  unfold Expr.asMember?
  generalize e.skipParens = x at hskip ⊢
  generalize e'.skipParens = x' at hskip ⊢
  cases hskip with
  | member ho =>
    dsimp only
    rw [ho.identText?]
  | _ => rfl

theorem prototypeOf? (h : Expr.Restyled s shared fixed e e') :
    e'.prototypeOf? = e.prototypeOf? := by
  rw [prototypeOf?_eq, prototypeOf?_eq, h.asMember?]

theorem exportTarget? (h : Expr.Restyled s shared fixed e e') (name : String) :
    exportTarget? e' name = exportTarget? e name := by
  simp only [Script.exportTarget?, isMemberOf_eq, h.identText?, h.asMember?]

theorem siteFindings (h : Expr.Restyled s shared fixed e e') (site : AssignmentSite)
    (name : String) : site.findings e' name = site.findings e name := by
  rw [AssignmentSite.findings, AssignmentSite.findings, h.prototypeOf?, h.exportTarget?]

theorem isThis (h : Expr.Restyled s shared fixed e e') : e'.isThis = e.isThis := by
  cases h <;> rfl

theorem outline {fixed : Bool} {e e' : Expr} :
    Expr.Restyled s shared fixed e e' → Verify.outline e' = Verify.outline e
  | .member h => congrArg (· ++ "." ++ _) h.outline
  | .index h _ => congrArg (· ++ "[]") h.outline
  | .call h _ => congrArg (· ++ "()") h.outline
  | .paren h => h.outline
  | .ident _ => rfl
  | .string _ => rfl
  | .number _ => rfl
  | .regex _ _ => rfl
  | .array _ => rfl
  | .object _ => rfl
  | .construct _ _ => rfl
  | .function _ => rfl
  | .wordOp _ => rfl
  | .before _ => rfl
  | .after _ => rfl
  | .binary _ _ => rfl
  | .conditional _ _ _ => rfl
  | .omitted _ _ => rfl
  | .this _ => rfl
  | .null _ => rfl
  | .boolean _ _ => rfl

end Expr.Restyled

theorem RestyledExprs.length {es es' : List Expr} :
    RestyledExprs s shared fixed es es' → es'.length = es.length
  | .nil => rfl
  | .cons _ hs => congrArg (· + 1) hs.length

/-! ### The flow of control -/

mutual

theorem Stmt.Restyled.breaksOut {t t' : Stmt} :
    Stmt.Restyled s shared t t' → t'.breaksOut = t.breaksOut
  | .declaration _ => rfl
  | .function _ => rfl
  | .block h => h.breaksOut
  | .empty _ => rfl
  | .expression _ => rfl
  | .ifElse _ hy hn => congrArg₂ (· || ·) hy.breaksOut hn.breaksOut
  | .doWhile _ _ => rfl
  | .whileDo _ _ => rfl
  | .forLoop _ _ _ _ => rfl
  | .forIn _ _ _ => rfl
  | .continueTo _ _ => rfl
  | .breakTo _ _ => rfl
  | .returnWith _ => rfl
  | .switchOn _ _ => rfl
  | .labeled h => h.breaksOut
  | .throwing _ => rfl
  | .tryCatch hb hc hf =>
    congrArg₂ (· || ·) (congrArg₂ (· || ·) hb.breaksOut hc.breaksOut) hf.breaksOut
  | .debugger _ => rfl

theorem RestyledStmts.breaksOut {ts ts' : List Stmt} :
    RestyledStmts s shared ts ts' → anyBreaksOut ts' = anyBreaksOut ts
  | .nil => rfl
  | .cons h hs => congrArg₂ (· || ·) h.breaksOut hs.breaksOut

theorem RestyledStmt?.breaksOut {t t' : Option Stmt} :
    RestyledStmt? s shared t t' → optBreaksOut t' = optBreaksOut t
  | .none => rfl
  | .some h => h.breaksOut

theorem Block.Restyled.breaksOut {b b' : Block} :
    Block.Restyled s shared b b' → b'.breaksOut = b.breaksOut
  | .mk h => h.breaksOut

theorem RestyledBlock?.breaksOut {b b' : Option Block} :
    RestyledBlock? s shared b b' → optBlockBreaksOut b' = optBlockBreaksOut b
  | .none => rfl
  | .some h => h.breaksOut

theorem Handler.Restyled.breaksOut {c c' : Handler} :
    Handler.Restyled s shared c c' → c'.breaksOut = c.breaksOut
  | .none => rfl
  | .catching h => h.breaksOut

end

mutual

theorem Stmt.Restyled.jumpsToLabel {t t' : Stmt} :
    Stmt.Restyled s shared t t' → t'.jumpsToLabel = t.jumpsToLabel
  | .declaration _ => rfl
  | .function _ => rfl
  | .block h => h.jumpsToLabel
  | .empty _ => rfl
  | .expression _ => rfl
  | .ifElse _ hy hn => congrArg₂ (· || ·) hy.jumpsToLabel hn.jumpsToLabel
  | .doWhile h _ => h.jumpsToLabel
  | .whileDo _ h => h.jumpsToLabel
  | .forLoop _ _ _ h => h.jumpsToLabel
  | .forIn _ _ h => h.jumpsToLabel
  | .continueTo _ _ => rfl
  | .breakTo _ _ => rfl
  | .returnWith _ => rfl
  | .switchOn _ h => h.jumpsToLabel
  | .labeled h => h.jumpsToLabel
  | .throwing _ => rfl
  | .tryCatch hb hc hf =>
    congrArg₂ (· || ·) (congrArg₂ (· || ·) hb.jumpsToLabel hc.jumpsToLabel) hf.jumpsToLabel
  | .debugger _ => rfl

theorem RestyledStmts.jumpsToLabel {ts ts' : List Stmt} :
    RestyledStmts s shared ts ts' → anyJumpsToLabel ts' = anyJumpsToLabel ts
  | .nil => rfl
  | .cons h hs => congrArg₂ (· || ·) h.jumpsToLabel hs.jumpsToLabel

theorem RestyledStmt?.jumpsToLabel {t t' : Option Stmt} :
    RestyledStmt? s shared t t' → optJumpsToLabel t' = optJumpsToLabel t
  | .none => rfl
  | .some h => h.jumpsToLabel

theorem Block.Restyled.jumpsToLabel {b b' : Block} :
    Block.Restyled s shared b b' → b'.jumpsToLabel = b.jumpsToLabel
  | .mk h => h.jumpsToLabel

theorem RestyledBlock?.jumpsToLabel {b b' : Option Block} :
    RestyledBlock? s shared b b' → optBlockJumpsToLabel b' = optBlockJumpsToLabel b
  | .none => rfl
  | .some h => h.jumpsToLabel

theorem RestyledClauses.jumpsToLabel {cs cs' : List Clause} :
    RestyledClauses s shared cs cs' → anyClauseJumpsToLabel cs' = anyClauseJumpsToLabel cs
  | .nil => rfl
  | .cons _ hs hcs => congrArg₂ (· || ·) hs.jumpsToLabel hcs.jumpsToLabel

theorem Handler.Restyled.jumpsToLabel {c c' : Handler} :
    Handler.Restyled s shared c c' → c'.jumpsToLabel = c.jumpsToLabel
  | .none => rfl
  | .catching h => h.jumpsToLabel

end

theorem RestyledExpr?.isNone {e e' : Option Expr} :
    RestyledExpr? s shared e e' → e'.isNone = e.isNone
  | .none => rfl
  | .some _ => rfl

namespace RestyledClauses

variable {cs cs' : List Clause}

theorem hasDefault {cs cs' : List Clause} :
    RestyledClauses s shared cs cs' → hasDefault cs' = hasDefault cs
  | .nil => rfl
  | .cons ht _ hcs => congrArg₂ (· || ·) ht.isNone hcs.hasDefault

theorem isEmpty (h : RestyledClauses s shared cs cs') : cs'.isEmpty = cs.isEmpty := by
  cases h <;> rfl

theorem breaksOut {cs cs' : List Clause} :
    RestyledClauses s shared cs cs' → anyClauseBreaksOut cs' = anyClauseBreaksOut cs
  | .nil => rfl
  | .cons _ hs hcs => congrArg₂ (· || ·) hs.breaksOut hcs.breaksOut

end RestyledClauses

mutual

theorem Stmt.Restyled.canComplete {t t' : Stmt} :
    Stmt.Restyled s shared t t' → t'.canComplete = t.canComplete
  | .declaration _ => rfl
  | .function _ => rfl
  | .block h => h.canComplete
  | .empty _ => rfl
  | .expression _ => rfl
  | .ifElse _ hy hn => congrArg₂ (· || ·) hn.canComplete hy.canComplete
  | .doWhile _ _ => rfl
  | .whileDo _ _ => rfl
  | .forLoop _ _ _ _ => rfl
  | .forIn _ _ _ => rfl
  | .continueTo _ _ => rfl
  | .breakTo _ _ => rfl
  | .returnWith _ => rfl
  | .switchOn _ h =>
    congrArg₂ (· || ·) (congrArg₂ (! · || ·) h.hasDefault h.lastCompletes) h.breaksOut
  | .labeled h => congrArg₂ (· || ·) h.canComplete h.jumpsToLabel
  | .throwing _ => rfl
  | .tryCatch hb hc hf =>
    congrArg₂ (· && ·) hf.canComplete (congrArg₂ (· || ·) hb.canComplete hc.canComplete)
  | .debugger _ => rfl

theorem RestyledStmts.allComplete {ts ts' : List Stmt} :
    RestyledStmts s shared ts ts' → allComplete ts' = allComplete ts
  | .nil => rfl
  | .cons h hs => congrArg₂ (· && ·) h.canComplete hs.allComplete

theorem RestyledStmt?.canComplete {t t' : Option Stmt} :
    RestyledStmt? s shared t t' → optCanComplete t' = optCanComplete t
  | .none => rfl
  | .some h => h.canComplete

theorem RestyledClauses.lastCompletes {cs cs' : List Clause} :
    RestyledClauses s shared cs cs' → lastCompletes cs' = lastCompletes cs
  | .nil => rfl
  | .cons _ hs hcs => by
    rw [lastCompletes_cons, lastCompletes_cons, hcs.isEmpty, hs.allComplete, hcs.lastCompletes]

theorem Block.Restyled.canComplete {b b' : Block} :
    Block.Restyled s shared b b' → b'.canComplete = b.canComplete
  | .mk h => h.allComplete

theorem RestyledBlock?.canComplete {b b' : Option Block} :
    RestyledBlock? s shared b b' → finalizerCompletes b' = finalizerCompletes b
  | .none => rfl
  | .some h => h.canComplete

theorem Handler.Restyled.canComplete {c c' : Handler} :
    Handler.Restyled s shared c c' → c'.canComplete = c.canComplete
  | .none => rfl
  | .catching h => h.canComplete

end

/-! ### Hoisted names -/

theorem RestyledDecls.vars {ds ds' : List Decl} (h : RestyledDecls s shared ds ds') (span : Span)
    (kind : DeclKind) : (DeclList.mk span kind ds').vars = (DeclList.mk span kind ds).vars := by
  rw [DeclList.vars, DeclList.vars]
  refine congrArg (ite _ []) ?_
  induction ds generalizing ds' with
  | nil =>
    cases h
    rfl
  | cons d ds ih =>
    cases h with
    | cons _ hs => exact congrArg (List.cons _) (ih hs)

theorem ForInit.Restyled.vars {i i' : ForInit} (h : ForInit.Restyled s shared i i') :
    i'.vars = i.vars := by
  cases h with
  | none => rfl
  | @decls span kind _ _ h => exact h.vars span kind
  | expr _ => rfl

mutual

theorem Stmt.Restyled.vars {t t' : Stmt} : Stmt.Restyled s shared t t' → t'.vars = t.vars
  | .declaration h => h.vars _ _
  | .function _ => rfl
  | .block h => h.vars
  | .empty _ => rfl
  | .expression _ => rfl
  | .ifElse _ hy hn => congrArg₂ (· ++ ·) hy.vars hn.vars
  | .doWhile h _ => h.vars
  | .whileDo _ h => h.vars
  | .forLoop hi _ _ hb => congrArg₂ (· ++ ·) hi.vars hb.vars
  | .forIn hi _ hb => congrArg₂ (· ++ ·) hi.vars hb.vars
  | .continueTo _ _ => rfl
  | .breakTo _ _ => rfl
  | .returnWith _ => rfl
  | .switchOn _ h => h.vars
  | .labeled h => h.vars
  | .throwing _ => rfl
  | .tryCatch hb hc hf => congrArg₂ (· ++ ·) (congrArg₂ (· ++ ·) hb.vars hc.vars) hf.vars
  | .debugger _ => rfl

theorem RestyledStmts.vars {ts ts' : List Stmt} :
    RestyledStmts s shared ts ts' → varsOfStmts ts' = varsOfStmts ts
  | .nil => rfl
  | .cons h hs => congrArg₂ (· ++ ·) h.vars hs.vars

theorem RestyledStmt?.vars {t t' : Option Stmt} :
    RestyledStmt? s shared t t' → varsOfStmt? t' = varsOfStmt? t
  | .none => rfl
  | .some h => h.vars

theorem Block.Restyled.vars {b b' : Block} : Block.Restyled s shared b b' → b'.vars = b.vars
  | .mk h => h.vars

theorem RestyledBlock?.vars {b b' : Option Block} :
    RestyledBlock? s shared b b' → varsOfBlock? b' = varsOfBlock? b
  | .none => rfl
  | .some h => h.vars

theorem RestyledClauses.vars {cs cs' : List Clause} :
    RestyledClauses s shared cs cs' → varsOfClauses cs' = varsOfClauses cs
  | .nil => rfl
  | .cons _ hs hcs => congrArg₂ (· ++ ·) hs.vars hcs.vars

theorem Handler.Restyled.vars {c c' : Handler} :
    Handler.Restyled s shared c c' → c'.vars = c.vars
  | .none => rfl
  | .catching h => h.vars

end

theorem RestyledStmts.declaredFunctions {ts ts' : List Stmt} (h : RestyledStmts s shared ts ts') :
    declaredFunctions ts' = declaredFunctions ts := by
  induction ts generalizing ts' with
  | nil =>
    cases h
    rfl
  | cons t ts ih =>
    cases h with
    | cons ht hs =>
      unfold Script.declaredFunctions at ih ⊢
      rw [List.filterMap_cons, List.filterMap_cons, ih hs]
      cases ht <;> rfl

/-! ### Findings -/

/-- The findings behind an object, which has been looked at as a value. -/
theorem Expr.Restyled.findings_member {span : Span} {o o' : Expr} {n : Ident}
    (h : Expr.Restyled s shared fixed o o') (lines : LineMap)
    (hvalue : o'.findings lines .value = o.findings lines .value) (role : Role) :
    (Expr.member span o' n).findings lines role = (Expr.member span o n).findings lines role := by
  cases ho : o.isThis with
  | true =>
    cases h <;> first | rfl | cases ho
  | false =>
    have ho' : o'.isThis = false := h.isThis.trans ho
    cases role with
    | value => rw [findings_member_value ho, findings_member_value ho', hvalue]
    | target site =>
      rw [findings_member_target ho, findings_member_target ho', h.siteFindings, hvalue]

/-- An operator with its operands, an assignment among them. -/
theorem findings_binary {l l' r r' : Expr} {op : TokenKind} {span : Span} {lines : LineMap}
    (hr : r'.identText? = r.identText?)
    (hl : ∀ role, l'.findings lines role = l.findings lines role)
    (hvalue : r'.findings lines .value = r.findings lines .value) (role : Role) :
    (Expr.binary span l' op r').findings lines role =
      (Expr.binary span l op r).findings lines role := by
  cases role <;>
  · show (if op.isAssignment then _ else _) = (if op.isAssignment then _ else _)
    rw [hr, hl, hl, hvalue]

/-- What is found in a function, from what is found in its body. -/
theorem ofFunction_congr {ends ends' : Bool} {f f' : Findings} (hends : ends' = ends)
    (hf : f' = f) (name : Option String) (kind : FunctionKind) (pos line params : Nat) :
    Findings.ofFunction name kind pos line params ends' f' =
      .ofFunction name kind pos line params ends f := by rw [hends, hf]

mutual

theorem Expr.Restyled.findings {fixed : Bool} {e e' : Expr} (lines : LineMap) :
    Expr.Restyled s shared fixed e e' → ∀ role, e'.findings lines role = e.findings lines role
  | .ident _, _ => rfl
  | .string _, role => by cases role <;> rfl
  | .number _, _ => rfl
  | .regex _ _, _ => rfl
  | .array h, role => by cases role <;> exact h.findings lines
  | .object h, role => by cases role <;> exact h.findings lines
  | .member h, role => h.findings_member lines (h.findings lines .value) role
  | .index ho hi, role => by
    cases role <;> exact congrArg₂ (· ++ ·) (ho.findings lines .value) (hi.findings lines .value)
  | .call hc has, role => by
    cases role <;> exact congrArg₂ (· ++ ·) (hc.findings lines .value) (has.findings lines)
  | .construct hc has, role => by
    cases role <;> exact congrArg₂ (· ++ ·) (hc.findings lines .value) (has.findings lines)
  | .paren h, role => by cases role <;> exact h.findings lines _
  | .function h, role => by
    cases role <;> exact ofFunction_congr h.canComplete (h.findings lines false) _ _ _ _ _
  | .wordOp h, role => by cases role <;> exact h.findings lines .value
  | .before h, role => by cases role <;> exact h.findings lines .value
  | .after h, role => by cases role <;> exact h.findings lines .value
  | .binary hl hr, role =>
    findings_binary hr.identText? (hl.findings lines) (hr.findings lines .value) role
  | .conditional ht hy hn, role => by
    have htest := ht.findings lines .value
    have hyes := hy.findings lines .value
    cases role <;> exact
      congrArg₂ (· ++ ·) (congrArg₂ (· ++ ·) htest hyes) (hn.findings lines .value)
  | .omitted _ _, _ => rfl
  | .this _, _ => rfl
  | .null _, _ => rfl
  | .boolean _ _, _ => rfl

theorem RestyledExprs.findings {fixed : Bool} {es es' : List Expr} (lines : LineMap) :
    RestyledExprs s shared fixed es es' → findingsOfExprs lines es' = findingsOfExprs lines es
  | .nil => rfl
  | .cons h hs => congrArg₂ (· ++ ·) (h.findings lines .value) (hs.findings lines)

theorem RestyledExpr?.findings {e e' : Option Expr} (lines : LineMap) :
    RestyledExpr? s shared e e' → findingsOfExpr? lines e' = findingsOfExpr? lines e
  | .none => rfl
  | .some h => h.findings lines .value

theorem RestyledProperties.findings {ps ps' : List Property} (lines : LineMap) :
    RestyledProperties s shared ps ps' →
      findingsOfProperties lines ps' = findingsOfProperties lines ps
  | .nil => rfl
  | .cons _ h hs => congrArg₂ (· ++ ·) (h.findings lines .value) (hs.findings lines)

theorem Stmt.Restyled.findings {t t' : Stmt} (lines : LineMap) :
    Stmt.Restyled s shared t t' → ∀ dead, t'.findings lines dead = t.findings lines dead
  | .declaration h, _ => h.findings lines
  | .function h, _ => ofFunction_congr h.canComplete (h.findings lines false) _ _ _ _ _
  | .block h, dead => h.findings lines dead
  | .empty _, _ => rfl
  | .expression h, _ => h.findings lines .value
  | .ifElse ht hy hn, dead =>
    congrArg₂ (· ++ ·) (congrArg₂ (· ++ ·) (ht.findings lines .value) (hy.findings lines dead))
      (hn.findings lines dead)
  | .doWhile hb ht, dead =>
    congrArg₂ (· ++ ·) (hb.findings lines dead) (ht.findings lines .value)
  | .whileDo ht hb, dead =>
    congrArg₂ (· ++ ·) (ht.findings lines .value) (hb.findings lines dead)
  | .forLoop hi ht hu hb, dead =>
    congrArg₂ (· ++ ·) (congrArg₂ (· ++ ·) (congrArg₂ (· ++ ·) (hi.findings lines)
      (ht.findings lines)) (hu.findings lines)) (hb.findings lines dead)
  | .forIn hi ho hb, dead =>
    congrArg₂ (· ++ ·) (congrArg₂ (· ++ ·) (hi.findings lines) (ho.findings lines .value))
      (hb.findings lines dead)
  | .continueTo _ _, _ => rfl
  | .breakTo _ _, _ => rfl
  | .returnWith hv, _ => congrArg (_ ++ ·) (hv.findings lines)
  | .switchOn he hcs, dead =>
    congrArg₂ (· ++ ·) (he.findings lines .value) (hcs.findings lines dead)
  | .labeled h, dead => h.findings lines dead
  | .throwing h, _ => h.findings lines .value
  | .tryCatch hb hc hf, dead =>
    congrArg₂ (· ++ ·) (congrArg₂ (· ++ ·) (hb.findings lines dead) (hc.findings lines dead))
      (hf.findings lines dead)
  | .debugger _, _ => rfl

theorem RestyledStmts.findings {ts ts' : List Stmt} (lines : LineMap) :
    RestyledStmts s shared ts ts' → ∀ dead,
      findingsOfStmts lines dead ts' = findingsOfStmts lines dead ts
  | .nil, _ => rfl
  | .cons h hs, dead => by
    have hrest := hs.findings lines
    exact congrArg₂ (· ++ ·) (h.findings lines dead) (h.canComplete ▸ hrest _)

theorem RestyledStmt?.findings {t t' : Option Stmt} (lines : LineMap) :
    RestyledStmt? s shared t t' → ∀ dead,
      findingsOfStmt? lines dead t' = findingsOfStmt? lines dead t
  | .none, _ => rfl
  | .some h, dead => h.findings lines dead

theorem Block.Restyled.findings {b b' : Block} (lines : LineMap) :
    Block.Restyled s shared b b' → ∀ dead, b'.findings lines dead = b.findings lines dead
  | .mk h, dead => h.findings lines dead

theorem RestyledBlock?.findings {b b' : Option Block} (lines : LineMap) :
    RestyledBlock? s shared b b' → ∀ dead,
      findingsOfBlock? lines dead b' = findingsOfBlock? lines dead b
  | .none, _ => rfl
  | .some h, dead => h.findings lines dead

theorem RestyledDecls.findings {ds ds' : List Decl} (lines : LineMap) :
    RestyledDecls s shared ds ds' → findingsOfDecls lines ds' = findingsOfDecls lines ds
  | .nil => rfl
  | .cons h hs => congrArg₂ (· ++ ·) (h.findings lines) (hs.findings lines)

theorem ForInit.Restyled.findings {i i' : ForInit} (lines : LineMap) :
    ForInit.Restyled s shared i i' → i'.findings lines = i.findings lines
  | .none => rfl
  | .decls h => h.findings lines
  | .expr h => h.findings lines .value

theorem RestyledClauses.findings {cs cs' : List Clause} (lines : LineMap) :
    RestyledClauses s shared cs cs' → ∀ dead,
      findingsOfClauses lines dead cs' = findingsOfClauses lines dead cs
  | .nil, _ => rfl
  | .cons ht hs hcs, dead =>
    congrArg₂ (· ++ ·) (congrArg₂ (· ++ ·) (ht.findings lines) (hs.findings lines dead))
      (hcs.findings lines dead)

theorem Handler.Restyled.findings {c c' : Handler} (lines : LineMap) :
    Handler.Restyled s shared c c' → ∀ dead, c'.findings lines dead = c.findings lines dead
  | .none, _ => rfl
  | .catching h, dead => h.findings lines dead

end

/-- **Quotes are no matter to a summary.** -/
theorem RestyledStmts.summarize {p p' : Script}
    (h : RestyledStmts s shared p.statements p'.statements) (lines : LineMap) :
    p'.summarize lines = p.summarize lines := by
  unfold Script.summarize
  rw [h.findings]

end Script
end Countersign
