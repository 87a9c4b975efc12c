/-
# Where names occur

An occurrence of a name is an identifier that stands for a value: one that is read, one that is
assigned to, or the constructor whose prototype is given a field. Around it are regions of the
program in which names mean something: the module, function bodies, blocks and clauses, and
handlers. A region binds variables, which are its parameters and whatever a `var` declares in it
outside of the functions in it; and it binds the functions that its statements declare directly.

Key definitions: `Region`, `Region.Variable`, `Region.Function`, `Occurrence`, `Expr.occurrences`,
`Script.occurrences`.
Key theorem: `DeclaresVar.hoisted`.
-/
import Countersign.Script.Vars
import Countersign.Summary.Findings
import Mathlib.Tactic

namespace Countersign
namespace Script

/-! ### Declared variables -/

/-- The word that opens the declarations. -/
def DeclList.kind : DeclList → DeclKind
  | .mk _ kind _ => kind

/-- The declarations. -/
def DeclList.decls : DeclList → List Decl
  | .mk _ _ ds => ds

/-- The declared name. -/
def Decl.name : Decl → Ident
  | .mk _ name _ => name

/-- The statements of a clause. -/
def Clause.body : Clause → List Stmt
  | .mk _ _ ss => ss

/-- The statements of a handler. -/
def Handler.body : Handler → List Stmt
  | .none => []
  | .catching _ _ b => b.body

/-- The declarations in the first part of a loop's head. -/
def ForInit.declLists : ForInit → List DeclList
  | .decls l => [l]
  | _ => []

/-- The declarations that are made by a statement itself, in the head of a loop for example. -/
def Stmt.declLists : Stmt → List DeclList
  | .declaration _ l => [l]
  | .forLoop _ i _ _ _ => i.declLists
  | .forIn _ i _ _ => i.declLists
  | _ => []

/-- The statements directly inside a statement, but not those in functions. -/
def Stmt.inner : Stmt → List Stmt
  | .block b => b.body
  | .ifElse _ _ y n => y :: n.toList
  | .doWhile _ b _ => [b]
  | .whileDo _ _ b => [b]
  | .forLoop _ _ _ _ b => [b]
  | .forIn _ _ _ b => [b]
  | .switchOn _ _ cs => cs.flatMap Clause.body
  | .labeled _ _ b => [b]
  | .tryCatch _ b h f => b.body ++ h.body ++ f.toList.flatMap Block.body
  | _ => []

/-- The first statement is the second one, or stands somewhere inside it, but not in a function. -/
inductive Stmt.Within : Stmt → Stmt → Prop
  | self (s : Stmt) : Within s s
  | inner {s t u : Stmt} : t ∈ s.inner → Within u t → Within u s

/-- A `var` declares the name somewhere in the statements, but not in a function. -/
def DeclaresVar (ss : List Stmt) (name : String) : Prop :=
  ∃ s ∈ ss, ∃ t : Stmt, t.Within s ∧ ∃ l ∈ t.declLists, l.kind = .var ∧
    ∃ d ∈ l.decls, d.name.text = name

/-- One of the statements declares a function of this name. -/
def DeclaresFunction (ss : List Stmt) (name : String) : Prop :=
  ∃ s ∈ ss, ∃ span n ps b, s = .function span n ps b ∧ n.text = name

/-! ### Regions and occurrences -/

/-- A part of a program in which names mean something. -/
inductive Region where
  | module (body : List Stmt)
  /-- The body of a function; `own` is the name of a function that is an expression. -/
  | function (own : Option Ident) (params : List Param) (body : List Stmt)
  /-- A block, or a clause. -/
  | block (body : List Stmt)
  | handler (caught : Ident)

namespace Region

/-- The region binds the name as a parameter, as a variable declared with `var`, or as the variable
of a handler. -/
def Variable : Region → String → Prop
  | module ss, name => DeclaresVar ss name
  | function _ ps ss, name => (∃ p ∈ ps, p.name.text = name) ∨ DeclaresVar ss name
  | block _, _ => False
  | handler caught, name => caught.text = name

/-- One of the statements of the region declares a function of this name. -/
def Function : Region → String → Prop
  | module ss, name => DeclaresFunction ss name
  | function _ _ ss, name => DeclaresFunction ss name
  | block ss, name => DeclaresFunction ss name
  | handler _, _ => False

/-- The name of the expression, if the region is the body of one that has a name. -/
def ownName? : Region → Option String
  | function own _ _ => own.map (·.text)
  | _ => none

end Region

/-- A name where it occurs: its offset, or that of the assignment to it, and the regions around it,
innermost first. -/
structure Occurrence where
  name : String
  pos : Nat
  regions : List Region

/-- The occurrence with one more region around it. -/
def Occurrence.within (r : Region) (o : Occurrence) : Occurrence :=
  { o with regions := o.regions ++ [r] }

/-- The occurrences with one more region around them. -/
def around (r : Region) (os : List Occurrence) : List Occurrence := os.map (·.within r)

mutual

/-- The names that occur in an expression, in the order of the text. As the target of an assignment
at `target` it is the name, or the constructor whose prototype is given a field. -/
def Expr.occurrences : Option Nat → Expr → List Occurrence
  | target, .ident i => [⟨i.text, target.getD i.span.pos, []⟩]
  | target, .paren _ e => e.occurrences target
  | target, .member _ o _ =>
    match target, o.prototypeOf? with
    | some pos, some ctor => [⟨ctor, pos, []⟩]
    | _, _ => o.occurrences none
  | _, .array _ es => occurrencesOfExprs es
  | _, .object _ ps => occurrencesOfProperties ps
  | _, .index _ o i => o.occurrences none ++ i.occurrences none
  | _, .call _ c as => c.occurrences none ++ occurrencesOfExprs as
  | _, .construct _ c _ as => c.occurrences none ++ occurrencesOfExprs as
  | _, .function _ n ps b => around (.function n ps b.body) b.bodyOccurrences
  | _, .wordOp _ _ e => e.occurrences none
  | _, .before _ _ e => e.occurrences none
  | _, .after _ e _ => e.occurrences none
  | _, .binary span l op r =>
    l.occurrences (if op == .mark .assign then some span.pos else none) ++ r.occurrences none
  | _, .conditional _ t y n => t.occurrences none ++ y.occurrences none ++ n.occurrences none
  | _, .string _ => []
  | _, .number _ => []
  | _, .regex _ _ => []
  | _, .omitted _ _ => []
  | _, .this _ => []
  | _, .null _ => []
  | _, .boolean _ _ => []
termination_by structural _ e => e

/-- The names that occur in expressions. -/
def occurrencesOfExprs : List Expr → List Occurrence
  | [] => []
  | e :: es => e.occurrences none ++ occurrencesOfExprs es
termination_by structural es => es

/-- The names that occur in an expression, if there is one. -/
def occurrencesOfExpr? : Option Expr → List Occurrence
  | none => []
  | some e => e.occurrences none
termination_by structural e => e

/-- The names that occur in the values of properties. -/
def occurrencesOfProperties : List Property → List Occurrence
  | [] => []
  | .mk _ _ e :: ps => e.occurrences none ++ occurrencesOfProperties ps
termination_by structural ps => ps

/-- The names that occur in a statement. -/
def Stmt.occurrences : Stmt → List Occurrence
  | .declaration _ l => l.occurrences
  | .function _ _ ps b => around (.function none ps b.body) b.bodyOccurrences
  | .block b => b.occurrences
  | .empty _ => []
  | .expression _ e => e.occurrences none
  | .ifElse _ t y n => t.occurrences none ++ y.occurrences ++ occurrencesOfStmt? n
  | .doWhile _ b t => b.occurrences ++ t.occurrences none
  | .whileDo _ t b => t.occurrences none ++ b.occurrences
  | .forLoop _ i t u b =>
    i.occurrences ++ occurrencesOfExpr? t ++ occurrencesOfExpr? u ++ b.occurrences
  | .forIn _ i o b => i.occurrences ++ o.occurrences none ++ b.occurrences
  | .continueTo _ _ => []
  | .breakTo _ _ => []
  | .returnWith _ v => occurrencesOfExpr? v
  | .switchOn _ e cs => e.occurrences none ++ occurrencesOfClauses cs
  | .labeled _ _ b => b.occurrences
  | .throwing _ e => e.occurrences none
  | .tryCatch _ b h f => b.occurrences ++ h.occurrences ++ occurrencesOfBlock? f
  | .debugger _ => []
termination_by structural s => s

/-- The names that occur in statements. -/
def occurrencesOfStmts : List Stmt → List Occurrence
  | [] => []
  | s :: ss => s.occurrences ++ occurrencesOfStmts ss
termination_by structural ss => ss

/-- The names that occur in a statement, if there is one. -/
def occurrencesOfStmt? : Option Stmt → List Occurrence
  | none => []
  | some s => s.occurrences
termination_by structural s => s

/-- The names that occur in the statements of a block, seen from inside. -/
def Block.bodyOccurrences : Block → List Occurrence
  | .mk _ ss => occurrencesOfStmts ss
termination_by structural b => b

/-- The names that occur in a block. -/
def Block.occurrences : Block → List Occurrence
  | .mk _ ss => around (.block ss) (occurrencesOfStmts ss)
termination_by structural b => b

/-- The names that occur in a block, if there is one. -/
def occurrencesOfBlock? : Option Block → List Occurrence
  | none => []
  | some b => b.occurrences
termination_by structural b => b

/-- The names that occur in the first values of declared variables. -/
def DeclList.occurrences : DeclList → List Occurrence
  | .mk _ _ ds => occurrencesOfDecls ds
termination_by structural l => l

/-- The names that occur in the first values of declared variables. -/
def occurrencesOfDecls : List Decl → List Occurrence
  | [] => []
  | .mk _ _ e :: ds => occurrencesOfExpr? e ++ occurrencesOfDecls ds
termination_by structural ds => ds

/-- The names that occur in the first part of a loop's head. -/
def ForInit.occurrences : ForInit → List Occurrence
  | .none => []
  | .decls l => l.occurrences
  | .expr e => e.occurrences none
termination_by structural i => i

/-- The names that occur in clauses. -/
def occurrencesOfClauses : List Clause → List Occurrence
  | [] => []
  | .mk _ t ss :: cs =>
    occurrencesOfExpr? t ++ around (.block ss) (occurrencesOfStmts ss) ++ occurrencesOfClauses cs
termination_by structural cs => cs

/-- The names that occur in a handler. -/
def Handler.occurrences : Handler → List Occurrence
  | .none => []
  | .catching _ n b => around (.handler n) b.occurrences
termination_by structural h => h

end

/-- The names that occur in a program, in the order of the text. -/
def occurrences (s : Script) : List Occurrence :=
  around (.module s.statements) (occurrencesOfStmts s.statements)

/-! ### Declared variables are hoisted -/

theorem varsOfStmts_eq (ss : List Stmt) : varsOfStmts ss = ss.flatMap Stmt.vars := by
  induction ss with
  | nil => rfl
  | cons s ss ih => rw [varsOfStmts, ih, List.flatMap_cons]

theorem varsOfClauses_eq (cs : List Clause) :
    varsOfClauses cs = (cs.flatMap Clause.body).flatMap Stmt.vars := by
  induction cs with
  | nil => rfl
  | cons c cs ih =>
    obtain ⟨span, test, ss⟩ := c
    rw [varsOfClauses, ih, varsOfStmts_eq, List.flatMap_cons, List.flatMap_append]
    rfl

theorem Block.vars_eq (b : Block) : b.vars = b.body.flatMap Stmt.vars := by
  obtain ⟨span, ss⟩ := b
  exact varsOfStmts_eq ss

theorem Handler.vars_eq (h : Handler) : h.vars = h.body.flatMap Stmt.vars := by
  cases h with
  | none => rfl
  | catching span n b => exact b.vars_eq

theorem varsOfBlock?_eq (b : Option Block) :
    varsOfBlock? b = (b.toList.flatMap Block.body).flatMap Stmt.vars := by
  cases b with
  | none => rfl
  | some b => exact b.vars_eq.trans (by rw [Option.toList_some, List.flatMap_singleton])

/-- The variables of a statement are those that it declares itself, in the head of a loop for
example, and those of the statements inside it. -/
theorem Stmt.vars_eq (s : Stmt) :
    s.vars = s.declLists.flatMap DeclList.vars ++ s.inner.flatMap Stmt.vars := by
  have hinit : ∀ i : ForInit, i.vars = i.declLists.flatMap DeclList.vars := fun i => by
    cases i <;> simp [ForInit.vars, ForInit.declLists]
  cases s with
  | declaration span l => simp [vars, declLists, inner]
  | block b => simp [vars, declLists, inner, b.vars_eq]
  | ifElse span t y n => cases n <;> simp [vars, varsOfStmt?, declLists, inner]
  | forLoop span i t u b => simp [vars, declLists, inner, hinit]
  | forIn span i o b => simp [vars, declLists, inner, hinit]
  | switchOn span e cs => simp [vars, declLists, inner, varsOfClauses_eq]
  | tryCatch span b h f =>
    simp only [vars, declLists, inner, b.vars_eq, h.vars_eq, varsOfBlock?_eq, List.flatMap_append,
      List.flatMap_nil, List.nil_append]
  | _ => simp [vars, declLists, inner]

/-- What stands inside a statement has no other variables. -/
theorem Stmt.Within.vars_subset {s t : Stmt} (h : t.Within s) : t.vars ⊆ s.vars := by
  induction h with
  | self s => exact List.Subset.refl _
  | @inner s t u ht _ ih =>
    intro site hsite
    rw [s.vars_eq]
    exact List.mem_append_right _ (List.mem_flatMap.mpr ⟨t, ht, ih hsite⟩)

/-- Whatever a `var` declares in statements is hoisted. -/
theorem DeclaresVar.hoisted {ss : List Stmt} {name : String} (h : DeclaresVar ss name) :
    ∃ site ∈ varsOfStmts ss, site.name = name := by
  obtain ⟨s, hs, t, hwithin, ⟨span, kind, ds⟩, hl, hkind, ⟨dspan, n, init⟩, hd, hname⟩ := h
  obtain rfl : kind = .var := hkind
  have hsite : (⟨n.text, dspan.pos⟩ : NameSite) ∈ (DeclList.mk span .var ds).vars :=
    List.mem_map.mpr ⟨_, hd, rfl⟩
  refine ⟨⟨n.text, dspan.pos⟩, ?_, hname⟩
  rw [varsOfStmts_eq]
  refine List.mem_flatMap.mpr ⟨s, hs, hwithin.vars_subset ?_⟩
  rw [t.vars_eq]
  exact List.mem_append_left _ (List.mem_flatMap.mpr ⟨_, hl, hsite⟩)

/-- Whatever function a statement of a list declares is hoisted. -/
theorem DeclaresFunction.hoisted {ss : List Stmt} {name : String} (h : DeclaresFunction ss name) :
    ∃ site ∈ declaredFunctions ss, site.name = name := by
  obtain ⟨s, hs, span, n, ps, b, rfl, hname⟩ := h
  exact ⟨⟨n.text, span.pos⟩, List.mem_filterMap.mpr ⟨_, hs, rfl⟩, hname⟩

end Script
end Countersign
