/-
# Where the nodes of a tree stand

A tree is laid out over its text: every node takes a stretch of it, and what a node is made of takes
parts of that stretch. The layout of a tree keeps only this, so that it can be said once for all
kinds of nodes what a proper layout is: no node is empty but a hole in an array, no node reaches
beyond its parent, and the parts of a node stand one after the other without overlapping.

`Laid` says of layouts next to each other that they are proper and stand in order within a stretch
of text; a node is proper if its parts are laid over its own stretch.

Key definitions: `Layout`, `Layout.Nested`, `Layout.Within`, `Laid`, `Expr.layout`, `Stmt.layout`.
Key theorems: `Laid.append`, `Laid.gather`, `Layout.Nested.within`, `Expr.layout_eq`.
-/
import Countersign.Proofs.Script.Pieces

namespace Countersign
namespace Script

/-! ### Layouts -/

/-- The spans of a node and of the nodes it is made of, in the order of the grammar. -/
inductive Layout where
  /-- A hole in an array. -/
  | hole (span : Span)
  | node (span : Span) (parts : List Layout)

namespace Layout

/-- The span of the node. -/
@[simp]
def span : Layout → Span
  | hole span => span
  | node span _ => span

/-- What the node is made of. -/
@[simp]
def parts : Layout → List Layout
  | hole _ => []
  | node _ parts => parts

/-- Whether the node is a hole in an array. -/
@[simp]
def isHole : Layout → Bool
  | hole _ => true
  | node _ _ => false

/-- A node that is not made of others. -/
abbrev leaf (span : Span) : Layout := .node span []

/-- The first node ends before the second starts. -/
def Before (l m : Layout) : Prop := l.span.stop ≤ m.span.pos

/-- The node and all those below it have proper spans. Only a hole may be empty. -/
inductive Nested : Layout → Prop
  | hole {span : Span} : span.pos ≤ span.stop → Nested (.hole span)
  | node {span : Span} {ls : List Layout} : span.pos < span.stop → (∀ l ∈ ls, l.Nested) →
      (∀ l ∈ ls, span.pos ≤ l.span.pos ∧ l.span.stop ≤ span.stop) → ls.Pairwise Before →
      Nested (.node span ls)

/-- The node is `root` or one of those below it. -/
inductive Within (root : Layout) : Layout → Prop
  | root : Within root root
  | part {l m : Layout} : Within root l → m ∈ l.parts → Within root m

variable {l m : Layout}

theorem Nested.le (h : l.Nested) : l.span.pos ≤ l.span.stop := by
  cases h with
  | hole hle => exact hle
  | node hlt _ _ _ => exact hlt.le

theorem Nested.lt (h : l.Nested) (hhole : l.isHole = false) : l.span.pos < l.span.stop := by
  cases h with
  | hole _ => cases hhole
  | node hlt _ _ _ => exact hlt

theorem Nested.part (h : l.Nested) (hm : m ∈ l.parts) : m.Nested := by
  cases h with
  | hole _ => cases hm
  | node _ hnested _ _ => exact hnested m hm

/-- What a node is made of lies within it. -/
theorem Nested.bounds (h : l.Nested) (hm : m ∈ l.parts) :
    l.span.pos ≤ m.span.pos ∧ m.span.stop ≤ l.span.stop := by
  cases h with
  | hole _ => cases hm
  | node _ _ hbounds _ => exact hbounds m hm

/-- What a node is made of stands in order. -/
theorem Nested.ordered (h : l.Nested) : l.parts.Pairwise Before := by
  cases h with
  | hole _ => exact .nil
  | node _ _ _ hordered => exact hordered

/-- Below a proper node everything is proper and lies within it. -/
theorem Nested.within (h : l.Nested) (hm : l.Within m) :
    m.Nested ∧ l.span.pos ≤ m.span.pos ∧ m.span.stop ≤ l.span.stop := by
  induction hm with
  | root => exact ⟨h, le_refl _, le_refl _⟩
  | part _ hpart ih =>
    obtain ⟨hnested, hpos, hstop⟩ := ih
    obtain ⟨hpos', hstop'⟩ := hnested.bounds hpart
    exact ⟨hnested.part hpart, hpos.trans hpos', hstop'.trans hstop⟩

end Layout

/-! ### Layouts next to each other -/

/-- The layouts are proper and stand one after the other between two offsets. -/
structure Laid (lo : Nat) (ls : List Layout) (hi : Nat) : Prop where
  lt : lo < hi
  nested : ∀ l ∈ ls, l.Nested
  bounds : ∀ l ∈ ls, lo ≤ l.span.pos ∧ l.span.stop ≤ hi
  ordered : ls.Pairwise Layout.Before

section Laid

variable {lo mid hi hi' : Nat} {l : Layout} {ls ms : List Layout}

theorem Laid.nil (h : lo < hi) : Laid lo [] hi := ⟨h, by simp, by simp, .nil⟩

theorem Laid.widen (h : Laid lo ls hi) (hle : hi ≤ hi') : Laid lo ls hi' where
  lt := h.lt.trans_le hle
  nested := h.nested
  bounds l hl := ⟨(h.bounds l hl).1, (h.bounds l hl).2.trans hle⟩
  ordered := h.ordered

/-- What is laid from `lo` on is laid over a node that starts there. -/
theorem Laid.node (h : Laid lo ls hi) : (Layout.node ⟨lo, hi⟩ ls).Nested :=
  .node h.lt h.nested h.bounds h.ordered

theorem Laid.single (h : l.Nested) (hlt : lo < hi) (hpos : lo ≤ l.span.pos)
    (hstop : l.span.stop ≤ hi) : Laid lo [l] hi where
  lt := hlt
  nested := by simpa using h
  bounds := by simpa using ⟨hpos, hstop⟩
  ordered := List.pairwise_singleton _ _

/-- What starts no sooner than the rest ends comes after it. -/
theorem Laid.append (h : Laid lo ls hi) (hle : hi ≤ mid) (h' : Laid mid ms hi') :
    Laid lo (ls ++ ms) hi' where
  lt := h.lt.trans (hle.trans_lt h'.lt)
  nested l hl := (List.mem_append.mp hl).elim (h.nested l) (h'.nested l)
  bounds l hl := by
    rcases List.mem_append.mp hl with hl | hl
    · exact ⟨(h.bounds l hl).1, (h.bounds l hl).2.trans (hle.trans h'.lt.le)⟩
    · exact ⟨(h.lt.le.trans hle).trans (h'.bounds l hl).1, (h'.bounds l hl).2⟩
  ordered := by
    refine List.pairwise_append.mpr ⟨h.ordered, h'.ordered, fun l hl m hm => ?_⟩
    exact (h.bounds l hl).2.trans (hle.trans (h'.bounds m hm).1)

/-- What is laid is gathered into one node that starts where the first of them does. -/
theorem Laid.gather (h : Laid lo (l :: ls) hi) (hhole : l.isHole = false) :
    Laid lo [.node ⟨l.span.pos, hi⟩ (l :: ls)] hi := by
  have hfirst := h.bounds l List.mem_cons_self
  have hlt : l.span.pos < l.span.stop := (h.nested l List.mem_cons_self).lt hhole
  refine .single (.node (hlt.trans_le hfirst.2) h.nested (fun m hm => ?_) h.ordered) h.lt hfirst.1
    (le_refl _)
  rcases List.mem_cons.mp hm with rfl | hm'
  · exact ⟨le_refl _, hfirst.2⟩
  · have hafter : l.span.stop ≤ m.span.pos := List.rel_of_pairwise_cons h.ordered hm'
    exact ⟨hlt.le.trans hafter, (h.bounds m hm).2⟩

end Laid

/-! ### Layouts of trees -/

/-- A name. -/
def Ident.layout (i : Ident) : Layout := .leaf i.span

/-- A name that may be absent. -/
def layoutsOfIdent? (i : Option Ident) : List Layout := (i.map Ident.layout).toList

/-- A parameter is made of its name. -/
def Param.layout (p : Param) : Layout := .node p.span [p.name.layout]

/-- The name of a property. -/
def PropertyName.layout : PropertyName → Layout
  | .ident i => i.layout
  | .string s => .leaf s.span
  | .number n => .leaf n.span

mutual

/-- The layout of an expression. An expression that is missing is a node, and an empty one. -/
def Expr.layout : Expr → Layout
  | .ident i => i.layout
  | .string s => .leaf s.span
  | .number n => .leaf n.span
  | .regex span _ => .leaf span
  | .array span es => .node span (layoutsOfElements es)
  | .object span ps => .node span (layoutsOfProperties ps)
  | .member span o n => .node span [o.layout, n.layout]
  | .index span o i => .node span [o.layout, i.layout]
  | .call span c as => .node span (c.layout :: layoutsOfExprs as)
  | .construct span c _ as => .node span (c.layout :: layoutsOfExprs as)
  | .paren span e => .node span [e.layout]
  | .function span n ps b =>
    .node span (layoutsOfIdent? n ++ ps.map Param.layout ++ [b.layout])
  | .wordOp span _ e => .node span [e.layout]
  | .before span _ e => .node span [e.layout]
  | .after span e _ => .node span [e.layout]
  | .binary span l _ r => .node span [l.layout, r.layout]
  | .conditional span t y n => .node span [t.layout, y.layout, n.layout]
  | .omitted span _ => .leaf span
  | .this span => .leaf span
  | .null span => .leaf span
  | .boolean span _ => .leaf span
termination_by structural t => t

/-- The layouts of expressions. -/
def layoutsOfExprs : List Expr → List Layout
  | [] => []
  | e :: es => e.layout :: layoutsOfExprs es
termination_by structural t => t

/-- The layouts of the elements of an array, which may be holes. -/
def layoutsOfElements : List Expr → List Layout
  | [] => []
  | e :: es => (if e.isHole then .hole e.span else e.layout) :: layoutsOfElements es
termination_by structural t => t

/-- The layout of an expression that may be absent. -/
def layoutsOfExpr? : Option Expr → List Layout
  | none => []
  | some e => [e.layout]
termination_by structural t => t

/-- The layouts of properties. -/
def layoutsOfProperties : List Property → List Layout
  | [] => []
  | p :: ps => p.layout :: layoutsOfProperties ps
termination_by structural t => t

/-- The layout of a property: its name and its value. -/
def Property.layout : Property → Layout
  | .mk span n e => .node span [n.layout, e.layout]
termination_by structural t => t

/-- The layout of a statement. -/
def Stmt.layout : Stmt → Layout
  | .declaration span l => .node span [l.layout]
  | .function span n ps b => .node span (n.layout :: (ps.map Param.layout ++ [b.layout]))
  | .block b => b.layout
  | .empty span => .leaf span
  | .expression span e => .node span [e.layout]
  | .ifElse span t y n => .node span (t.layout :: y.layout :: layoutsOfStmt? n)
  | .doWhile span b t => .node span [b.layout, t.layout]
  | .whileDo span t b => .node span [t.layout, b.layout]
  | .forLoop span i t u b =>
    .node span (i.layouts ++ layoutsOfExpr? t ++ layoutsOfExpr? u ++ [b.layout])
  | .forIn span i o b => .node span (i.layouts ++ [o.layout, b.layout])
  | .continueTo span l => .node span (layoutsOfIdent? l)
  | .breakTo span l => .node span (layoutsOfIdent? l)
  | .returnWith span v => .node span (layoutsOfExpr? v)
  | .switchOn span e cs => .node span (e.layout :: layoutsOfClauses cs)
  | .labeled span l b => .node span [l.layout, b.layout]
  | .throwing span e => .node span [e.layout]
  | .tryCatch span b h f => .node span (b.layout :: (h.layouts ++ layoutsOfBlock? f))
  | .debugger span => .leaf span
termination_by structural t => t

/-- The layouts of statements. -/
def layoutsOfStmts : List Stmt → List Layout
  | [] => []
  | s :: ss => s.layout :: layoutsOfStmts ss
termination_by structural t => t

/-- The layout of a statement that may be absent. -/
def layoutsOfStmt? : Option Stmt → List Layout
  | none => []
  | some s => [s.layout]
termination_by structural t => t

/-- The layout of a block. -/
def Block.layout : Block → Layout
  | .mk span ss => .node span (layoutsOfStmts ss)
termination_by structural t => t

/-- The layout of a block that may be absent. -/
def layoutsOfBlock? : Option Block → List Layout
  | none => []
  | some b => [b.layout]
termination_by structural t => t

/-- The layout of declarations with their word. -/
def DeclList.layout : DeclList → Layout
  | .mk span _ ds => .node span (layoutsOfDecls ds)
termination_by structural t => t

/-- The layouts of declared variables. -/
def layoutsOfDecls : List Decl → List Layout
  | [] => []
  | d :: ds => d.layout :: layoutsOfDecls ds
termination_by structural t => t

/-- The layout of a declared variable: its name and its first value. -/
def Decl.layout : Decl → Layout
  | .mk span n init => .node span (n.layout :: layoutsOfExpr? init)
termination_by structural t => t

/-- The layout of the first part of the head of a `for` loop, if there is one. -/
def ForInit.layouts : ForInit → List Layout
  | .none => []
  | .decls l => [l.layout]
  | .expr e => [e.layout]
termination_by structural t => t

/-- The layouts of the clauses of a `switch`. -/
def layoutsOfClauses : List Clause → List Layout
  | [] => []
  | c :: cs => c.layout :: layoutsOfClauses cs
termination_by structural t => t

/-- The layout of a clause: its test and its statements. -/
def Clause.layout : Clause → Layout
  | .mk span t ss => .node span (layoutsOfExpr? t ++ layoutsOfStmts ss)
termination_by structural t => t

/-- The layout of the handler of a `try` statement, if there is one. -/
def Handler.layouts : Handler → List Layout
  | .none => []
  | .catching span n b => [.node span [n.layout, b.layout]]
termination_by structural t => t

end

/-- The layout of an element of an array, which may be a hole. -/
def Expr.elementLayout (e : Expr) : Layout := if e.isHole then .hole e.span else e.layout

theorem layoutsOfExprs_eq : ∀ es : List Expr, layoutsOfExprs es = es.map Expr.layout
  | [] => rfl
  | e :: es => by rw [layoutsOfExprs, layoutsOfExprs_eq es, List.map_cons]

theorem layoutsOfElements_eq : ∀ es : List Expr, layoutsOfElements es = es.map Expr.elementLayout
  | [] => rfl
  | e :: es => by rw [layoutsOfElements, layoutsOfElements_eq es, List.map_cons, Expr.elementLayout]

theorem layoutsOfProperties_eq : ∀ ps : List Property,
    layoutsOfProperties ps = ps.map Property.layout
  | [] => rfl
  | p :: ps => by rw [layoutsOfProperties, layoutsOfProperties_eq ps, List.map_cons]

theorem layoutsOfStmts_eq : ∀ ss : List Stmt, layoutsOfStmts ss = ss.map Stmt.layout
  | [] => rfl
  | s :: ss => by rw [layoutsOfStmts, layoutsOfStmts_eq ss, List.map_cons]

theorem layoutsOfClauses_eq : ∀ cs : List Clause, layoutsOfClauses cs = cs.map Clause.layout
  | [] => rfl
  | c :: cs => by rw [layoutsOfClauses, layoutsOfClauses_eq cs, List.map_cons]

/-- An expression is laid over its own span, and it is not a hole. -/
theorem Expr.layout_eq (e : Expr) : ∃ parts, e.layout = .node e.span parts := by
  cases e <;> exact ⟨_, rfl⟩

/-- What is laid from an expression on is gathered into one node that starts where it does. -/
theorem Laid.gatherExpr {lo hi : Nat} {e : Expr} {rest : List Layout}
    (h : Laid lo (e.layout :: rest) hi) : Laid lo [.node ⟨e.pos, hi⟩ (e.layout :: rest)] hi := by
  obtain ⟨parts, hlayout⟩ := e.layout_eq
  rw [hlayout] at h ⊢
  exact h.gather rfl

/-- As an element of an array an expression stands where it stands on its own. -/
theorem Laid.element {lo hi : Nat} {e : Expr} (h : Laid lo [e.layout] hi) :
    Laid lo [e.elementLayout] hi := by
  rw [Expr.elementLayout]
  split
  · have hnested : e.layout.Nested := h.nested _ (List.mem_singleton.mpr rfl)
    obtain ⟨hpos, hstop⟩ := h.bounds _ (List.mem_singleton.mpr rfl)
    obtain ⟨parts, hlayout⟩ := e.layout_eq
    rw [hlayout] at hnested hpos hstop
    exact .single (.hole hnested.le) h.lt hpos hstop
  · exact h

end Script

/-- The layout of a program: the whole text, and its statements. -/
def Script.layout (script : Script) : Script.Layout :=
  .node ⟨0, script.length⟩ (Script.layoutsOfStmts script.statements)

end Countersign
