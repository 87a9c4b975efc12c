/-
# Looking up functions and returns

Summaries are looked up by offset. That gives back the right function, and in it the right `return`
statement, because the functions and returns of a program all start at different offsets.

What is found in a part of a program is compared with the nodes of that part: `Found` says how it
comes about, node by node, and whatever is to be known of it follows by induction. The functions are
the same, one by one, and the returns are among the nodes in the same order.

Key definitions: `Node.function?`, `FunctionNode`, `Found`, `Sketch`, `Agrees`, `Summary.Knows`.
Key theorems: `findingsOfStmts_found`, `Found.agrees`, `summarize_finds`, `summarize_knows`.
-/
import Countersign.Proofs.Script.Positions
import Countersign.Summary.Findings

namespace Countersign
namespace Script

/-! ### Functions among the nodes -/

/-- The offset and the body of a node that is a function. -/
def Node.function? : Node → Option (Nat × Block)
  | .stmt (.function span _ _ b) => some (span.pos, b)
  | .expr (.function span _ _ b) => some (span.pos, b)
  | _ => none

/-- A function of a program: its name, if it has one, whether it is declared, where it starts, how
many parameters it has, and its body. -/
structure FunctionNode where
  name : Option String
  kind : FunctionKind
  pos : Nat
  paramCount : Nat
  body : Block

/-- The function that a node is, if it is one. -/
def Node.functionNode? : Node → Option FunctionNode
  | .stmt (.function span n ps b) => some ⟨some n.text, .declaration, span.pos, ps.length, b⟩
  | .expr (.function span n ps b) => some ⟨n.map (·.text), .expression, span.pos, ps.length, b⟩
  | _ => none

theorem Node.function?_eq (n : Node) :
    n.function? = n.functionNode?.map fun g => (g.pos, g.body) := by
  rcases n with s | e
  · cases s <;> rfl
  · cases e <;> rfl

theorem Node.functionNode?_of_mark? {n : Node} (h : n.mark? = none) : n.functionNode? = none := by
  rcases n with s | e
  · cases s <;> first | rfl | cases h
  · cases e <;> first | rfl | cases h

/-- What is found in a function. -/
def FunctionNode.findings (lines : LineMap) (g : FunctionNode) : Findings :=
  .ofFunction g.name g.kind g.pos (lines.lineNumber g.pos) g.paramCount g.body.canComplete
    (g.body.findings lines false)

/-- How what is found in a part of a program comes about, from the nodes of that part. Only
functions and returns matter; a function keeps the returns of its body to itself. -/
inductive Found (lines : LineMap) : Findings → List Node → Prop
  | quiet {f : Findings} : f.functions = [] → f.returns = [] → Found lines f []
  | append {f g : Findings} {ns ms : List Node} :
      Found lines f ns → Found lines g ms → Found lines (f ++ g) (ns ++ ms)
  | cons {f : Findings} {n : Node} {ns : List Node} :
      Found lines f ns → n.mark? = none → Found lines f (n :: ns)
  | function {g : FunctionNode} {n : Node} : n.functionNode? = some g →
      Found lines (g.body.findings lines false) g.body.nodes →
      Found lines (g.findings lines) (n :: g.body.nodes)
  | returned {f : Findings} {ns : List Node} {span : Span} {v : Option Expr} {line : Nat}
      {reachable : Bool} : Found lines f ns →
      Found lines ({ returns := [⟨span.pos, line, reachable⟩] } ++ f)
        (.stmt (.returnWith span v) :: ns)

section Found

variable {lines : LineMap} {span : Span} {ps : List Param} {b : Block}

theorem Found.empty : Found lines .empty [] := .quiet rfl rfl

theorem Found.declared {n : Ident} (h : Found lines (b.findings lines false) b.nodes) :
    Found lines (.ofFunction (some n.text) .declaration span.pos (lines.lineNumber span.pos)
      ps.length b.canComplete (b.findings lines false)) (.stmt (.function span n ps b) :: b.nodes) :=
  .function (g := ⟨some n.text, .declaration, span.pos, ps.length, b⟩) rfl h

theorem Found.expressed {n : Option Ident} (h : Found lines (b.findings lines false) b.nodes) :
    Found lines (.ofFunction (n.map (·.text)) .expression span.pos (lines.lineNumber span.pos)
      ps.length b.canComplete (b.findings lines false)) (.expr (.function span n ps b) :: b.nodes) :=
  .function (n := .expr (.function span n ps b))
    (g := ⟨n.map Ident.text, .expression, span.pos, ps.length, b⟩) rfl h

end Found

/-- What is looked up of a function: where it starts, how control leaves it and where it returns. -/
structure Sketch where
  pos : Nat
  completion : Completion
  returns : List ReturnSite

/-- The part of a summary that is looked up. -/
def sketch (f : FunctionSummary) : Sketch := ⟨f.pos, f.completion, f.returns⟩

/-- What has to be found for a function with this offset and body. -/
def sketchOf (lines : LineMap) (p : Nat × Block) : Sketch :=
  let returns := (p.2.findings lines false).returns
  ⟨p.1, Findings.completionOf p.2.canComplete returns, returns⟩

/-- The offsets of returns. -/
def offsets (rs : List ReturnSite) : List Nat := rs.map (·.pos)

/-- What was found in a part of a program is right about the nodes of that part. -/
structure Agrees (lines : LineMap) (f : Findings) (ns : List Node) : Prop where
  functions : f.functions.map sketch = (ns.filterMap Node.function?).map (sketchOf lines)
  returns : (offsets f.returns).Sublist (marks ns)
  inside : ∀ g ∈ f.functions, (offsets g.returns).Sublist (marks ns)

namespace Agrees

variable {lines : LineMap} {f g : Findings} {ns ms : List Node}

theorem quiet (hfunctions : f.functions = []) (hreturns : f.returns = []) : Agrees lines f [] where
  functions := by rw [hfunctions]; rfl
  returns := by rw [hreturns]; exact List.Sublist.slnil
  inside g hg := by rw [hfunctions] at hg; cases hg

theorem append (hf : Agrees lines f ns) (hg : Agrees lines g ms) :
    Agrees lines (f ++ g) (ns ++ ms) where
  functions := by
    show (f.functions ++ g.functions).map sketch = _
    rw [List.map_append, hf.functions, hg.functions, List.filterMap_append, List.map_append]
  returns := by
    show ((f.returns ++ g.returns).map _).Sublist _
    rw [List.map_append, marks_append]
    exact hf.returns.append hg.returns
  inside h hh := by
    rw [marks_append]
    rcases List.mem_append.mp hh with hh | hh
    · exact (hf.inside h hh).trans (List.sublist_append_left _ _)
    · exact (hg.inside h hh).trans (List.sublist_append_right _ _)

theorem cons (hf : Agrees lines f ns) {n : Node} (hn : n.function? = none) :
    Agrees lines f (n :: ns) := by
  have hmarks : (marks ns).Sublist (marks (n :: ns)) := (List.sublist_cons_self _ _).filterMap _
  refine ⟨?_, hf.returns.trans hmarks, fun g hg => (hf.inside g hg).trans hmarks⟩
  rw [List.filterMap_cons_none hn]
  exact hf.functions

theorem ofFunction {n : Node} {b : Block} {name : Option String} {kind : FunctionKind}
    {pos line count : Nat} (hn : n.function? = some (pos, b))
    (hb : Agrees lines (b.findings lines false) ns) :
    Agrees lines (.ofFunction name kind pos line count b.canComplete (b.findings lines false))
      (n :: ns) := by
  have hmarks : (marks ns).Sublist (marks (n :: ns)) := (List.sublist_cons_self _ _).filterMap _
  constructor
  · rw [List.filterMap_cons_some hn, List.map_cons, ← hb.functions]
    rfl
  · exact List.nil_sublist _
  · intro g hg
    rcases List.mem_cons.mp hg with rfl | hg
    · exact hb.returns.trans hmarks
    · exact (hb.inside g hg).trans hmarks

/-- A `return` statement, before what is found in its value. -/
theorem ofReturn {span : Span} {v : Option Expr} {line : Nat} {reachable : Bool}
    (hf : Agrees lines f ns) :
    Agrees lines ({ returns := [⟨span.pos, line, reachable⟩] } ++ f)
      (.stmt (.returnWith span v) :: ns) where
  functions := hf.functions
  returns := hf.returns.cons_cons span.pos
  inside g hg := (hf.inside g hg).cons span.pos

end Agrees

theorem Found.agrees {lines : LineMap} {f : Findings} {ns : List Node} (h : Found lines f ns) :
    Agrees lines f ns := by
  induction h with
  | quiet hfunctions hreturns => exact .quiet hfunctions hreturns
  | append _ _ ihf ihg => exact ihf.append ihg
  | @cons f n ns _ hn ih =>
    refine ih.cons ?_
    rw [n.function?_eq, Node.functionNode?_of_mark? hn]
    rfl
  | @function g n hn _ ih =>
    refine .ofFunction ?_ ih
    rw [n.function?_eq, hn]
    rfl
  | returned _ ih => exact .ofReturn ih

/-- An assignment may be of note by itself, but holds no function and no return. -/
theorem AssignmentSite.findings_found (lines : LineMap) (site : AssignmentSite) (o : Expr)
    (name : String) : Found lines (site.findings o name) [] := by
  unfold AssignmentSite.findings
  split
  · split
    · exact .quiet rfl rfl
    · split
      · exact .quiet rfl rfl
      · exact .empty
  · exact .empty

/-! ### Findings throughout a program -/

mutual

theorem Expr.findings_found (lines : LineMap) :
    ∀ (role : Role) (e : Expr), Found lines (e.findings lines role) e.nodes
  | role, .paren _ e => (e.findings_found lines role).cons rfl
  | role, .member span o n => by
    refine .cons ?_ rfl
    have ho := o.findings_found lines .value
    cases role with
    | value =>
      cases o with
      | this => exact .cons (.quiet rfl rfl) rfl
      | _ => exact ho
    | target site =>
      cases o with
      | this =>
        obtain ⟨plain, value, line⟩ := site
        cases plain <;> exact .cons (.quiet rfl rfl) rfl
      | _ => exact (site.findings_found lines _ _).append ho
  | _, .array _ es => (findingsOfExprs_found lines es).cons rfl
  | _, .object _ ps => (findingsOfProperties_found lines ps).cons rfl
  | _, .index _ o i =>
    ((o.findings_found lines .value).append (i.findings_found lines .value)).cons rfl
  | _, .call _ c as =>
    ((c.findings_found lines .value).append (findingsOfExprs_found lines as)).cons rfl
  | _, .construct _ c _ as =>
    ((c.findings_found lines .value).append (findingsOfExprs_found lines as)).cons rfl
  | _, .function _ _ _ b => .expressed (b.findings_found lines false)
  | _, .wordOp _ _ e => (e.findings_found lines .value).cons rfl
  | _, .before _ _ e => (e.findings_found lines .value).cons rfl
  | _, .after _ e _ => (e.findings_found lines .value).cons rfl
  | role, .binary span l op r => by
    refine .cons ?_ rfl
    cases hop : op.isAssignment with
    | true =>
      rw [Expr.findings, if_pos hop]
      exact (l.findings_found lines _).append (r.findings_found lines .value)
    | false =>
      rw [Expr.findings, if_neg (Bool.not_eq_true _ ▸ hop)]
      exact (l.findings_found lines _).append (r.findings_found lines .value)
  | _, .conditional _ t y n =>
    (((t.findings_found lines .value).append (y.findings_found lines .value)).append
      (n.findings_found lines .value)).cons rfl
  | _, .ident _ => .cons .empty rfl
  | _, .string _ => .cons .empty rfl
  | _, .number _ => .cons .empty rfl
  | _, .regex _ _ => .cons .empty rfl
  | _, .omitted _ _ => .cons .empty rfl
  | _, .this _ => .cons .empty rfl
  | _, .null _ => .cons .empty rfl
  | _, .boolean _ _ => .cons .empty rfl
termination_by structural _ e => e

theorem findingsOfExprs_found (lines : LineMap) :
    ∀ es : List Expr, Found lines (findingsOfExprs lines es) (nodesOfExprs es)
  | [] => .empty
  | e :: es => (e.findings_found lines .value).append (findingsOfExprs_found lines es)
termination_by structural es => es

theorem findingsOfExpr?_found (lines : LineMap) :
    ∀ e : Option Expr, Found lines (findingsOfExpr? lines e) (nodesOfExpr? e)
  | none => .empty
  | some e => e.findings_found lines .value
termination_by structural e => e

theorem findingsOfProperties_found (lines : LineMap) :
    ∀ ps : List Property, Found lines (findingsOfProperties lines ps) (nodesOfProperties ps)
  | [] => .empty
  | .mk _ _ e :: ps => (e.findings_found lines .value).append (findingsOfProperties_found lines ps)
termination_by structural ps => ps

theorem Stmt.findings_found (lines : LineMap) (dead : Bool) :
    ∀ s : Stmt, Found lines (s.findings lines dead) s.nodes
  | .declaration _ l => (l.findings_found lines).cons rfl
  | .function _ _ _ b => .declared (b.findings_found lines false)
  | .block b => (b.findings_found lines dead).cons rfl
  | .empty _ => .cons .empty rfl
  | .expression _ e => (e.findings_found lines .value).cons rfl
  | .ifElse _ t y n =>
    (((t.findings_found lines .value).append (y.findings_found lines dead)).append
      (findingsOfStmt?_found lines dead n)).cons rfl
  | .doWhile _ b t =>
    ((b.findings_found lines dead).append (t.findings_found lines .value)).cons rfl
  | .whileDo _ t b =>
    ((t.findings_found lines .value).append (b.findings_found lines dead)).cons rfl
  | .forLoop _ i t u b =>
    ((((i.findings_found lines).append (findingsOfExpr?_found lines t)).append
      (findingsOfExpr?_found lines u)).append (b.findings_found lines dead)).cons rfl
  | .forIn _ i o b =>
    (((i.findings_found lines).append (o.findings_found lines .value)).append
      (b.findings_found lines dead)).cons rfl
  | .continueTo _ _ => .cons .empty rfl
  | .breakTo _ _ => .cons .empty rfl
  | .returnWith _ v => .returned (findingsOfExpr?_found lines v)
  | .switchOn _ e cs =>
    ((e.findings_found lines .value).append (findingsOfClauses_found lines dead cs)).cons rfl
  | .labeled _ _ b => (b.findings_found lines dead).cons rfl
  | .throwing _ e => (e.findings_found lines .value).cons rfl
  | .tryCatch _ b h f =>
    (((b.findings_found lines dead).append (h.findings_found lines dead)).append
      (findingsOfBlock?_found lines dead f)).cons rfl
  | .debugger _ => .cons .empty rfl
termination_by structural s => s

theorem findingsOfStmts_found (lines : LineMap) :
    ∀ (dead : Bool) (ss : List Stmt), Found lines (findingsOfStmts lines dead ss) (nodesOfStmts ss)
  | _, [] => .empty
  | dead, s :: ss => (s.findings_found lines dead).append (findingsOfStmts_found lines _ ss)
termination_by structural _ ss => ss

theorem findingsOfStmt?_found (lines : LineMap) (dead : Bool) :
    ∀ s : Option Stmt, Found lines (findingsOfStmt? lines dead s) (nodesOfStmt? s)
  | none => .empty
  | some s => s.findings_found lines dead
termination_by structural s => s

theorem Block.findings_found (lines : LineMap) (dead : Bool) :
    ∀ b : Block, Found lines (b.findings lines dead) b.nodes
  | .mk _ ss => findingsOfStmts_found lines dead ss
termination_by structural b => b

theorem findingsOfBlock?_found (lines : LineMap) (dead : Bool) :
    ∀ b : Option Block, Found lines (findingsOfBlock? lines dead b) (nodesOfBlock? b)
  | none => .empty
  | some b => b.findings_found lines dead
termination_by structural b => b

theorem DeclList.findings_found (lines : LineMap) :
    ∀ l : DeclList, Found lines (l.findings lines) l.nodes
  | .mk _ _ ds => findingsOfDecls_found lines ds
termination_by structural l => l

theorem findingsOfDecls_found (lines : LineMap) :
    ∀ ds : List Decl, Found lines (findingsOfDecls lines ds) (nodesOfDecls ds)
  | [] => .empty
  | .mk _ _ e :: ds => (findingsOfExpr?_found lines e).append (findingsOfDecls_found lines ds)
termination_by structural ds => ds

theorem ForInit.findings_found (lines : LineMap) :
    ∀ i : ForInit, Found lines (i.findings lines) i.nodes
  | .none => .empty
  | .decls l => l.findings_found lines
  | .expr e => e.findings_found lines .value
termination_by structural i => i

theorem findingsOfClauses_found (lines : LineMap) (dead : Bool) :
    ∀ cs : List Clause, Found lines (findingsOfClauses lines dead cs) (nodesOfClauses cs)
  | [] => .empty
  | .mk _ t ss :: cs =>
    ((findingsOfExpr?_found lines t).append (findingsOfStmts_found lines dead ss)).append
      (findingsOfClauses_found lines dead cs)
termination_by structural cs => cs

theorem Handler.findings_found (lines : LineMap) (dead : Bool) :
    ∀ h : Handler, Found lines (h.findings lines dead) h.nodes
  | .none => .empty
  | .catching _ _ b => b.findings_found lines dead
termination_by structural h => h

end

/-! ### Looking up -/

theorem function?_sublist (ns : List Node) :
    ((ns.filterMap Node.function?).map (·.1)).Sublist (marks ns) := by
  induction ns with
  | nil => exact List.Sublist.slnil
  | cons n ns ih =>
    cases hn : n.function? with
    | none =>
      rw [List.filterMap_cons_none hn]
      exact ih.trans ((List.sublist_cons_self _ _).filterMap _)
    | some p =>
      have hmark : n.mark? = some p.1 := by
        rcases n with s | e
        · cases s <;> cases hn
          rfl
        · cases e <;> cases hn
          rfl
      rw [List.filterMap_cons_some hn, marks, List.filterMap_cons_some hmark]
      exact ih.cons_cons p.1

/-- In a list without two of one offset, the first of an offset is the only one. -/
theorem find?_of_distinct {α : Type} {pos : α → Nat} {as : List α} (h : (as.map pos).Nodup) {a : α}
    (ha : a ∈ as) : as.find? (pos · == pos a) = some a := by
  induction as with
  | nil => cases ha
  | cons b as ih =>
    rw [List.map_cons, List.nodup_cons] at h
    rcases List.mem_cons.mp ha with rfl | ha
    · exact List.find?_cons_of_pos (beq_self_eq_true _)
    · have hne : pos b ≠ pos a := fun heq => h.1 (heq ▸ List.mem_map_of_mem ha)
      rw [List.find?_cons_of_neg (by simpa using hne)]
      exact ih h.2 ha

end Script

/-- Looking up the function with this offset and body finds how control leaves it, and looking up
one of its returns finds whether control can get to it. -/
def Summary.Knows (summary : Summary) (lines : LineMap) (pos : Nat) (b : Script.Block) : Prop :=
  ∃ f, summary.functionAt? pos = some f ∧
    f.completion = Findings.completionOf b.canComplete (b.findings lines false).returns ∧
    ∀ site ∈ (b.findings lines false).returns, f.returns.find? (·.pos == site.pos) = some site

namespace Script

/-- Looking up a function of a program finds what was found in its body, with no two returns at one
offset. -/
theorem summarize_finds (text : String) (lines : LineMap) {n : Node} {pos : Nat} {b : Block}
    (hn : n ∈ (parse text).nodes) (hfunction : n.function? = some (pos, b)) :
    ∃ f, ((parse text).summarize lines).functionAt? pos = some f ∧
      sketch f = sketchOf lines (pos, b) ∧ (offsets f.returns).Nodup := by
  have hagrees := (findingsOfStmts_found lines false (parse text).statements).agrees
  have hincrease := (marks_increase text).imp Nat.ne_of_lt
  -- The function is one of those found, and no other starts where it does.
  have hfound : sketchOf lines (pos, b) ∈
      (findingsOfStmts lines false (parse text).statements).functions.map sketch := by
    rw [hagrees.functions]
    exact List.mem_map_of_mem (List.mem_filterMap.mpr ⟨n, hn, hfunction⟩)
  obtain ⟨f, hf, hsketch⟩ := List.mem_map.mp hfound
  have hpositions : (findingsOfStmts lines false (parse text).statements).functions.map (·.pos) =
      ((parse text).nodes.filterMap Node.function?).map (·.1) := by
    have hpos := congrArg (List.map Sketch.pos) hagrees.functions
    rw [List.map_map, List.map_map] at hpos
    exact hpos
  have hdistinct : ((findingsOfStmts lines false (parse text).statements).functions.map
      (·.pos)).Nodup := by
    rw [hpositions]
    exact hincrease.sublist (function?_sublist _)
  have hpos : f.pos = pos := congrArg Sketch.pos hsketch
  refine ⟨f, ?_, hsketch, hincrease.sublist (hagrees.inside f hf)⟩
  rw [← hpos]
  exact find?_of_distinct hdistinct hf

/-- **Lookups are right.** The summary of a program knows each of its functions. -/
theorem summarize_knows (text : String) (lines : LineMap) {n : Node} {pos : Nat} {b : Block}
    (hn : n ∈ (parse text).nodes) (hfunction : n.function? = some (pos, b)) :
    ((parse text).summarize lines).Knows lines pos b := by
  obtain ⟨f, hlookup, hsketch, hdistinct⟩ := summarize_finds text lines hn hfunction
  have hreturns : f.returns = (b.findings lines false).returns := congrArg Sketch.returns hsketch
  refine ⟨f, hlookup, congrArg Sketch.completion hsketch, fun site hsite => ?_⟩
  rw [← hreturns] at hsite
  exact find?_of_distinct hdistinct hsite

end Script
end Countersign
