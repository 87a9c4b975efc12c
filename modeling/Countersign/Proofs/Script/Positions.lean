/-
# Positions of functions and returns

A function and a `return` statement each start at a word of their own, which is passed before
anything inside them is read. The functions and returns of a program therefore stand in the tree in
the order of their offsets, and no two of them start at the same offset.

Each rule of the grammar is shown to read functions and returns in that order, given that the rules
for what is nested do.

Key definitions: `marks`, `Rules.Give`.
Key theorems: `Rule.statement_gives`, `Rules.within_give`, `read_fine`, `marks_increase`.
-/
import Countersign.Proofs.Script.Reads
import Countersign.Script.Walk

namespace Countersign
namespace Script

/-! ### Functions and returns -/

attribute [simp] Expr.nodes nodesOfExprs nodesOfExpr? nodesOfProperties Stmt.nodes nodesOfStmts
  nodesOfStmt? Block.nodes nodesOfBlock? DeclList.nodes nodesOfDecls ForInit.nodes nodesOfClauses
  Handler.nodes

/-- The offset of a node that is a function or a `return` statement. -/
@[simp]
def Node.mark? : Node → Option Nat
  | .stmt (.function span _ _ _) => some span.pos
  | .stmt (.returnWith span _) => some span.pos
  | .expr (.function span _ _ _) => some span.pos
  | _ => none

/-- The offsets of the functions and `return` statements among the nodes. -/
def marks (ns : List Node) : List Nat := ns.filterMap Node.mark?

@[simp]
theorem marks_nil : marks [] = [] := rfl

@[simp]
theorem marks_append (ns ms : List Node) : marks (ns ++ ms) = marks ns ++ marks ms :=
  List.filterMap_append

@[simp]
theorem marks_cons (n : Node) (ns : List Node) : marks (n :: ns) = n.mark?.toList ++ marks ns := by
  rw [marks, List.filterMap_cons]
  cases n.mark? <;> rfl

/-- The functions and returns of an expression. -/
def Expr.marks (e : Expr) : List Nat := Script.marks e.nodes

/-- The functions and returns of a statement. -/
def Stmt.marks (s : Stmt) : List Nat := Script.marks s.nodes

/-- The functions and returns of a block. -/
def Block.marks (b : Block) : List Nat := Script.marks b.nodes

@[simp]
theorem marks_nodesOfExprs (es : List Expr) : marks (nodesOfExprs es) = es.flatMap Expr.marks := by
  induction es with
  | nil => rfl
  | cons e es ih => rw [nodesOfExprs, marks_append, ih, List.flatMap_cons, Expr.marks]

@[simp]
theorem marks_nodesOfStmts (ss : List Stmt) : marks (nodesOfStmts ss) = ss.flatMap Stmt.marks := by
  induction ss with
  | nil => rfl
  | cons s ss ih => rw [nodesOfStmts, marks_append, ih, List.flatMap_cons, Stmt.marks]

@[simp]
theorem marks_nodesOfExpr? (e : Option Expr) : marks (nodesOfExpr? e) = maybe Expr.marks e := by
  cases e <;> rfl

@[simp]
theorem marks_nodesOfStmt? (s : Option Stmt) : marks (nodesOfStmt? s) = maybe Stmt.marks s := by
  cases s <;> rfl

@[simp]
theorem marks_nodesOfBlock? (b : Option Block) : marks (nodesOfBlock? b) = maybe Block.marks b := by
  cases b <;> rfl

/-- The functions and returns of a property. -/
def Property.marks : Property → List Nat
  | .mk _ _ e => e.marks

@[simp]
theorem marks_nodesOfProperties (ps : List Property) :
    marks (nodesOfProperties ps) = ps.flatMap Property.marks := by
  induction ps with
  | nil => rfl
  | cons p ps ih =>
    obtain ⟨span, name, e⟩ := p
    rw [nodesOfProperties, marks_append, ih, List.flatMap_cons, Property.marks, Expr.marks]

/-- The functions and returns of a declaration. -/
def Decl.marks : Decl → List Nat
  | .mk _ _ init => maybe Expr.marks init

@[simp]
theorem marks_nodesOfDecls (ds : List Decl) : marks (nodesOfDecls ds) = ds.flatMap Decl.marks := by
  induction ds with
  | nil => rfl
  | cons d ds ih =>
    obtain ⟨span, name, init⟩ := d
    rw [nodesOfDecls, marks_append, marks_nodesOfExpr?, ih, List.flatMap_cons, Decl.marks]

/-- The functions and returns of a clause. -/
def Clause.marks : Clause → List Nat
  | .mk _ test body => maybe Expr.marks test ++ body.flatMap Stmt.marks

@[simp]
theorem marks_nodesOfClauses (cs : List Clause) :
    marks (nodesOfClauses cs) = cs.flatMap Clause.marks := by
  induction cs with
  | nil => rfl
  | cons c cs ih =>
    obtain ⟨span, test, body⟩ := c
    rw [nodesOfClauses, marks_append, marks_append, marks_nodesOfExpr?, marks_nodesOfStmts, ih,
      List.flatMap_cons, Clause.marks]

/-- The rules for what is nested read in order. -/
structure Rules.Give (r : Rules) : Prop where
  expression : Gives r.expression Expr.marks
  assignment : Gives r.assignment Expr.marks
  binary : ∀ least, Gives (r.binary least) Expr.marks
  unary : Gives r.unary Expr.marks
  construct : Gives r.construct Expr.marks
  statement : Gives r.statement Stmt.marks

/-! ### Expressions -/

namespace Rule

open Parse

variable {r : Rules} {lo : Nat} {before : List Nat}

theorem identifier_reads : Reads identifier lo before fun _ => before := by
  refine token_reads.bind fun t => .ite ?_ ?_
  · exact next_reads.bind fun _ => .pure rfl
  · refine (report_reads _).bind fun _ => ?_
    exact .ite (.pure rfl) (next_reads.bind fun _ => .pure rfl)

theorem propertyIdent_reads : Reads propertyIdent lo before fun _ => before := by
  refine token_reads.bind fun t => .ite ?_ identifier_reads
  exact next_reads.bind fun _ => .pure rfl

theorem numberLit_reads : Reads numberLit lo before fun _ => before :=
  token_reads.bind fun _ => next_reads.bind fun _ => .pure rfl

theorem stringLit_reads : Reads stringLit lo before fun _ => before :=
  token_reads.bind fun _ => get_reads.bind fun _ => next_reads.bind fun _ => .pure rfl

/-- A regular expression starts where its slash does. -/
theorem rescan_reads : Reads (modify fun s => { s with scanner := s.scanner.rescanSlash }) lo before
    fun _ => before := by
  intro s a s' hfine hwithin h
  cases h
  unfold ParseState.here
  dsimp only
  rw [rescanSlash_token]
  refine ⟨⟨?_, hfine.comments.rescanSlash⟩, hwithin⟩
  rw [rescanSlash_token]
  refine ⟨?_, fun w hw => by cases hw⟩
  show s.scanner.token.span.pos ≤ s.scanner.token.span.pos + 1 + _
  omega

theorem regexLit_gives : Gives regexLit Expr.marks := by
  intro lo before
  refine rescan_reads.bind fun _ => token_reads.bind fun _ => next_reads.bind fun _ => .pure ?_
  simp [Expr.marks]

theorem missing_gives : Gives missing Expr.marks := by
  intro lo before
  refine token_reads.bind fun t => (report_reads _).bind fun _ => ?_
  refine .ite (.pure ?_) (next_reads.bind fun _ => .pure ?_) <;>
    simp [Expr.marks]

theorem paren_gives (hr : r.Give) : Gives (paren r) Expr.marks := by
  intro lo before
  refine pos_reads.bind fun start => (expectMark_reads _).bind fun _ => ?_
  refine (withNoIn_reads _ (hr.expression lo before)).bind fun e => ?_
  refine (expectMark_reads _).bind fun _ => (spanFrom_reads _).bind fun _ => .pure ?_
  simp [Expr.marks]

theorem element_gives (hr : r.Give) : Gives (element r) Expr.marks := by
  intro lo before
  refine (atMark_reads _).bind fun _ => .ite (pos_reads.bind fun _ => .pure ?_) (hr.assignment lo before)
  simp [Expr.marks]

theorem arrayLit_gives (hr : r.Give) : Gives (arrayLit r) Expr.marks := by
  intro lo before
  refine pos_reads.bind fun start => (expectMark_reads _).bind fun _ => ?_
  refine (withNoIn_reads _ (commaList_gives (fun _ _ => before_reads _) (element_gives hr) _ lo
    before)).bind fun es => ?_
  refine (expectMark_reads _).bind fun _ => (spanFrom_reads _).bind fun _ => .pure ?_
  simp [Expr.marks]

theorem arguments_gives (hr : r.Give) : Gives (arguments r) fun es => es.flatMap Expr.marks := by
  intro lo before
  refine (expectMark_reads _).bind fun _ => ?_
  refine (withNoIn_reads _ (commaList_gives (fun _ _ => before_reads _) hr.assignment _ lo
    before)).bind fun es => ?_
  exact (expectMark_reads _).bind fun _ => .pure rfl

theorem param_reads : Reads param lo before fun _ => before :=
  pos_reads.bind fun _ => identifier_reads.bind fun _ => (spanFrom_reads _).bind fun _ => .pure rfl

theorem params_reads : Reads (params r) lo before fun _ => before := by
  have hparam : Gives param fun _ => [] := gives_of_reads fun _ _ => param_reads
  refine (expectMark_reads _).bind fun _ => ?_
  refine (commaList_gives (fun _ _ => before_reads _) hparam _ lo before).bind fun ps => ?_
  exact (expectMark_reads _).bind fun _ => .pure (by simp)

theorem synchronize_reads : Reads (synchronize r) lo before fun _ => before := by
  have hnext : Gives next fun _ => [] := gives_of_reads fun _ _ => next_reads
  refine (repeatWhile_gives (fun lo before => ?_) hnext _ lo before).bind fun _ => .pure (by simp)
  exact .look _ fun _ => rfl

theorem listedStatement_gives (hr : r.Give) : Gives (listedStatement r) Stmt.marks := by
  intro lo before
  refine pos_reads.bind fun start => (hr.statement lo before).bind fun s => ?_
  refine pos_reads.bind fun _ => .ite ?_ (.pure rfl)
  exact next_reads.bind fun _ => synchronize_reads.bind fun _ => .pure rfl

theorem statements_gives (hr : r.Give) : Gives (statements r) fun ss => ss.flatMap Stmt.marks :=
  repeatWhile_gives (fun _ _ => before_reads _) (listedStatement_gives hr) _

theorem block_gives (hr : r.Give) : Gives (block r) Block.marks := by
  intro lo before
  refine pos_reads.bind fun start => (expectMark_reads _).bind fun _ => ?_
  refine (statements_gives hr lo before).bind fun ss => ?_
  refine (expectMark_reads _).bind fun _ => (spanFrom_reads _).bind fun _ => .pure ?_
  simp [Block.marks, Block.nodes]

theorem functionBody_gives (hr : r.Give) : Gives (functionBody r) Block.marks :=
  fun lo before => withNoIn_reads _ (block_gives hr lo before)

/-- After the reserved word `w`, whose offset is left behind, reading adds the offsets of its
result. -/
def GivesAt {α : Type} (w : Word) (p : Parse α) (m : α → List Nat) : Prop :=
  ∀ lo before s a s', s.Fine → s.scanner.token.kind = .word w → Within lo before s.here →
    p s = some (a, s') → s'.Fine ∧ Within lo (before ++ m a) s'.here

/-- A rule that passes the word it starts with and keeps its offset. -/
theorem givesAt_of_word {α : Type} {w : Word} {pass : Parse Unit} {f : Nat → Parse α}
    {m : α → List Nat} (hpass : ∀ s, s.scanner.token.kind = .word w → pass s = next s)
    (hf : ∀ start lo before, Reads (f start) lo (before ++ [start]) fun a => before ++ m a) :
    GivesAt w (pos >>= fun start => pass >>= fun _ => f start) m := by
  intro lo before s a s' hfine hword hwithin h
  obtain ⟨start, s₁, hstart, h⟩ := bind_some h
  cases hstart
  obtain ⟨u, s₂, hnext, h⟩ := bind_some h
  rw [hpass s hword] at hnext
  obtain ⟨hfine₂, hwithin₂⟩ := next_word hfine hword hwithin hnext
  exact hf _ lo before s₂ a s' hfine₂ hwithin₂ h

theorem functionExpr_gives (hr : r.Give) : GivesAt .functionWord (functionExpr r) Expr.marks := by
  refine givesAt_of_word (fun s => expect_of_kind) fun start lo before => ?_
  refine (at?_reads _).bind fun _ => .ite
    (identifier_reads.mapped.bind fun name => ?_) (Reads.done.bind fun name => ?_)
  all_goals
    refine params_reads.bind fun ps => (functionBody_gives hr lo _).bind fun body => ?_
    refine spanFrom_bind fun stop => .pure ?_
    simp [Expr.marks, Block.marks]

theorem atAccessor_reads : Reads atAccessor lo before fun _ => before :=
  token_reads.bind fun _ => .ite (peekKind_reads.bind fun _ => .pure rfl) (.pure rfl)

/-- An accessor is read and dropped. -/
theorem skipAccessor_reads (hr : r.Give) : Reads (skipAccessor r) lo before fun _ => before := by
  refine (report_reads _).bind fun _ => next_reads.bind fun _ => next_reads.bind fun _ => ?_
  refine params_reads.bind fun _ => ?_
  intro s a s' hfine hwithin h
  obtain ⟨b, s₁, hbody, hpure⟩ := bind_some h
  cases hpure
  obtain ⟨hfine', hwithin'⟩ := functionBody_gives hr lo before s b _ hfine hwithin hbody
  exact ⟨hfine', hwithin'.sublist (List.sublist_append_left _ _)⟩

theorem propertyValue_gives (hr : r.Give) (start : Nat) (name : PropertyName) :
    Gives (propertyValue r start name) (maybe Property.marks) := by
  intro lo before
  refine (expectMark_reads _).bind fun _ => (hr.assignment lo before).bind fun e => ?_
  exact (spanFrom_reads _).bind fun _ => .pure rfl

theorem property_gives (hr : r.Give) : Gives (property r) (maybe Property.marks) := by
  intro lo before
  refine token_reads.bind fun t => ?_
  split
  · exact stringLit_reads.bind fun _ => propertyValue_gives hr _ _ lo before
  · exact numberLit_reads.bind fun _ => propertyValue_gives hr _ _ lo before
  · refine .ite ?_ ?_
    · refine atAccessor_reads.bind fun _ => .ite ?_ ?_
      · exact (skipAccessor_reads hr).bind fun _ => .pure (by simp [maybe])
      · exact propertyIdent_reads.bind fun _ => propertyValue_gives hr _ _ lo before
    · refine (report_reads _).bind fun _ => next_reads.bind fun _ => .pure ?_
      simp [maybe]

theorem objectLit_gives (hr : r.Give) : Gives (objectLit r) Expr.marks := by
  intro lo before
  refine pos_reads.bind fun start => (expectMark_reads _).bind fun _ => ?_
  refine (withNoIn_reads _ (commaList_gives (fun _ _ => before_reads _) (property_gives hr) _ lo
    before)).bind fun ps => ?_
  refine (expectMark_reads _).bind fun _ => (spanFrom_reads _).bind fun _ => .pure ?_
  rw [Expr.marks, Expr.nodes, marks_cons, marks_nodesOfProperties, flatMap_filterMap]
  rfl

/-- A literal or a name as an expression. -/
theorem leaf_reads {α : Type} {p : Parse α} {e : α → Expr} (hp : Reads p lo before fun _ => before)
    (he : ∀ a, (e a).marks = []) :
    Reads (do return e (← p)) lo before fun e => before ++ e.marks :=
  hp.bind fun a => .pure (by rw [he, List.append_nil])

theorem single_gives {e : Span → Expr} (he : ∀ span, (e span).marks = []) :
    Gives (single e) Expr.marks := by
  intro lo before
  exact token_reads.bind fun _ => next_reads.bind fun _ => .pure (by simp [he])

theorem primary_gives (hr : r.Give) : Gives (primary r) Expr.marks := by
  intro lo before s a s' hfine hwithin h
  obtain ⟨k, s₁, hkind, h⟩ := bind_some h
  obtain ⟨hk, rfl⟩ := kind_eq hkind
  split at h
  case h_1 => exact leaf_reads identifier_reads (fun _ => rfl) s a s' hfine hwithin h
  case h_2 => exact leaf_reads numberLit_reads (fun _ => rfl) s a s' hfine hwithin h
  case h_3 => exact leaf_reads stringLit_reads (fun _ => rfl) s a s' hfine hwithin h
  case h_4 => exact single_gives (fun _ => rfl) lo before s a s' hfine hwithin h
  case h_5 => exact single_gives (fun _ => rfl) lo before s a s' hfine hwithin h
  case h_6 => exact single_gives (fun _ => rfl) lo before s a s' hfine hwithin h
  case h_7 => exact single_gives (fun _ => rfl) lo before s a s' hfine hwithin h
  case h_8 => exact paren_gives hr lo before s a s' hfine hwithin h
  case h_9 => exact arrayLit_gives hr lo before s a s' hfine hwithin h
  case h_10 => exact objectLit_gives hr lo before s a s' hfine hwithin h
  case h_11 => exact functionExpr_gives hr lo before s a s' hfine hk hwithin h
  case h_12 => exact regexLit_gives lo before s a s' hfine hwithin h
  case h_13 => exact regexLit_gives lo before s a s' hfine hwithin h
  case h_14 => exact missing_gives lo before s a s' hfine hwithin h

theorem tail_gives (hr : r.Give) (calls : Bool) : ∀ limit e,
    Reads (tail r calls limit e) lo (before ++ e.marks) fun e' => before ++ e'.marks
  | 0, _ => .stuck
  | limit + 1, e => by
    refine kind_reads.bind fun k => ?_
    split
    · refine next_reads.bind fun _ => propertyIdent_reads.bind fun name => ?_
      refine (spanFrom_reads _).bind fun span => ?_
      have hmarks : e.marks = (Expr.member span e name).marks := by
        simp [Expr.marks]
      rw [hmarks]
      exact tail_gives hr calls limit _
    · refine next_reads.bind fun _ => (withNoIn_reads _ (hr.expression lo _)).bind fun i => ?_
      refine (expectMark_reads _).bind fun _ => (spanFrom_reads _).bind fun span => ?_
      have hmarks : e.marks ++ i.marks = (Expr.index span e i).marks := by
        simp [Expr.marks]
      rw [List.append_assoc, hmarks]
      exact tail_gives hr calls limit _
    · refine .ite ?_ (.pure rfl)
      refine (arguments_gives hr lo _).bind fun args => (spanFrom_reads _).bind fun span => ?_
      have hmarks : e.marks ++ args.flatMap Expr.marks = (Expr.call span e args).marks := by
        simp [Expr.marks]
      rw [List.append_assoc, hmarks]
      exact tail_gives hr calls limit _
    · exact .pure rfl

theorem construct_gives (hr : r.Give) : Gives (construct r) Expr.marks := by
  intro lo before
  refine pos_reads.bind fun start => (expect_reads _).bind fun _ => (atWord_reads _).bind fun _ => ?_
  refine .ite ((hr.construct lo before).bind fun callee => ?_)
    ((primary_gives hr lo before).bind fun callee => ?_)
  all_goals
    refine (tail_gives hr false _ callee).bind fun callee => (atMark_reads _).bind fun _ => .ite ?_ ?_
    · refine (arguments_gives hr lo _).bind fun args => (spanFrom_reads _).bind fun _ => .pure ?_
      simp [Expr.marks]
    · refine (spanFrom_reads _).bind fun _ => .pure ?_
      simp [Expr.marks, nodesOfExprs]

theorem leftHandSide_gives (hr : r.Give) : Gives (leftHandSide r) Expr.marks := by
  intro lo before
  refine (atWord_reads _).bind fun _ => .ite ?_ ?_
  · exact (construct_gives hr lo before).bind fun e => tail_gives hr true _ e
  · exact (primary_gives hr lo before).bind fun e => tail_gives hr true _ e

theorem suffixed_gives (hr : r.Give) : Gives (suffixed r) Expr.marks := by
  intro lo before
  refine (leftHandSide_gives hr lo before).bind fun e => token_reads.bind fun t => ?_
  split
  · refine next_reads.bind fun _ => .pure ?_
    simp [Expr.marks]
  · exact .pure rfl

theorem unary_gives (hr : r.Give) : Gives (unary r) Expr.marks := by
  intro lo before
  refine token_reads.bind fun t => ?_
  split
  · refine next_reads.bind fun _ => (hr.unary lo before).bind fun e => ?_
    refine (spanFrom_reads _).bind fun _ => .pure ?_
    simp [Expr.marks]
  · refine next_reads.bind fun _ => (hr.unary lo before).bind fun e => ?_
    refine (spanFrom_reads _).bind fun _ => .pure ?_
    simp [Expr.marks]
  · exact suffixed_gives hr lo before

theorem operator?_reads (least : Nat) : Reads (operator? least) lo before fun _ => before := by
  refine kind_reads.bind fun k => get_reads.bind fun _ => .ite (.pure rfl) ?_
  split
  · exact .ite (.pure rfl) (.pure rfl)
  · exact .pure rfl

theorem binaryTail_gives (hr : r.Give) (least : Nat) : ∀ limit left,
    Reads (binaryTail r least limit left) lo (before ++ left.marks) fun e => before ++ e.marks
  | 0, _ => .stuck
  | limit + 1, left => by
    refine (operator?_reads _).bind fun found => ?_
    split
    · rename_i op level
      refine next_reads.bind fun _ => (hr.binary _ lo _).bind fun right => ?_
      refine (spanFrom_reads _).bind fun span => ?_
      have hmarks : left.marks ++ right.marks = (Expr.binary span left op right).marks := by
        simp [Expr.marks]
      rw [List.append_assoc, hmarks]
      exact binaryTail_gives hr least limit _
    · exact .pure rfl

theorem binary_gives (hr : r.Give) (least : Nat) : Gives (binary r least) Expr.marks := by
  intro lo before
  exact (unary_gives hr lo before).bind fun left => binaryTail_gives hr least _ left

theorem conditional_gives (hr : r.Give) : Gives (conditional r) Expr.marks := by
  intro lo before
  refine (binary_gives hr 0 lo before).bind fun test => (acceptMark_reads _).bind fun _ => ?_
  refine .ite ?_ (.pure rfl)
  refine (withNoIn_reads _ (hr.assignment lo _)).bind fun yes => (expectMark_reads _).bind fun _ => ?_
  refine (hr.assignment lo _).bind fun no => (spanFrom_reads _).bind fun _ => .pure ?_
  simp [Expr.marks]

theorem assignment_gives (hr : r.Give) : Gives (assignment r) Expr.marks := by
  intro lo before
  refine (conditional_gives hr lo before).bind fun target => kind_reads.bind fun op => ?_
  refine .ite (.ite ?_ ((report_reads _).bind fun _ => ?_)) (.pure rfl)
  all_goals
    refine next_reads.bind fun _ => (hr.assignment lo _).bind fun value => ?_
    refine (spanFrom_reads _).bind fun _ => .pure ?_
    simp [Expr.marks]

theorem commaTail_gives (hr : r.Give) : ∀ limit left,
    Reads (commaTail r limit left) lo (before ++ left.marks) fun e => before ++ e.marks
  | 0, _ => .stuck
  | limit + 1, left => by
    refine (acceptMark_reads _).bind fun _ => .ite ?_ (.pure rfl)
    refine (assignment_gives hr lo _).bind fun right => (spanFrom_reads _).bind fun span => ?_
    have hmarks : left.marks ++ right.marks = (Expr.binary span left (.mark .comma) right).marks := by
      simp [Expr.marks]
    rw [List.append_assoc, hmarks]
    exact commaTail_gives hr limit _

theorem expression_gives (hr : r.Give) : Gives (expression r) Expr.marks := by
  intro lo before
  refine get_reads.bind fun _ => .ite ?_ ?_
  · refine (report_reads _).bind fun _ => pos_reads.bind fun _ => .pure ?_
    simp [Expr.marks]
  · refine Reads.bind (modify_reads ?_) fun _ => ?_
    · exact fun _ => rfl
    · refine (assignment_gives hr lo before).bind fun first => ?_
      refine (commaTail_gives hr _ first).bind fun e => Reads.bind (modify_reads ?_) fun _ => .pure rfl
      exact fun _ => rfl

/-! ### Statements -/

theorem decl_gives (hr : r.Give) : Gives (decl r) Decl.marks := by
  intro lo before
  refine pos_reads.bind fun start => identifier_reads.bind fun name => ?_
  refine (acceptMark_reads _).bind fun _ => .ite
    ((assignment_gives hr lo before).optional.bind fun init => ?_) ((Reads.absent Expr.marks).bind fun init => ?_)
  all_goals exact (spanFrom_reads _).bind fun _ => .pure rfl

theorem decls_gives (hr : r.Give) : ∀ limit, Gives (decls r limit) fun ds => ds.flatMap Decl.marks
  | 0, _, _ => .stuck
  | limit + 1, lo, before => by
    refine (decl_gives hr lo before).bind fun d => (acceptMark_reads _).bind fun _ => ?_
    refine .ite ?_ (.pure (by simp))
    exact (decls_gives hr limit lo _).bind fun _ => .pure (by simp)

theorem declList_gives (hr : r.Give) (k : DeclKind) :
    Gives (declList r k) fun l => Script.marks l.nodes := by
  intro lo before
  refine pos_reads.bind fun start => next_reads.bind fun _ => ?_
  refine (decls_gives hr _ lo before).bind fun ds => (spanFrom_reads _).bind fun _ => .pure ?_
  simp [marks_nodesOfDecls]

theorem declStatement_gives (hr : r.Give) (k : DeclKind) : Gives (declStatement r k) Stmt.marks := by
  intro lo before
  refine pos_reads.bind fun start => (declList_gives hr k lo before).bind fun l => ?_
  refine (spanFrom_reads _).bind fun _ => expectSemicolon_reads.bind fun _ => .pure ?_
  simp [Stmt.marks]

theorem debuggerStatement_gives : Gives debuggerStatement Stmt.marks := by
  intro lo before
  refine pos_reads.bind fun start => next_reads.bind fun _ => (spanFrom_reads _).bind fun _ => ?_
  refine expectSemicolon_reads.bind fun _ => .pure ?_
  simp [Stmt.marks]

theorem emptyStatement_gives : Gives emptyStatement Stmt.marks := by
  intro lo before
  refine pos_reads.bind fun start => next_reads.bind fun _ => (spanFrom_reads _).bind fun _ => .pure ?_
  simp [Stmt.marks]

theorem expressionStatement_gives (hr : r.Give) : Gives (expressionStatement r) Stmt.marks := by
  intro lo before
  refine pos_reads.bind fun start => (expression_gives hr lo before).bind fun e => ?_
  refine (spanFrom_reads _).bind fun _ => expectSemicolon_reads.bind fun _ => .pure ?_
  simp [Stmt.marks, Expr.marks]

theorem head_gives (hr : r.Give) : Gives (head r) Expr.marks := by
  intro lo before
  refine (expectMark_reads _).bind fun _ => (expression_gives hr lo before).bind fun e => ?_
  exact (expectMark_reads _).bind fun _ => .pure rfl

theorem ifStatement_gives (hr : r.Give) : Gives (ifStatement r) Stmt.marks := by
  intro lo before
  refine pos_reads.bind fun start => next_reads.bind fun _ => ?_
  refine (head_gives hr lo before).bind fun test => (hr.statement lo _).bind fun yes => ?_
  refine (accept_reads _).bind fun _ => .ite
    ((hr.statement lo _).optional.bind fun no => ?_) ((Reads.absent Stmt.marks).bind fun no => ?_)
  all_goals
    refine (spanFrom_reads _).bind fun _ => .pure ?_
    simp [Stmt.marks, Expr.marks]

theorem returnStatement_gives (hr : r.Give) :
    GivesAt .returnWord (returnStatement r) Stmt.marks := by
  refine givesAt_of_word (fun _ _ => rfl) fun start lo before => ?_
  refine kind_reads.bind fun k => lineBreakBefore_reads.bind fun _ => .ite
    ((Reads.absent Expr.marks).bind fun value => ?_) ((expression_gives hr lo _).optional.bind fun value => ?_)
  all_goals
    refine spanFrom_bind fun stop => expectSemicolon_reads.bind fun _ => .pure ?_
    simp [Stmt.marks]

theorem whileStatement_gives (hr : r.Give) : Gives (whileStatement r) Stmt.marks := by
  intro lo before
  refine pos_reads.bind fun start => next_reads.bind fun _ => ?_
  refine (head_gives hr lo before).bind fun test => (hr.statement lo _).bind fun body => ?_
  refine (spanFrom_reads _).bind fun _ => .pure ?_
  simp [Stmt.marks, Expr.marks]

theorem doStatement_gives (hr : r.Give) : Gives (doStatement r) Stmt.marks := by
  intro lo before
  refine pos_reads.bind fun start => next_reads.bind fun _ => (hr.statement lo before).bind fun body => ?_
  refine (expect_reads _).bind fun _ => (head_gives hr lo _).bind fun test => ?_
  refine (spanFrom_reads _).bind fun _ => (acceptMark_reads _).bind fun _ => .pure ?_
  simp [Stmt.marks, Expr.marks]

theorem forInit_gives (hr : r.Give) : Gives (forInit r) fun i => Script.marks i.nodes := by
  intro lo before
  refine (atMark_reads _).bind fun _ => .ite (.pure ?_) (kind_reads.bind fun k => ?_)
  · simp [ForInit.nodes]
  · split
    · exact (withNoIn_reads _ (declList_gives hr _ lo before)).bind fun l => .pure rfl
    · exact (withNoIn_reads _ (expression_gives hr lo before)).bind fun e => .pure rfl

theorem forInTail_gives (hr : r.Give) (start : Nat) (init : ForInit) :
    Reads (forInTail r start init) lo (before ++ Script.marks init.nodes) fun s => before ++ s.marks := by
  refine next_reads.bind fun _ => (expression_gives hr lo _).bind fun object => ?_
  refine (expectMark_reads _).bind fun _ => (hr.statement lo _).bind fun body => ?_
  refine (spanFrom_reads _).bind fun _ => ?_
  split
  · refine (report_reads _).bind fun _ => .pure ?_
    simp [Stmt.marks, Expr.marks, ForInit.nodes, Expr.nodes]
  · refine .pure ?_
    simp [Stmt.marks, Expr.marks]

theorem unlessMark_gives (hr : r.Give) (m : Mark) :
    Gives (unlessMark r m) (maybe Expr.marks) := by
  intro lo before
  exact (atMark_reads _).bind fun _ => .ite (.absent _) (expression_gives hr lo before).optional

theorem forTail_gives (hr : r.Give) (start : Nat) (init : ForInit) :
    Reads (forTail r start init) lo (before ++ Script.marks init.nodes) fun s => before ++ s.marks := by
  refine (expectMark_reads _).bind fun _ => (unlessMark_gives hr _ lo _).bind fun test => ?_
  refine (expectMark_reads _).bind fun _ => (unlessMark_gives hr _ lo _).bind fun update => ?_
  refine (expectMark_reads _).bind fun _ => (hr.statement lo _).bind fun body => ?_
  refine (spanFrom_reads _).bind fun _ => .pure ?_
  simp [Stmt.marks]

theorem forStatement_gives (hr : r.Give) : Gives (forStatement r) Stmt.marks := by
  intro lo before
  refine pos_reads.bind fun start => next_reads.bind fun _ => (expectMark_reads _).bind fun _ => ?_
  refine (forInit_gives hr lo before).bind fun init => (atWord_reads _).bind fun _ => ?_
  exact .ite (forInTail_gives hr start init) (forTail_gives hr start init)

theorem throwStatement_gives (hr : r.Give) : Gives (throwStatement r) Stmt.marks := by
  intro lo before
  refine pos_reads.bind fun start => next_reads.bind fun _ => lineBreakBefore_reads.bind fun _ => ?_
  refine .ite ((report_reads _).bind fun _ => ?_) ?_
  all_goals
    refine (expression_gives hr lo before).bind fun value => (spanFrom_reads _).bind fun _ => ?_
    refine expectSemicolon_reads.bind fun _ => .pure ?_
    simp [Stmt.marks, Expr.marks]

theorem handler_gives (hr : r.Give) : Gives (handler r) fun h => Script.marks h.nodes := by
  intro lo before
  refine (atWord_reads _).bind fun _ => .ite ?_ (.pure (by simp [Handler.nodes]))
  refine pos_reads.bind fun start => next_reads.bind fun _ => (expectMark_reads _).bind fun _ => ?_
  refine identifier_reads.bind fun name => (expectMark_reads _).bind fun _ => ?_
  exact (block_gives hr lo before).bind fun body => (spanFrom_reads _).bind fun _ => .pure rfl

theorem tryStatement_gives (hr : r.Give) : Gives (tryStatement r) Stmt.marks := by
  intro lo before
  refine pos_reads.bind fun start => next_reads.bind fun _ => ?_
  refine (block_gives hr lo before).bind fun body => (handler_gives hr lo _).bind fun h => ?_
  refine (accept_reads _).bind fun _ => .ite
    ((block_gives hr lo _).optional.bind fun f => ?_) ((Reads.absent Block.marks).bind fun f => ?_)
  all_goals
    dsimp only
    split
    · refine (report_reads _).bind fun _ => (spanFrom_reads _).bind fun _ => .pure ?_
      simp [Stmt.marks, Block.marks]
    · refine (spanFrom_reads _).bind fun _ => .pure ?_
      simp [Stmt.marks, Block.marks]

theorem label?_reads : Reads label? lo before fun _ => before :=
  token_reads.bind fun _ => .ite identifier_reads.mapped .done

theorem jumpStatement_gives {jump : Span → Option Ident → Stmt}
    (hjump : ∀ span label, (jump span label).marks = []) :
    Gives (jumpStatement jump) Stmt.marks := by
  intro lo before
  refine pos_reads.bind fun start => next_reads.bind fun _ => label?_reads.bind fun label => ?_
  refine (spanFrom_reads _).bind fun _ => expectSemicolon_reads.bind fun _ => .pure ?_
  rw [hjump, List.append_nil]

theorem clauseTail_gives (hr : r.Give) (start : Nat) (test : Option Expr) :
    Reads (clauseTail r start test) lo (before ++ maybe Expr.marks test)
      fun c => before ++ maybe Clause.marks c := by
  refine (expectMark_reads _).bind fun _ => ?_
  refine (repeatWhile_gives (fun _ _ => ?_) hr.statement _ lo _).bind fun body => ?_
  · exact kind_reads.bind fun _ => .pure rfl
  · exact (spanFrom_reads _).bind fun _ => .pure (by simp [Clause.marks])

theorem clause_gives (hr : r.Give) : Gives (clause r) (maybe Clause.marks) := by
  intro lo before
  refine pos_reads.bind fun start => kind_reads.bind fun k => ?_
  split
  · refine next_reads.bind fun _ => (expression_gives hr lo before).bind fun test => ?_
    exact clauseTail_gives hr start (some test)
  · refine next_reads.bind fun _ => ?_
    simpa using clauseTail_gives hr start none
  · exact (report_reads _).bind fun _ => next_reads.bind fun _ => .absent _

theorem switchStatement_gives (hr : r.Give) : Gives (switchStatement r) Stmt.marks := by
  intro lo before
  refine pos_reads.bind fun start => next_reads.bind fun _ => ?_
  refine (head_gives hr lo before).bind fun subject => (expectMark_reads _).bind fun _ => ?_
  refine (repeatWhile_gives (fun _ _ => before_reads _) (clause_gives hr) _ lo _).bind fun cs => ?_
  refine (expectMark_reads _).bind fun _ => (spanFrom_reads _).bind fun _ => .pure ?_
  rw [Stmt.marks, Stmt.nodes, marks_cons, marks_append, marks_nodesOfClauses, flatMap_filterMap,
    List.append_assoc]
  rfl

theorem labeledStatement_gives (hr : r.Give) : Gives (labeledStatement r) Stmt.marks := by
  intro lo before
  refine pos_reads.bind fun start => identifier_reads.bind fun label => ?_
  refine (expectMark_reads _).bind fun _ => (hr.statement lo before).bind fun body => ?_
  exact (spanFrom_reads _).bind fun _ => .pure (by simp [Stmt.marks])

theorem functionStatement_gives (hr : r.Give) :
    GivesAt .functionWord (functionStatement r) Stmt.marks := by
  refine givesAt_of_word (fun _ _ => rfl) fun start lo before => ?_
  refine identifier_reads.bind fun name => params_reads.bind fun ps => ?_
  refine (functionBody_gives hr lo _).bind fun body => spanFrom_bind fun stop => .pure ?_
  simp [Stmt.marks, Block.marks]

theorem blockStatement_gives (hr : r.Give) :
    Gives (do return .block (← block r)) Stmt.marks :=
  fun lo before => (block_gives hr lo before).bind fun b => .pure (by simp [Stmt.marks, Block.marks])

/-- The word `with` is reported and passed. -/
theorem withStatement_gives (hr : r.Give) :
    Gives (do report .unsupported; next; r.statement) Stmt.marks :=
  fun lo before => (report_reads _).bind fun _ => next_reads.bind fun _ => hr.statement lo before

theorem statement_gives (hr : r.Give) : Gives (statement r) Stmt.marks := by
  intro lo before s a s' hfine hwithin h
  obtain ⟨k, s₁, hkind, h⟩ := bind_some h
  obtain ⟨hk, rfl⟩ := kind_eq hkind
  -- Only the two rules that note their first word need to know which word it is.
  suffices hgives : ∀ p : Parse Stmt, Gives p Stmt.marks → p s = some (a, s') →
      s'.Fine ∧ Within lo (before ++ a.marks) s'.here by
    split at h
    case h_1 => exact hgives _ emptyStatement_gives h
    case h_2 => exact hgives _ debuggerStatement_gives h
    case h_3 => exact hgives _ (blockStatement_gives hr) h
    case h_4 => exact hgives _ (declStatement_gives hr _) h
    case h_5 => exact hgives _ (declStatement_gives hr _) h
    case h_6 => exact hgives _ (declStatement_gives hr _) h
    case h_7 => exact functionStatement_gives hr lo before s a s' hfine hk hwithin h
    case h_8 => exact hgives _ (ifStatement_gives hr) h
    case h_9 => exact returnStatement_gives hr lo before s a s' hfine hk hwithin h
    case h_10 => exact hgives _ (whileStatement_gives hr) h
    case h_11 => exact hgives _ (forStatement_gives hr) h
    case h_12 => exact hgives _ (doStatement_gives hr) h
    case h_13 => exact hgives _ (throwStatement_gives hr) h
    case h_14 => exact hgives _ (tryStatement_gives hr) h
    case h_15 => exact hgives _ (jumpStatement_gives fun _ _ => rfl) h
    case h_16 => exact hgives _ (jumpStatement_gives fun _ _ => rfl) h
    case h_17 => exact hgives _ (switchStatement_gives hr) h
    case h_18 => exact hgives _ (withStatement_gives hr) h
    case h_19 =>
      refine hgives _ (fun lo before => peekKind_reads.bind fun _ => ?_) h
      exact .ite (labeledStatement_gives hr lo before) (expressionStatement_gives hr lo before)
    case h_20 => exact hgives _ (expressionStatement_gives hr) h
  intro p hp hread
  exact hp lo before s a s' hfine hwithin hread

theorem program_gives (hr : r.Give) : ∀ limit, Gives (program r limit) fun ss => ss.flatMap Stmt.marks
  | 0, _, _ => .stuck
  | limit + 1, lo, before => by
    refine (statements_gives hr lo before).bind fun ss => (atMark_reads _).bind fun _ => ?_
    refine .ite ?_ (.pure rfl)
    refine (report_reads _).bind fun _ => next_reads.bind fun _ => ?_
    exact (program_gives hr limit lo _).bind fun more => .pure (by simp)

end Rule

/-- The rules at every depth of nesting read in order. -/
theorem Rules.within_give (bound depth : Nat) : (Rules.within bound depth).Give := by
  induction depth with
  | zero =>
    exact ⟨fun _ _ => .stuck, fun _ _ => .stuck, fun _ _ _ => .stuck, fun _ _ => .stuck,
      fun _ _ => .stuck, fun _ _ => .stuck⟩
  | succ depth ih =>
    exact ⟨Rule.expression_gives ih, Rule.assignment_gives ih, Rule.binary_gives ih,
      Rule.unary_gives ih, Rule.construct_gives ih, Rule.statement_gives ih⟩

/-- What is true when a program has been read: its functions and returns were come across in order,
and its comments stand in the text. -/
theorem read_fine {bound : Nat} {text : String} {ss : List Stmt} {s : ParseState}
    (hread : (Parse.next >>= fun _ => Rule.program (Rules.within bound bound) bound)
      (ParseState.ofText text) = some (ss, s)) :
    s.Fine ∧ Within 0 (marks (nodesOfStmts ss)) s.here := by
  obtain ⟨u, s₁, hnext, hprogram⟩ := bind_some hread
  -- The first token is fine wherever the scanner starts.
  have hfine : s₁.Fine := by
    cases hnext
    exact ⟨(Parse.scan_fine _).2, (Scanner.faithful_ofText text).scan⟩
  have hstart : Within 0 [] s₁.here := ⟨.nil, by simp, Nat.zero_le _⟩
  have hgive := Rules.within_give bound bound
  rw [marks_nodesOfStmts]
  exact Rule.program_gives hgive _ 0 [] s₁ ss s hfine hstart hprogram

/-- The functions and returns of a program stand in the order of their offsets, all of which
differ. -/
theorem marks_increase (text : String) : (marks (parse text).nodes).Pairwise (· < ·) := by
  rw [parse]
  cases hread : parseWithin (text.length + 3) text with
  | none => exact List.Pairwise.nil
  | some script =>
    obtain ⟨⟨ss, s⟩, hrun, hscript⟩ := Option.bind_eq_some_iff.mp hread
    cases hscript
    exact (read_fine hrun).2.increasing

end Script
end Countersign
