/-
# Nodes are nested as they are written

In a program that is read without an error every node ends where its last token ends, or before a
semicolon that only closes it, and starts where its first token starts. The nodes of its tree are
therefore nested as their spans are: none reaches beyond its parent, those with one parent stand in
order and do not overlap, and none is empty but a hole in an array. Each rule of the grammar is
shown to lay its result over the text it passes, given that the rules for what is nested do.

Key definitions: `Rules.Open`.
Key theorems: `Rule.expression_opens`, `Rule.statement_opens`, `Rules.within_open`,
`nested_of_read`, `spans_nested`.
-/
import Countersign.Proofs.Script.Extents
import Countersign.Proofs.Script.Whole

namespace Countersign
namespace Script

/-- The rules for what is nested lay their results from the current token on. -/
structure Rules.Open (text : List Char) (r : Rules) : Prop where
  expression : Opens text Anywhere r.expression fun e => [e.layout]
  assignment : Opens text Anywhere r.assignment fun e => [e.layout]
  binary : ∀ least, Opens text Anywhere (r.binary least) fun e => [e.layout]
  unary : Opens text Anywhere r.unary fun e => [e.layout]
  construct : Opens text Anywhere r.construct fun e => [e.layout]
  statement : Opens text Anywhere r.statement fun s => [s.layout]

/-- What is absent from a list adds no layout to it. -/
theorem flatMap_present {α : Type} (layout : α → Layout) (as : List (Option α)) :
    as.flatMap (fun a => (a.map layout).toList) = (as.filterMap id).map layout := by
  rw [List.map_filterMap, List.filterMap_eq_flatMap_toList]
  rfl

namespace Rule

open Parse

variable {text : List Char} {r : Rules} {lo : Nat} {before : List Layout}

/-! ### Names and literals -/

theorem identifier_opens : Opens text Anywhere identifier fun i => [i.layout] := by
  refine token_opens fun t _ => ?_
  split
  · rename_i hkind
    refine (next_leaf ?_).bind fun _ => .done rfl
    rw [beq_iff_eq.mp hkind]
    exact nofun
  · exact report_brings_bind _ (.ite (.pure _) (next_quiet.bind fun _ => .pure _))

theorem propertyIdent_opens : Opens text Anywhere propertyIdent fun i => [i.layout] := by
  refine token_opens fun t _ => ?_
  split
  · rename_i hword
    refine (next_leaf fun hend => ?_).bind fun _ => .done rfl
    rw [hend] at hword
    cases hword
  · exact (identifier_opens _).anywhere

theorem numberLit_opens : Opens text (AtKind .number) numberLit fun n => [.leaf n.span] := by
  exact token_opens fun t ht => (next_leaf (ht.ne_end nofun)).bind fun _ => .done rfl

theorem stringLit_opens : Opens text (AtKind .string) stringLit fun l => [.leaf l.span] := by
  refine token_opens fun t ht => .look (fun _ => rfl) fun _ => ?_
  exact (next_leaf (ht.ne_end nofun)).bind fun _ => .done rfl

/-- A slash is read again before it is passed, and stays where it is. -/
theorem regexLit_opens {k : TokenKind} (hk : k ≠ .endOfFile) :
    Opens text (AtKind k) regexLit fun e => [e.layout] := by
  intro start s e s' hkind h herrors
  cases h
  refine ⟨herrors, fun hsound hstart => ?_⟩
  have hagain := hsound.rescan (hkind.ne_end hk)
  have hregex : s.scanner.rescanSlash.token.kind ≠ .endOfFile := by
    rw [rescanSlash_token]
    exact nofun
  have hhere : s.scanner.rescanSlash.token.span.pos = start := by
    rw [rescanSlash_token]
    exact hstart
  exact (next_leaf hregex { s with scanner := s.scanner.rescanSlash } () _ rfl rfl herrors).2
    hagain hhere

/-- Where an expression is missing this is reported. -/
theorem missing_opens : Opens text Anywhere missing fun e => [e.layout] := by
  intro start
  refine .look (fun _ => rfl) fun t => report_brings_bind _ ?_
  exact .ite (.pure _) (next_quiet.bind fun _ => .pure _)

/-! ### Expressions -/

theorem paren_opens (hr : r.Open text) : Opens text Anywhere (paren r) fun e => [e.layout] := by
  refine pos_bind fun start => (expectMark_opens _).bind fun _ => ?_
  refine (withNoIn_brings _ (hr.expression.fills _ _)).bind fun e =>
    (expectMark_fills _).bind fun _ => ?_
  exact spanFrom_brings fun stop => .done rfl

/-- A hole takes nothing, and a comma stands behind it. -/
theorem element_listed (hr : r.Open text) (lo : Nat) (before : List Layout) :
    Brings text Anywhere (Filled lo before) (element r)
      fun e => Listed lo (before ++ [e.elementLayout]) := by
  have helement : Opens text Anywhere r.assignment fun e => [e.elementLayout] :=
    fun start => (hr.assignment start).weaken fun _ _ _ hlaid => Laid.element hlaid
  refine at?_brings ?_ (helement.listed lo before).anywhere
  intro s e s' hcomma h herrors
  cases h
  refine ⟨herrors, fun hsound hlaid => ⟨hsound, .inr ⟨hcomma, ?_⟩⟩⟩
  have hlt : s.here < s.scanner.token.span.stop :=
    hsound.solid (hcomma.ne_end nofun)
  exact Laid.append hlaid hsound.lastEnd_le (.single (.hole (le_refl _)) hlt (le_refl _) hlt.le)

/-- Items with commas between them, up to the mark that closes them. -/
theorem items_fills {α : Type} {item : Parse α} {m : α → List Layout}
    (hitem : ∀ lo before, Brings text Anywhere (Filled lo before) item
      fun a => Listed lo (before ++ m a)) (close : Mark) (limit : Nat) :
    Fills text Anywhere (withNoIn false (commaList (Parse.before close) item limit))
      fun as => as.flatMap m :=
  fun lo before => withNoIn_brings _ (commaList_fills (before_rests close) hitem limit lo before)

theorem arrayLit_opens (hr : r.Open text) :
    Opens text Anywhere (arrayLit r) fun e => [e.layout] := by
  refine pos_bind fun start => (expectMark_opens _).bind fun _ => ?_
  refine (items_fills (element_listed hr) _ _ _ _).bind fun es => ?_
  refine (expectMark_fills _).bind fun _ => spanFrom_brings fun stop => .done ?_
  simp [Expr.layout, layoutsOfElements_eq, List.map_eq_flatMap]

theorem arguments_fills (hr : r.Open text) : Fills text Anywhere (arguments r) layoutsOfExprs := by
  intro lo before
  refine (expectMark_fills _).bind fun _ => ?_
  refine (items_fills hr.assignment.listed _ _ _ _).bind fun es => ?_
  exact (expectMark_fills _).bind fun _ => .done (by simp [layoutsOfExprs_eq, List.map_eq_flatMap])

theorem param_opens : Opens text Anywhere param fun p => [p.layout] := by
  refine pos_bind fun start => (identifier_opens start).bind fun name => ?_
  exact spanFrom_brings fun stop => .done rfl

theorem params_fills : Fills text Anywhere (params r) fun ps => ps.map Param.layout := by
  intro lo before
  refine (expectMark_fills _).bind fun _ => ?_
  refine (commaList_fills (before_rests _) param_opens.listed _ _ _).bind fun ps => ?_
  exact (expectMark_fills _).bind fun _ => .done (by simp [List.map_eq_flatMap])

/-- A statement that reports nothing ends after it starts, so no token is dropped after it. -/
theorem listedStatement_opens (hr : r.Open text) :
    Opens text Anywhere (listedStatement r) fun s => [s.layout] := by
  intro start s a s' _ h herrors
  obtain ⟨pos, s₁, hpos, h⟩ := bind_some h
  cases hpos
  obtain ⟨b, s₂, hstatement, h⟩ := bind_some h
  obtain ⟨pos', s₃, hpos', h⟩ := bind_some h
  cases hpos'
  have herrors₂ : s₂.errors = [] := by
    refine Quiet.ite ?_ (.pure b) s₂ a s' h herrors
    exact next_quiet.bind fun _ => synchronize_quiet.bind fun _ => .pure b
  obtain ⟨hbefore, hbrings⟩ := hr.statement start s b s₂ trivial hstatement herrors₂
  refine ⟨hbefore, fun hsound hstart => ?_⟩
  obtain ⟨hsound₂, hlaid⟩ := hbrings hsound hstart
  have hlt : start < s₂.scanner.token.span.pos := hlaid.lt.trans_le hsound₂.lastEnd_le
  have hmoved : ¬ (s₂.scanner.token.span.pos == s.scanner.token.span.pos) = true := by
    rw [beq_iff_eq, show s.scanner.token.span.pos = start from hstart]
    exact hlt.ne'
  rw [if_neg hmoved] at h
  cases h
  exact ⟨hsound₂, hlaid⟩

theorem statements_fills (hr : r.Open text) :
    Fills text Anywhere (statements r) layoutsOfStmts := by
  have hlayouts : layoutsOfStmts = fun ss => ss.flatMap fun s => [s.layout] := by
    funext ss
    rw [layoutsOfStmts_eq, List.map_eq_flatMap]
  rw [hlayouts]
  exact repeatWhile_fills (before_rests _) (listedStatement_opens hr).fills _

theorem block_opens (hr : r.Open text) : Opens text Anywhere (block r) fun b => [b.layout] := by
  refine pos_bind fun start => (expectMark_opens _).bind fun _ => ?_
  refine (statements_fills hr _ _).bind fun ss => (expectMark_fills _).bind fun _ => ?_
  exact spanFrom_brings fun stop => .done rfl

theorem functionBody_opens (hr : r.Open text) :
    Opens text Anywhere (functionBody r) fun b => [b.layout] :=
  fun start => withNoIn_brings _ (block_opens hr start)

theorem functionExpr_opens (hr : r.Open text) :
    Opens text Anywhere (functionExpr r) fun e => [e.layout] := by
  refine pos_bind fun start => (expectWord_opens _).bind fun _ => ?_
  refine .look (fun _ => rfl) fun _ => .ite
    ((identifier_opens.fills.optional layoutsOfIdent? fun _ => rfl).bind fun name => ?_)
    ((Brings.absent layoutsOfIdent? rfl).bind fun name => ?_)
  all_goals
    refine (params_fills _ _).bind fun ps => ((functionBody_opens hr).fills _ _).bind fun b => ?_
    exact spanFrom_brings fun stop => .done rfl

theorem atAccessor_rests : Rests atAccessor where
  keeps := atAccessor_keeps
  lastEnd s a s' h := by
    obtain ⟨t, s₁, htoken, h⟩ := bind_some h
    cases htoken
    split at h
    · obtain ⟨k, s₂, hpeek, h⟩ := bind_some h
      cases h
      exact peekKind_rests.lastEnd _ _ _ hpeek
    · cases h
      rfl

/-- An accessor is not supported, which is reported. -/
theorem skipAccessor_brings (hr : r.Open text) {c : Token → Prop} {pre : Token → Nat → Prop}
    {post : Unit → Token → Nat → Prop} : Brings text c pre (skipAccessor r) post := by
  refine report_brings_bind _ (next_quiet.bind fun _ => next_quiet.bind fun _ => ?_)
  have hparams : Fills text Anywhere (params r) fun ps => ps.map Param.layout := params_fills
  exact (hparams 0 []).quiet.bind fun _ => (functionBody_opens hr).quiet.bind fun _ => .pure _

theorem propertyValue_brings (hr : r.Open text) (start : Nat) (name : PropertyName) :
    Brings text Anywhere (Filled start [name.layout]) (propertyValue r start name)
      fun p => Filled start (p.map Property.layout).toList := by
  refine (expectMark_fills _).bind fun _ => (hr.assignment.fills _ _).bind fun value => ?_
  exact spanFrom_brings fun stop => .done rfl

theorem property_opens (hr : r.Open text) :
    Opens text Anywhere (property r) fun p => (p.map Property.layout).toList := by
  refine token_opens fun t _ => ?_
  split
  · rename_i hkind
    refine Brings.bind ((stringLit_opens _).mono ?_) fun l => propertyValue_brings hr _ (.string l)
    rintro _ rfl
    exact hkind
  · rename_i hkind
    refine Brings.bind ((numberLit_opens _).mono ?_) fun n => propertyValue_brings hr _ (.number n)
    rintro _ rfl
    exact hkind
  · refine .ite (atAccessor_rests.bind fun _ => .ite ?_ ?_) ?_
    · exact (skipAccessor_brings hr).bind fun _ => .done rfl
    · exact (propertyIdent_opens _).anywhere.bind fun i => propertyValue_brings hr _ (.ident i)
    · exact report_brings_bind _ (next_quiet.bind fun _ => .pure _)

theorem objectLit_opens (hr : r.Open text) :
    Opens text Anywhere (objectLit r) fun e => [e.layout] := by
  refine pos_bind fun start => (expectMark_opens _).bind fun _ => ?_
  refine (items_fills (property_opens hr).listed _ _ _ _).bind fun ps => ?_
  refine (expectMark_fills _).bind fun _ => spanFrom_brings fun stop => .done ?_
  simp [Expr.layout, layoutsOfProperties_eq, flatMap_present]

/-- A literal or a name as an expression. -/
theorem leaf_opens {α : Type} {c : Token → Prop} {p : Parse α} {m : α → Layout} {e : α → Expr}
    (hp : Opens text c p fun a => [m a]) (he : ∀ a, (e a).layout = m a) :
    Opens text c (do return e (← p)) fun e => [e.layout] :=
  fun start => (hp start).bind fun a => .done (by rw [he])

theorem single_opens {w : Word} {e : Span → Expr} (he : ∀ span, (e span).layout = .leaf span) :
    Opens text (AtKind (.word w)) (single e) fun e => [e.layout] := by
  refine token_opens fun t ht => (next_leaf (ht.ne_end nofun)).bind fun _ => .done ?_
  rw [he]

theorem primary_opens (hr : r.Open text) : Opens text Anywhere (primary r) fun e => [e.layout] := by
  intro start
  refine kind_brings fun k => ?_
  split
  · exact (leaf_opens identifier_opens (fun _ => rfl) start).anywhere
  · exact leaf_opens numberLit_opens (fun _ => rfl) start
  · exact leaf_opens stringLit_opens (fun _ => rfl) start
  · exact single_opens (fun _ => rfl) start
  · exact single_opens (fun _ => rfl) start
  · exact single_opens (fun _ => rfl) start
  · exact single_opens (fun _ => rfl) start
  · exact (paren_opens hr start).anywhere
  · exact (arrayLit_opens hr start).anywhere
  · exact (objectLit_opens hr start).anywhere
  · exact (functionExpr_opens hr start).anywhere
  · exact regexLit_opens (by simp) start
  · exact regexLit_opens (by simp) start
  · exact (missing_opens start).anywhere

/-- What follows an expression is gathered with it into one node, again and again. -/
theorem tail_brings (hr : r.Open text) (calls : Bool) : ∀ limit e,
    Brings text Anywhere (Filled lo [e.layout]) (tail r calls limit e) fun e' =>
      Filled lo [e'.layout]
  | 0, _ => .stuck
  | limit + 1, e => by
    refine kind_brings fun k => ?_
    split
    · refine next_fills.bind fun _ => (propertyIdent_opens.fills _ _).bind fun name => ?_
      exact spanFromExpr_brings fun stop => tail_brings hr calls limit (.member _ e name)
    · refine next_fills.bind fun _ => (withNoIn_brings _ (hr.expression.fills _ _)).bind fun i => ?_
      refine (expectMark_fills _).bind fun _ => ?_
      exact spanFromExpr_brings fun stop => tail_brings hr calls limit (.index _ e i)
    · refine .ite ?_ (.done rfl)
      refine ((arguments_fills hr _ _).bind fun args => ?_).anywhere
      exact spanFromExpr_brings fun stop => tail_brings hr calls limit (.call _ e args)
    · exact .done rfl

theorem construct_opens (hr : r.Open text) :
    Opens text Anywhere (construct r) fun e => [e.layout] := by
  refine pos_bind fun start => (expectWord_opens _).bind fun _ => ?_
  refine .look (fun _ => rfl) fun _ => .ite ((hr.construct.fills _ _).bind fun callee => ?_)
    (((primary_opens hr).fills _ _).bind fun callee => ?_)
  all_goals
    refine (tail_brings hr false _ callee).bind fun callee => .look (fun _ => rfl) fun _ =>
      .ite ?_ ?_
    · exact (arguments_fills hr _ _).bind fun args => spanFrom_brings fun stop => .done rfl
    · exact spanFrom_brings fun stop => .done rfl

theorem leftHandSide_opens (hr : r.Open text) :
    Opens text Anywhere (leftHandSide r) fun e => [e.layout] := by
  intro start
  refine .look (fun _ => rfl) fun _ => .ite ?_ ?_
  · exact (construct_opens hr start).bind fun e => tail_brings hr true _ e
  · exact (primary_opens hr start).bind fun e => tail_brings hr true _ e

/-- The operator after an expression ends the node. -/
theorem suffixed_opens (hr : r.Open text) :
    Opens text Anywhere (suffixed r) fun e => [e.layout] := by
  intro start
  refine (leftHandSide_opens hr start).bind fun e => token_brings fun t _ => ?_
  split
  · refine next_ends.bind fun _ => .pure fun _ last hlaid => ?_
    obtain ⟨hlaid, rfl⟩ := hlaid
    exact hlaid.gatherExpr
  · exact .done rfl

/-- The token `t` is passed, which is known to be of some kind. -/
theorem next_opens_kind {start : Nat} {t : Token} {k : TokenKind} (ht : t.kind = k)
    (hk : k ≠ .endOfFile) : Brings text (· = t) (At start) next fun _ => Filled start [] := by
  refine next_opens ?_
  rintro _ rfl
  rwa [ht]

theorem unary_opens (hr : r.Open text) : Opens text Anywhere (unary r) fun e => [e.layout] := by
  refine token_opens fun t _ => ?_
  split
  · rename_i op hop
    refine (next_opens_kind (kind_of_beforeMark? hop) (by simp)).bind fun _ => ?_
    exact (hr.unary.fills _ _).bind fun e => spanFrom_brings fun stop => .done rfl
  · rename_i op _ hop
    refine (next_opens_kind (kind_of_wordOp? hop) (by simp)).bind fun _ => ?_
    exact (hr.unary.fills _ _).bind fun e => spanFrom_brings fun stop => .done rfl
  · exact (suffixed_opens hr _).anywhere

theorem operator?_rests (least : Nat) : Rests (operator? least) := by
  have hsame : ∀ s a s', operator? least s = some (a, s') → s' = s := by
    intro s a s' h
    obtain ⟨found, hfound, -⟩ := operator?_some least s
    rw [hfound] at h
    cases h
    rfl
  refine ⟨fun s a s' h => ?_, fun s a s' h => ?_⟩
  · rw [hsame s a s' h]
    exact ⟨rfl, rfl, rfl⟩
  · rw [hsame s a s' h]

theorem binaryTail_brings (hr : r.Open text) (least : Nat) : ∀ limit left,
    Brings text Anywhere (Filled lo [left.layout]) (binaryTail r least limit left)
      fun e => Filled lo [e.layout]
  | 0, _ => .stuck
  | limit + 1, left => by
    refine (operator?_rests least).bind fun found => ?_
    cases found with
    | none => exact .done rfl
    | some found =>
      obtain ⟨op, level⟩ := found
      refine next_fills.bind fun _ => ((hr.binary level).fills _ _).bind fun right => ?_
      exact spanFromExpr_brings fun stop =>
        binaryTail_brings hr least limit (.binary _ left op right)

theorem binary_opens (hr : r.Open text) (least : Nat) :
    Opens text Anywhere (binary r least) fun e => [e.layout] :=
  fun start => (unary_opens hr start).bind fun left => binaryTail_brings hr least _ left

theorem conditional_opens (hr : r.Open text) :
    Opens text Anywhere (conditional r) fun e => [e.layout] := by
  intro start
  refine (binary_opens hr 0 start).bind fun test => accept_ite_fills ?_ (.done rfl)
  refine (withNoIn_brings _ (hr.assignment.fills _ _)).bind fun yes =>
    (expectMark_fills _).bind fun _ => ?_
  exact (hr.assignment.fills _ _).bind fun no => spanFromExpr_brings fun stop => .done rfl

theorem assignment_opens (hr : r.Open text) :
    Opens text Anywhere (assignment r) fun e => [e.layout] := by
  intro start
  refine (conditional_opens hr start).bind fun target => .look (fun _ => rfl) fun op =>
    .ite ?_ (.done rfl)
  refine .ite ?_ (report_brings_bind _ ?_)
  · refine next_fills.bind fun _ => (hr.assignment.fills _ _).bind fun value => ?_
    exact spanFromExpr_brings fun stop => .done rfl
  · refine next_quiet.bind fun _ => hr.assignment.quiet.bind fun value => ?_
    exact (spanFrom_keeps _).quiet.bind fun _ => .pure _

theorem commaTail_brings (hr : r.Open text) : ∀ limit left,
    Brings text Anywhere (Filled lo [left.layout]) (commaTail r limit left)
      fun e => Filled lo [e.layout]
  | 0, _ => .stuck
  | limit + 1, left => by
    refine accept_ite_fills ?_ (.done rfl)
    refine ((assignment_opens hr).fills _ _).bind fun right => ?_
    exact spanFromExpr_brings fun stop =>
      commaTail_brings hr limit (.binary _ left (.mark .comma) right)

/-- An expression that is nested too deep is reported. -/
theorem expression_opens (hr : r.Open text) :
    Opens text Anywhere (expression r) fun e => [e.layout] := by
  intro start
  refine .look (fun _ => rfl) fun _ => .ite ?_ (modify_brings (fun _ => rfl) ?_)
  · exact report_brings_bind _ (pos_keeps.quiet.bind fun _ => .pure _)
  · refine (assignment_opens hr start).bind fun first => ?_
    refine (commaTail_brings hr _ first).bind fun e => ?_
    exact modify_brings (fun _ => rfl) (.done rfl)

/-! ### Statements -/

theorem decl_opens (hr : r.Open text) : Opens text Anywhere (decl r) fun d => [d.layout] := by
  refine pos_bind fun start => (identifier_opens start).bind fun name => accept_ite_fills
    (((assignment_opens hr).fills.optional layoutsOfExpr? fun _ => rfl).bind fun init => ?_)
    ((Brings.absent layoutsOfExpr? rfl).bind fun init => ?_)
  all_goals exact spanFrom_brings fun stop => .done rfl

theorem decls_fills (hr : r.Open text) : ∀ limit, Fills text Anywhere (decls r limit) layoutsOfDecls
  | 0, _, _ => .stuck
  | limit + 1, lo, before => by
    refine ((decl_opens hr).fills lo before).bind fun d => accept_ite_fills ?_ (.done rfl)
    exact (decls_fills hr limit lo _).bind fun rest => .done (by simp [layoutsOfDecls])

theorem declList_opens (hr : r.Open text) (k : DeclKind) :
    Opens text (AtKind (.word k.word)) (declList r k) fun l => [l.layout] := by
  refine pos_bind fun start => (nextWord_opens _).bind fun _ =>
    (decls_fills hr _ _ _).bind fun ds => ?_
  exact spanFrom_brings fun stop => .done rfl

theorem declStatement_opens (hr : r.Open text) (k : DeclKind) :
    Opens text (AtKind (.word k.word)) (declStatement r k) fun s => [s.layout] := by
  refine pos_bind fun start => (declList_opens hr k start).bind fun l => ?_
  refine spanFrom_brings fun stop => ?_
  exact expectSemicolon_fills.bind fun _ => .done rfl

theorem debuggerStatement_opens :
    Opens text (AtKind (.word .debuggerWord)) debuggerStatement fun s => [s.layout] := by
  refine pos_bind fun start => (nextWord_opens _).bind fun _ => spanFrom_brings fun stop => ?_
  exact expectSemicolon_fills.bind fun _ => .done rfl

theorem emptyStatement_opens :
    Opens text (AtKind (.mark .semicolon)) emptyStatement fun s => [s.layout] := by
  refine pos_bind fun start => (next_opens fun _ ht => ht.ne_end nofun).bind fun _ => ?_
  exact spanFrom_brings fun stop => .done rfl

theorem expressionStatement_opens (hr : r.Open text) :
    Opens text Anywhere (expressionStatement r) fun s => [s.layout] := by
  refine pos_bind fun start => (expression_opens hr start).bind fun e => ?_
  refine spanFrom_brings fun stop => ?_
  exact expectSemicolon_fills.bind fun _ => .done rfl

theorem head_fills (hr : r.Open text) : Fills text Anywhere (head r) fun e => [e.layout] := by
  intro lo before
  refine (expectMark_fills _).bind fun _ => ((expression_opens hr).fills _ _).bind fun e => ?_
  exact (expectMark_fills _).bind fun _ => .done rfl

theorem ifStatement_opens (hr : r.Open text) :
    Opens text (AtKind (.word .ifWord)) (ifStatement r) fun s => [s.layout] := by
  refine pos_bind fun start => (nextWord_opens _).bind fun _ => ?_
  refine (head_fills hr _ _).bind fun test => ?_
  refine (hr.statement.fills _ _).bind fun yes => accept_ite_fills
    ((hr.statement.fills.optional layoutsOfStmt? fun _ => rfl).bind fun no => ?_)
    ((Brings.absent layoutsOfStmt? rfl).bind fun no => ?_)
  all_goals exact spanFrom_brings fun stop => .done rfl

theorem returnStatement_opens (hr : r.Open text) :
    Opens text (AtKind (.word .returnWord)) (returnStatement r) fun s => [s.layout] := by
  refine pos_bind fun start => (nextWord_opens _).bind fun _ => .look (fun _ => rfl) fun k => ?_
  refine .look (fun _ => rfl) fun _ => .ite
    ((Brings.absent layoutsOfExpr? rfl).bind fun value => ?_)
    (((expression_opens hr).fills.optional layoutsOfExpr? fun _ => rfl).bind fun value => ?_)
  all_goals exact spanFrom_brings fun stop => expectSemicolon_fills.bind fun _ => .done rfl

theorem whileStatement_opens (hr : r.Open text) :
    Opens text (AtKind (.word .whileWord)) (whileStatement r) fun s => [s.layout] := by
  refine pos_bind fun start => (nextWord_opens _).bind fun _ => ?_
  refine (head_fills hr _ _).bind fun test => ?_
  exact (hr.statement.fills _ _).bind fun body => spanFrom_brings fun stop => .done rfl

theorem doStatement_opens (hr : r.Open text) :
    Opens text (AtKind (.word .doWord)) (doStatement r) fun s => [s.layout] := by
  refine pos_bind fun start => (nextWord_opens _).bind fun _ =>
    (hr.statement.fills _ _).bind fun body => ?_
  refine (expect_fills _).bind fun _ => (head_fills hr _ _).bind fun test =>
    spanFrom_brings fun stop => ?_
  exact (accept_fills _).bind fun _ => .done rfl

theorem forInit_fills (hr : r.Open text) : Fills text Anywhere (forInit r) ForInit.layouts := by
  intro lo before
  refine .look (fun _ => rfl) fun _ => .ite (.done (by simp [ForInit.layouts])) ?_
  refine kind_brings fun k => ?_
  split
  · rename_i d hd
    rw [kind_of_declKind? hd]
    exact (withNoIn_brings _ ((declList_opens hr d).fills lo before)).bind fun l => .done rfl
  · exact (withNoIn_brings _ ((expression_opens hr).fills lo before).anywhere).bind fun e =>
    .done rfl

/-- A loop over keys that has no first part is reported. -/
theorem forInTail_brings (hr : r.Open text) (start : Nat) (init : ForInit) :
    Brings text Anywhere (Filled start init.layouts) (forInTail r start init)
      fun s => Filled start [s.layout] := by
  refine next_fills.bind fun _ => ((expression_opens hr).fills _ _).bind fun object => ?_
  refine (expectMark_fills _).bind fun _ => (hr.statement.fills _ _).bind fun body => ?_
  refine spanFrom_brings fun stop => ?_
  split
  · exact report_brings_bind _ (.pure _)
  · exact .done (by simp [Stmt.layout])

theorem unlessMark_fills (hr : r.Open text) (m : Mark) :
    Fills text Anywhere (unlessMark r m) layoutsOfExpr? :=
  fun _ _ => .look (fun _ => rfl) fun _ => .ite (.absent layoutsOfExpr? rfl)
    ((expression_opens hr).fills.optional layoutsOfExpr? fun _ => rfl)

theorem forTail_brings (hr : r.Open text) (start : Nat) (init : ForInit) :
    Brings text Anywhere (Filled start init.layouts) (forTail r start init)
      fun s => Filled start [s.layout] := by
  refine (expectMark_fills _).bind fun _ => (unlessMark_fills hr _ _ _).bind fun test => ?_
  refine (expectMark_fills _).bind fun _ => (unlessMark_fills hr _ _ _).bind fun update => ?_
  refine (expectMark_fills _).bind fun _ => (hr.statement.fills _ _).bind fun body => ?_
  exact spanFrom_brings fun stop => .done rfl

theorem forStatement_opens (hr : r.Open text) :
    Opens text (AtKind (.word .forWord)) (forStatement r) fun s => [s.layout] := by
  refine pos_bind fun start => (nextWord_opens _).bind fun _ => ?_
  refine (expectMark_fills _).bind fun _ => ?_
  refine (forInit_fills hr _ _).bind fun init => .look (fun _ => rfl) fun _ => ?_
  exact .ite (forInTail_brings hr start init) (forTail_brings hr start init)

theorem throwStatement_opens (hr : r.Open text) :
    Opens text (AtKind (.word .throwWord)) (throwStatement r) fun s => [s.layout] := by
  refine pos_bind fun start => (nextWord_opens _).bind fun _ => .look (fun _ => rfl) fun _ => ?_
  refine .ite (report_brings_bind _ ?_) ?_
  · have hsemicolon : Brings text Anywhere (Filled 0 []) expectSemicolon fun _ => Filled 0 [] :=
      expectSemicolon_fills
    refine (expression_opens hr).quiet.bind fun value => ?_
    refine (spanFrom_keeps _).quiet.bind fun span => ?_
    exact hsemicolon.quiet.bind fun _ => .pure _
  · refine ((expression_opens hr).fills _ _).bind fun value => spanFrom_brings fun stop => ?_
    exact expectSemicolon_fills.bind fun _ => .done rfl

theorem handler_fills (hr : r.Open text) : Fills text Anywhere (handler r) Handler.layouts := by
  intro lo before
  refine at?_brings (Opens.fills (pos_bind fun start =>
    ?_) lo before) (.done (by simp [Handler.layouts]))
  refine (nextWord_opens _).bind fun _ => (expectMark_fills _).bind fun _ => ?_
  refine (identifier_opens.fills _ _).bind fun name => (expectMark_fills _).bind fun _ => ?_
  exact ((block_opens hr).fills _ _).bind fun body => spanFrom_brings fun stop => .done rfl

/-- A `try` statement without a handler and a finalizer is reported. -/
theorem tryStatement_opens (hr : r.Open text) :
    Opens text (AtKind (.word .tryWord)) (tryStatement r) fun s => [s.layout] := by
  refine pos_bind fun start => (nextWord_opens _).bind fun _ =>
    ((block_opens hr).fills _ _).bind fun body => ?_
  refine (handler_fills hr _ _).bind fun h => accept_ite_fills
    (((block_opens hr).fills.optional layoutsOfBlock? fun _ => rfl).bind fun f => ?_)
    ((Brings.absent layoutsOfBlock? rfl).bind fun f => ?_)
  all_goals
    dsimp only
    split
    · exact report_brings_bind _ ((spanFrom_keeps _).quiet.bind fun _ => .pure _)
    · exact spanFrom_brings fun stop => .done (by simp [Stmt.layout])

theorem label?_fills : Fills text Anywhere label? layoutsOfIdent? :=
  fun _ _ => .look (fun _ => rfl) fun _ => .ite
    (identifier_opens.fills.optional layoutsOfIdent? fun _ => rfl) (.absent layoutsOfIdent? rfl)

theorem jumpStatement_opens {w : Word} {jump : Span → Option Ident → Stmt}
    (hjump : ∀ span label, (jump span label).layout = .node span (layoutsOfIdent? label)) :
    Opens text (AtKind (.word w)) (jumpStatement jump) fun s => [s.layout] := by
  refine pos_bind fun start => (nextWord_opens _).bind fun _ => ?_
  refine (label?_fills _ _).bind fun label => ?_
  refine spanFrom_brings fun stop => expectSemicolon_fills.bind fun _ => .done ?_
  rw [hjump, List.nil_append]

theorem clauseTail_brings (hr : r.Open text) (start : Nat) (test : Option Expr) :
    Brings text Anywhere (Filled start (layoutsOfExpr? test)) (clauseTail r start test)
      fun c => Filled start (c.map Clause.layout).toList := by
  have hmore : Rests beforeClause := .look _ fun _ => rfl
  refine (expectMark_fills _).bind fun _ => ?_
  refine (repeatWhile_fills hmore hr.statement.fills _ _ _).bind fun body =>
    spanFrom_brings fun stop => ?_
  exact .done (by simp [Clause.layout, layoutsOfStmts_eq, List.map_eq_flatMap])

theorem clause_opens (hr : r.Open text) :
    Opens text Anywhere (clause r) fun c => (c.map Clause.layout).toList := by
  refine pos_bind fun start => kind_brings fun k => ?_
  split
  · refine (nextWord_opens _).bind fun _ => ((expression_opens hr).fills _ _).bind fun test => ?_
    exact clauseTail_brings hr start (some test)
  · exact (nextWord_opens _).bind fun _ => clauseTail_brings hr start none
  · exact report_brings_bind _ (next_quiet.bind fun _ => .pure _)

theorem switchStatement_opens (hr : r.Open text) :
    Opens text (AtKind (.word .switchWord)) (switchStatement r) fun s => [s.layout] := by
  refine pos_bind fun start => (nextWord_opens _).bind fun _ =>
    (head_fills hr _ _).bind fun subject => ?_
  refine (expectMark_fills _).bind fun _ => ?_
  refine (repeatWhile_fills (before_rests _) (clause_opens hr).fills _ _ _).bind fun cs => ?_
  refine (expectMark_fills _).bind fun _ => spanFrom_brings fun stop => .done ?_
  simp [Stmt.layout, layoutsOfClauses_eq, flatMap_present]

theorem labeledStatement_opens (hr : r.Open text) :
    Opens text Anywhere (labeledStatement r) fun s => [s.layout] := by
  refine pos_bind fun start => (identifier_opens start).bind fun label =>
    (expectMark_fills _).bind fun _ => ?_
  exact (hr.statement.fills _ _).bind fun body => spanFrom_brings fun stop => .done rfl

theorem functionStatement_opens (hr : r.Open text) :
    Opens text (AtKind (.word .functionWord)) (functionStatement r) fun s => [s.layout] := by
  refine pos_bind fun start => (nextWord_opens _).bind fun _ =>
    (identifier_opens.fills _ _).bind fun name => ?_
  refine (params_fills _ _).bind fun ps => ((functionBody_opens hr).fills _ _).bind fun body => ?_
  exact spanFrom_brings fun stop => .done rfl

theorem statement_opens (hr : r.Open text) :
    Opens text Anywhere (statement r) fun s => [s.layout] := by
  intro start
  refine kind_brings fun k => ?_
  split
  · exact emptyStatement_opens start
  · exact debuggerStatement_opens start
  · exact ((block_opens hr start).bind fun b => .done rfl).anywhere
  · exact declStatement_opens hr .var start
  · exact declStatement_opens hr .let start
  · exact declStatement_opens hr .const start
  · exact functionStatement_opens hr start
  · exact ifStatement_opens hr start
  · exact returnStatement_opens hr start
  · exact whileStatement_opens hr start
  · exact forStatement_opens hr start
  · exact doStatement_opens hr start
  · exact throwStatement_opens hr start
  · exact tryStatement_opens hr start
  · exact jumpStatement_opens (fun _ _ => rfl) start
  · exact jumpStatement_opens (fun _ _ => rfl) start
  · exact switchStatement_opens hr start
  · exact report_brings_bind _ (next_quiet.bind fun _ => hr.statement.quiet)
  · refine peekKind_rests.bind fun _ => .ite ?_ ?_
    · exact (labeledStatement_opens hr start).anywhere
    · exact (expressionStatement_opens hr start).anywhere
  · exact (expressionStatement_opens hr start).anywhere

/-! ### Programs -/

/-- The statements of a program, if there are any, are laid from its first token on. A closing brace
that closes nothing is reported. -/
theorem program_brings (hr : r.Open text) (start : Nat) : ∀ limit,
    Brings text Anywhere (At start) (program r limit)
      fun ss _ last => ss = [] ∨ Laid start (layoutsOfStmts ss) last
  | 0 => .stuck
  | limit + 1 => by
    refine (repeatWhile_opens (before_rests _) (listedStatement_opens hr) _).bind fun ss => ?_
    refine .look (fun _ => rfl) fun _ => .ite (report_brings_bind _ ?_) ?_
    · exact next_quiet.bind fun _ => (program_brings hr start limit).quiet.bind fun more => .pure _
    · refine .pure fun _ last hlaid => ?_
      rwa [layoutsOfStmts_eq, List.map_eq_flatMap]

end Rule

/-- The rules at every depth of nesting lay their results from the current token on. -/
theorem Rules.within_open (text : List Char) (bound depth : Nat) :
    (Rules.within bound depth).Open text := by
  induction depth with
  | zero =>
    exact ⟨fun _ => .stuck, fun _ => .stuck, fun _ _ => .stuck, fun _ => .stuck, fun _ => .stuck,
      fun _ => .stuck⟩
  | succ depth ih =>
    exact ⟨Rule.expression_opens ih, Rule.assignment_opens ih, Rule.binary_opens ih,
      Rule.unary_opens ih, Rule.construct_opens ih, Rule.statement_opens ih⟩

/-! ### Whole programs -/

/-- Before the first token nothing has been passed that reaches beyond the text. -/
theorem skipShebang_stop_le (text : String) :
    (Scanner.ofText text).skipShebang.token.span.stop ≤ text.toList.length := by
  unfold Scanner.skipShebang
  split
  · exact length_takeWhile_le _ _
  · exact Nat.zero_le _

/-- A program that is read without an error is laid over its text, or has no text. -/
theorem nested_of_read {bound : Nat} {text : String} {script : Script}
    (hread : parseWithin bound text = some script) (herrors : script.errors = []) :
    script.length = text.length ∧
      (script.layout.Nested ∨ text = "" ∧ script.statements = []) := by
  obtain ⟨⟨ss, s⟩, hrun, hscript⟩ := Option.bind_eq_some_iff.mp hread
  cases hscript
  obtain ⟨u, s₁, hnext, hprogram⟩ := bind_some hrun
  have hnone : s.errors = [] :=
    List.reverse_eq_nil_iff.mp (List.append_eq_nil_iff.mp (sortErrors_eq_nil herrors)).2
  have hopen := Rules.within_open text.toList bound bound
  obtain ⟨-, hbrings⟩ := Rule.program_brings hopen s₁.here bound s₁ ss s trivial hprogram hnone
  have hsound₁ : s₁.Sound text.toList := by
    cases hnext
    exact ParseState.sound_scan (skipShebang_text _) (skipShebang_stop_le text)
  obtain ⟨hsound, hlaid⟩ := hbrings hsound₁ rfl
  have hend : s.lastEnd ≤ text.length := by
    rw [← String.length_toList]
    exact (hsound.lastEnd_le.trans hsound.here_le).trans hsound.stop_le
  refine ⟨rfl, ?_⟩
  rcases hlaid with rfl | hlaid
  · by_cases htext : text = ""
    · exact .inr ⟨htext, rfl⟩
    · have hpos : 0 < text.length :=
        Nat.pos_of_ne_zero fun hzero => htext (String.length_eq_zero_iff.mp hzero)
      exact .inl (Laid.nil hpos).node
  · have hpos : 0 < text.length := (Nat.zero_le _).trans_lt (hlaid.lt.trans_le hend)
    refine .inl (.node hpos hlaid.nested (fun l hl => ⟨Nat.zero_le _, ?_⟩) hlaid.ordered)
    exact (hlaid.bounds l hl).2.trans hend

/-- Where there is no error the program was read to its end. -/
theorem parseWithin_of_errors {text : String} (h : (parse text).errors = []) :
    parseWithin (text.length + 3) text = some (parse text) := by
  unfold parse at h ⊢
  cases hread : parseWithin (text.length + 3) text with
  | none =>
    rw [hread] at h
    cases h
  | some script => rfl

/-- **Spans are nested as the tree is.** If a program is read without an error, its tree is laid
over the whole text, and of every node in it: the node ends no sooner than it starts, and within the
text; what it is made of lies within it, in order and without overlapping; and the node is not
empty, unless it is a hole in an array or the whole of a program that has no text. -/
theorem spans_nested {text : String} (herrors : (parse text).errors = []) :
    (parse text).layout.span = ⟨0, text.length⟩ ∧ ∀ l, (parse text).layout.Within l →
      l.span.pos ≤ l.span.stop ∧ l.span.stop ≤ text.length ∧
      (∀ m ∈ l.parts, l.span.pos ≤ m.span.pos ∧ m.span.stop ≤ l.span.stop) ∧
      l.parts.Pairwise Layout.Before ∧
      (l.isHole = false → l.span.pos < l.span.stop ∨ l = (parse text).layout ∧ text = "") := by
  obtain ⟨hlength, hnested⟩ := nested_of_read (parseWithin_of_errors herrors) herrors
  generalize parse text = script at *
  have hspan : script.layout.span = ⟨0, text.length⟩ := by rw [← hlength]; rfl
  refine ⟨hspan, fun l hl => ?_⟩
  rcases hnested with hnested | ⟨htext, hempty⟩
  · obtain ⟨hbelow, -, hstop⟩ := hnested.within hl
    rw [hspan] at hstop
    exact ⟨hbelow.le, hstop, fun m hm => hbelow.bounds hm, hbelow.ordered, fun hhole =>
      .inl (hbelow.lt hhole)⟩
  · -- Without a text there is only the program itself.
    have hparts : script.layout.parts = [] := by
      show layoutsOfStmts script.statements = []
      rw [hempty]
      rfl
    have hroot : l = script.layout := by
      induction hl with
      | root => rfl
      | part _ hm ih =>
        rw [ih, hparts] at hm
        cases hm
    subst hroot
    rw [hspan, hparts]
    exact ⟨Nat.zero_le _, le_refl _, by simp, .nil, fun _ => .inr ⟨rfl, htext⟩⟩

/-- The program with a hole in an array, a regular expression and a nested block. -/
theorem spans_nested_sample : (parse sampleProgram).errors = [] ∧
    (parse sampleProgram).layout.span = ⟨0, 60⟩ ∧ ∀ l, (parse sampleProgram).layout.Within l →
      l.span.pos ≤ l.span.stop ∧ l.span.stop ≤ 60 ∧
      (∀ m ∈ l.parts, l.span.pos ≤ m.span.pos ∧ m.span.stop ≤ l.span.stop) ∧
      l.parts.Pairwise Layout.Before ∧
      (l.isHole = false → l.span.pos < l.span.stop ∨
        l = (parse sampleProgram).layout ∧ sampleProgram = "") := by
  have herrors : (parse sampleProgram).errors = [] := by decide +kernel
  have hlength : sampleProgram.length = 60 := by decide +kernel
  have hnested := spans_nested herrors
  rw [hlength] at hnested
  exact ⟨herrors, hnested⟩

end Script
end Countersign
