/-
# Reading drops nothing

A program that is read without an error is, token by token, what its tree is written with: nothing
in the text is passed over in silence, and nothing in the tree was not in the text. Each rule of
the grammar is shown to pass what its result is written with, given that the rules for what is
nested do. Wherever a rule skips a token or makes up a part it reports an error, and then goes on to
give what account it can: the firm pieces of its result are still among the tokens it passes.

Key definitions: `Rules.Tell`.
Key theorems: `Rule.statement_tells`, `Rules.within_tell`, `spells_of_read`.
-/
import Countersign.Proofs.Script.Writes

namespace Countersign
namespace Script

/-- The rules for what is nested pass what their results are written with. -/
structure Rules.Tell (text : List Char) (r : Rules) : Prop where
  expression : ∀ acc, Tells acc text Anywhere r.expression Expr.pieces
  assignment : ∀ acc, Tells acc text Anywhere r.assignment Expr.pieces
  binary : ∀ acc least, Tells acc text Anywhere (r.binary least) Expr.pieces
  unary : ∀ acc, Tells acc text Anywhere r.unary Expr.pieces
  construct : ∀ acc, Tells acc text Anywhere r.construct Expr.pieces
  statement : ∀ acc, Tells acc text Anywhere r.statement Stmt.pieces

theorem TokenKind.isName_of_isWord {k : TokenKind} (h : k.isWord = true) : k.isName = true := by
  cases k with
  | word w => rfl
  | _ => cases h

namespace Rule

open Parse

variable {acc : Account} {text : List Char} {r : Rules} {before : List Piece}

/-! ### Names and literals -/

/-- A name that is missing is made up, and what stands in its place may be passed over. -/
theorem identifier_writes {piece : Ident → Piece}
    (hname : ∀ t : Token, t.kind = .identifier → (piece ⟨t.span, t.value, false⟩).IsToken text t)
    (hloose : ∀ span, (piece ⟨span, "", true⟩).isFirm = false) :
    Tells acc text Anywhere identifier fun i => [piece i] := by
  intro before
  refine token_bind fun t _ => ?_
  split
  · rename_i hkind
    refine (next_writes_piece (p := piece ⟨t.span, t.value, false⟩) ?_).bind fun _ => .pure rfl
    rintro _ rfl
    exact hname _ (beq_iff_eq.mp hkind)
  · have hfinish : ∀ c, Writes acc.slack text c (pure ⟨t.span, "", true⟩) before
        fun i => before ++ [piece i] := fun _ => .finish fun _ hts => hts.loose (hloose _)
    exact report_bind _ (.ite (hfinish _) (next_skips.bind fun _ => hfinish _))

theorem identifier_tells : Tells acc text Anywhere identifier fun i => [.ident i] :=
  identifier_writes (fun _ ht => ⟨ht, rfl⟩) fun _ => rfl

theorem propertyIdent_tells : Tells acc text Anywhere propertyIdent fun i => [.property i] := by
  intro before
  refine token_bind fun t _ => ?_
  split
  · rename_i hword
    refine (next_writes_piece (p := .property ⟨t.span, t.value, false⟩) ?_).bind fun _ => .pure rfl
    rintro _ rfl
    exact ⟨TokenKind.isName_of_isWord hword, rfl⟩
  · have hname : ∀ t : Token, t.kind = .identifier →
        (Piece.property ⟨t.span, t.value, false⟩).IsToken text t :=
      fun t ht => ⟨by rw [ht]; rfl, rfl⟩
    exact (identifier_writes hname (fun _ => rfl) before).anywhere

theorem numberLit_tells : Tells acc text (AtKind .number) numberLit fun n => [.number n] := by
  intro before
  refine token_bind fun t ht => ?_
  refine (next_writes_piece (p := .number _) ?_).bind fun _ => .pure rfl
  rintro _ rfl
  exact ⟨ht, rfl⟩

theorem stringLit_tells : Tells acc text (AtKind .string) stringLit fun l => [.string l] := by
  intro before s l s' hkind h herrors
  cases h
  refine ⟨herrors.of_eq rfl, fun first hfirst => hfirst.next fun htext => ⟨hkind, ?_⟩⟩
  rw [htext]

/-- A slash is read again before it is passed. -/
theorem regexLit_tells {k : TokenKind} (hk : k = .mark .slash ∨ k = .mark .slashAssign) :
    Tells acc text (AtKind k) regexLit Expr.pieces := by
  intro before s e s' hkind h herrors
  cases h
  refine ⟨herrors.of_eq rfl, fun first hfirst => ?_⟩
  have hagain := hfirst.again (by rwa [hkind])
  refine hagain.next (p := .regex _ _) fun _ => ⟨?_, rfl, rfl⟩
  rw [rescanSlash_token]
  rfl

/-- An expression that is missing is made up, and what stands in its place may be passed over. -/
theorem missing_tells : Tells acc text Anywhere missing Expr.pieces := by
  intro before
  refine token_keeps.bind fun t => report_bind _ (.ite (.finish fun _ hts => hts.loose rfl) ?_)
  exact next_skips.bind fun _ => .finish fun _ hts => hts.loose rfl

/-! ### Expressions -/

theorem paren_tells (hr : r.Tell text) : Tells acc text Anywhere (paren r) Expr.pieces := by
  intro before
  refine pos_keeps.bind fun start => (expectMark_tells rfl before).bind fun _ => ?_
  refine (withNoIn_writes _ (hr.expression _ _)).bind fun e => ?_
  refine (expectMark_tells rfl _).bind fun _ => ?_
  exact (spanFrom_keeps _).bind fun span => .pure (by simp [Expr.pieces, inParens])

/-- A hole is written as nothing, and an element that was read is none. -/
theorem element_tells (hr : r.Tell text) :
    Tells acc text Anywhere (element r) Expr.elementPieces := by
  intro before
  refine (atMark_keeps _).bind fun _ => .ite ?_ ?_
  · exact pos_keeps.bind fun start => .pure (by simp [Expr.elementPieces, Expr.isHole])
  · refine (hr.assignment _ before).weaken fun e ts hts => hts.without ?_ fun hhole => ?_
    · exact (List.Sublist.refl before).append e.elementPieces_sublist
    · cases e with
      | omitted span faulty =>
        exact absurd (List.mem_append_right _ (List.mem_singleton.mpr rfl)) hhole
      | _ => rfl

theorem arrayLit_tells (hr : r.Tell text) : Tells acc text Anywhere (arrayLit r) Expr.pieces := by
  intro before
  refine pos_keeps.bind fun start => (expectMark_tells rfl before).bind fun _ => ?_
  refine (withNoIn_writes _ (commaList_tells (before_keeps _) (element_tells hr) _ _)).bind fun es => ?_
  refine (expectMark_tells rfl _).bind fun _ => (spanFrom_keeps _).bind fun span => .pure ?_
  simp [Expr.pieces, inBrackets, piecesOfElements_eq]

theorem arguments_tells (hr : r.Tell text) :
    Tells acc text Anywhere (arguments r) fun es => inParens (listed (es.map Expr.pieces)) := by
  intro before
  refine (expectMark_tells rfl before).bind fun _ => ?_
  refine (withNoIn_writes _
    (commaList_tells (before_keeps _) (hr.assignment _) _ _)).bind fun es => ?_
  exact (expectMark_tells rfl _).bind fun _ => .pure (by simp [inParens])

theorem param_tells : Tells acc text Anywhere param fun p => [.ident p.name] := by
  intro before
  refine pos_keeps.bind fun start => (identifier_tells before).bind fun name => ?_
  exact (spanFrom_keeps _).bind fun span => .pure rfl

theorem params_tells : Tells acc text Anywhere (params r) piecesOfParams := by
  intro before
  refine (expectMark_tells rfl before).bind fun _ => ?_
  refine (commaList_tells (before_keeps _) param_tells _ _).bind fun ps => ?_
  exact (expectMark_tells rfl _).bind fun _ => .pure (by simp [piecesOfParams, inParens])

theorem synchronize_quiet : Quiet (synchronize r) := by
  have hmore : Keeps (do return !(← atSync)) := .look _ fun _ => rfl
  exact (repeatWhile_quiet hmore.quiet next_quiet _).bind fun _ => .pure _

theorem synchronize_skips :
    Writes acc.slack text Anywhere (synchronize r) before fun _ => before := by
  have hmore : Keeps (do return !(← atSync)) := .look _ fun _ => rfl
  have hnext : Tells acc.slack text Anywhere next fun _ => [] := fun _ =>
    next_skips.weaken fun _ _ hts => by rwa [List.append_nil]
  exact (repeatWhile_tells hmore hnext _).skips.bind fun _ => .pure rfl

/-- Where no account is given of all the tokens, some may be dropped after a statement. -/
theorem listedStatement_skips (hr : r.Tell text) (acc : Account) :
    Tells acc.slack text Anywhere (listedStatement r) Stmt.pieces := by
  intro before
  refine pos_keeps.bind fun start => (hr.statement _ before).bind fun s => ?_
  refine pos_keeps.bind fun _ => ?_
  exact .ite (next_skips.bind fun _ => synchronize_skips.bind fun _ => .pure rfl) (.pure rfl)

/-- A statement that reports nothing passes a token, so none is dropped after it. -/
theorem listedStatement_whole (hr : r.Tell text) :
    Tells .whole text Anywhere (listedStatement r) Stmt.pieces := by
  intro before s a s' _ h herrors
  obtain ⟨start, s₁, hstart, h⟩ := bind_some h
  cases hstart
  obtain ⟨b, s₂, hstatement, h⟩ := bind_some h
  obtain ⟨pos, s₃, hpos, h⟩ := bind_some h
  cases hpos
  have herrors₂ : s₂.errors = [] := by
    refine Quiet.ite ?_ (.pure b) s₂ a s' h herrors
    exact next_quiet.bind fun _ => synchronize_quiet.bind fun _ => .pure b
  obtain ⟨hbefore, hcovered⟩ := hr.statement .whole before s b s₂ trivial hstatement herrors₂
  refine ⟨hbefore, fun first (hfirst : Covered text first before s) => ?_⟩
  -- Read on its own, the statement starts where it does and passes at least one token.
  have halone : Covered text s.scanner.token ([] ++ b.pieces) s₂ :=
    (hr.statement .whole [] s b s₂ trivial hstatement herrors₂).2 _
      (Covered.start hfirst.text_eq hfirst.solid)
  have hlt : s.here < s₂.here := halone.here_lt hfirst.solid b.pieces_required
  have hmoved : ¬ (s₂.scanner.token.span.pos == s.scanner.token.span.pos) = true := by
    rw [beq_iff_eq]
    exact hlt.ne'
  rw [if_neg hmoved] at h
  cases h
  exact hcovered first hfirst

theorem listedStatement_tells (hr : r.Tell text) :
    Tells acc text Anywhere (listedStatement r) Stmt.pieces := by
  cases acc with
  | whole => exact listedStatement_whole hr
  | firm => exact listedStatement_skips hr .firm
  | reports => exact listedStatement_skips hr .reports

theorem statements_tells (hr : r.Tell text) :
    Tells acc text Anywhere (statements r) piecesOfStmts := by
  have hpieces : piecesOfStmts = fun ss => ss.flatMap Stmt.pieces := funext piecesOfStmts_eq
  rw [hpieces]
  exact repeatWhile_tells (before_keeps _) (listedStatement_tells hr) _

theorem block_tells (hr : r.Tell text) : Tells acc text Anywhere (block r) Block.pieces := by
  intro before
  refine pos_keeps.bind fun start => (expectMark_tells rfl before).bind fun _ => ?_
  refine (statements_tells hr _).bind fun ss => (expectMark_tells rfl _).bind fun _ => ?_
  exact (spanFrom_keeps _).bind fun span => .pure (by simp [Block.pieces, inBraces])

theorem functionBody_tells (hr : r.Tell text) :
    Tells acc text Anywhere (functionBody r) Block.pieces :=
  fun before => withNoIn_writes _ (block_tells hr before)

theorem functionExpr_tells (hr : r.Tell text) :
    Tells acc text Anywhere (functionExpr r) Expr.pieces := by
  intro before
  refine pos_keeps.bind fun start => (expectWord_tells rfl before).bind fun _ => ?_
  refine (at?_keeps _).bind fun _ => .ite
    (((identifier_tells _).optional piecesOfIdent? fun _ => rfl).bind fun name => ?_)
    ((Writes.absent piecesOfIdent? rfl).bind fun name => ?_)
  all_goals
    refine (params_tells _).bind fun ps => (functionBody_tells hr _).bind fun b => ?_
    exact (spanFrom_keeps _).bind fun span => .pure (by simp [Expr.pieces])

theorem atAccessor_keeps : Keeps atAccessor := by
  intro s a s' h
  obtain ⟨t, s₁, htoken, h⟩ := bind_some h
  cases htoken
  split at h
  · obtain ⟨k, s₂, hpeek, h⟩ := bind_some h
    cases h
    exact peekKind_keeps _ _ _ hpeek
  · cases h
    exact ⟨rfl, rfl, rfl⟩

/-- An accessor is not supported, which is reported; it leaves a hole. -/
theorem skipAccessor_writes (hr : r.Tell text) {c : Token → Prop} :
    Writes acc text c (skipAccessor r) before fun _ => before ++ [.hole] := by
  refine report_bind _ (next_skips.bind fun _ => next_skips.bind fun _ => ?_)
  refine params_tells.skips.bind fun _ => (functionBody_tells hr).skips.bind fun _ => ?_
  exact .finish fun _ hts => hts.loose rfl

theorem propertyValue_tells (hr : r.Tell text) (start : Nat) (name : PropertyName) :
    Writes acc text Anywhere (propertyValue r start name) (before ++ [name.piece])
      fun p => before ++ present Property.pieces p := by
  refine (expectMark_tells rfl _).bind fun _ => (hr.assignment _ _).bind fun value => ?_
  exact (spanFrom_keeps _).bind fun span => .pure (by simp [present, Property.pieces])

theorem property_tells (hr : r.Tell text) :
    Tells acc text Anywhere (property r) (present Property.pieces) := by
  intro before
  refine token_bind fun t _ => ?_
  split
  · rename_i hkind
    refine Writes.bind ((stringLit_tells before).mono ?_) fun l => propertyValue_tells hr _ (.string l)
    rintro _ rfl
    exact hkind
  · rename_i hkind
    refine Writes.bind ((numberLit_tells before).mono ?_) fun n => propertyValue_tells hr _ (.number n)
    rintro _ rfl
    exact hkind
  · refine .ite (atAccessor_keeps.bind fun _ => .ite ?_ ?_) ?_
    · exact (skipAccessor_writes hr).bind fun _ => .pure rfl
    · exact (propertyIdent_tells before).anywhere.bind fun i => propertyValue_tells hr _ (.ident i)
    · exact report_bind _ (next_skips.bind fun _ => .finish fun _ hts => hts.loose rfl)

/-- Where nothing is reported no property is left out. -/
theorem objectLit_tells (hr : r.Tell text) : Tells acc text Anywhere (objectLit r) Expr.pieces := by
  intro before
  refine pos_keeps.bind fun start => (expectMark_tells rfl before).bind fun _ => ?_
  refine (withNoIn_writes _ (commaList_tells (before_keeps _) (property_tells hr) _ _)).bind fun ps => ?_
  refine (expectMark_tells rfl _).bind fun _ => (spanFrom_keeps _).bind fun span => ?_
  refine .finish fun ts hts => hts.without ?_ fun hhole => ?_
  · have hproperties := listed_present_sublist Property.pieces ps
    simpa [Expr.pieces, inBraces, piecesOfProperties_eq] using hproperties
  · have hall : none ∉ ps := fun hnone => hhole (by
      simp [mem_listed (List.mem_singleton.mpr rfl)
        (List.mem_map_of_mem (f := present Property.pieces) hnone)])
    simp [Expr.pieces, inBraces, piecesOfProperties_eq, map_present _ hall]

/-- A literal or a name as an expression. -/
theorem leaf_tells {α : Type} {c : Token → Prop} {p : Parse α} {m : α → List Piece} {e : α → Expr}
    (hp : Tells acc text c p m) (he : ∀ a, (e a).pieces = m a) :
    Tells acc text c (do return e (← p)) Expr.pieces :=
  fun before => (hp before).bind fun a => .pure (by rw [he])

theorem single_tells {w : Word} {e : Span → Expr} (he : ∀ span, (e span).pieces = [.word w]) :
    Tells acc text (AtKind (.word w)) (single e) Expr.pieces := by
  intro before
  refine token_bind fun t ht => Writes.bind ((nextWord_writes w).mono ?_) fun _ => .pure (by rw [he])
  rintro _ rfl
  exact ht

theorem primary_tells (hr : r.Tell text) : Tells acc text Anywhere (primary r) Expr.pieces := by
  intro before
  refine kind_bind fun k => ?_
  split
  · exact (leaf_tells identifier_tells (fun _ => rfl) before).anywhere
  · exact leaf_tells numberLit_tells (fun _ => rfl) before
  · exact leaf_tells stringLit_tells (fun _ => rfl) before
  · exact single_tells (fun _ => rfl) before
  · exact single_tells (fun _ => rfl) before
  · exact single_tells (fun _ => rfl) before
  · exact single_tells (fun _ => rfl) before
  · exact (paren_tells hr before).anywhere
  · exact (arrayLit_tells hr before).anywhere
  · exact (objectLit_tells hr before).anywhere
  · exact (functionExpr_tells hr before).anywhere
  · exact regexLit_tells (.inl rfl) before
  · exact regexLit_tells (.inr rfl) before
  · exact (missing_tells before).anywhere

theorem tail_tells (hr : r.Tell text) (calls : Bool) : ∀ limit e,
    Writes acc text Anywhere (tail r calls limit e) (before ++ e.pieces)
      fun e' => before ++ e'.pieces
  | 0, _ => .stuck
  | limit + 1, e => by
    refine kind_bind fun k => ?_
    split
    · refine (nextMark_writes _).bind fun _ => (propertyIdent_tells _).bind fun name => ?_
      refine (spanFrom_keeps _).bind fun span => ?_
      have hpieces : before ++ e.pieces ++ [.mark .dot] ++ [.property name] =
          before ++ (Expr.member span e name).pieces := by simp [Expr.pieces]
      rw [hpieces]
      exact tail_tells hr calls limit _
    · refine (nextMark_writes _).bind fun _ => ?_
      refine (withNoIn_writes _ (hr.expression _ _)).bind fun i => ?_
      refine (expectMark_tells rfl _).bind fun _ => (spanFrom_keeps _).bind fun span => ?_
      have hpieces : before ++ e.pieces ++ [.mark .openBracket] ++ i.pieces ++ [.mark .closeBracket] =
          before ++ (Expr.index span e i).pieces := by simp [Expr.pieces, inBrackets]
      rw [hpieces]
      exact tail_tells hr calls limit _
    · refine .ite ?_ (.pure rfl)
      refine ((arguments_tells hr _).bind fun args => (spanFrom_keeps _).bind fun span => ?_).anywhere
      have hpieces : before ++ e.pieces ++ inParens (listed (args.map Expr.pieces)) =
          before ++ (Expr.call span e args).pieces := by simp [Expr.pieces, piecesOfExprs_eq]
      rw [hpieces]
      exact tail_tells hr calls limit _
    · exact .pure rfl

theorem construct_tells (hr : r.Tell text) : Tells acc text Anywhere (construct r) Expr.pieces := by
  intro before
  refine pos_keeps.bind fun start => (expectWord_tells rfl before).bind fun _ => ?_
  refine (atWord_keeps _).bind fun _ => .ite ((hr.construct _ _).bind fun callee => ?_)
    ((primary_tells hr _).bind fun callee => ?_)
  all_goals
    refine (tail_tells hr false _ callee).bind fun callee => (atMark_keeps _).bind fun _ => .ite ?_ ?_
    · refine (arguments_tells hr _).bind fun args => (spanFrom_keeps _).bind fun span => .pure ?_
      simp [Expr.pieces, piecesOfExprs_eq]
    · exact (spanFrom_keeps _).bind fun span => .pure (by simp [Expr.pieces])

theorem leftHandSide_tells (hr : r.Tell text) :
    Tells acc text Anywhere (leftHandSide r) Expr.pieces := by
  intro before
  refine (atWord_keeps _).bind fun _ => .ite ?_ ?_
  · exact (construct_tells hr before).bind fun e => tail_tells hr true _ e
  · exact (primary_tells hr before).bind fun e => tail_tells hr true _ e

theorem kind_of_afterMark? {k : TokenKind} {op : Mark} (h : k.afterMark? = some op) :
    k = .mark op := by
  unfold TokenKind.afterMark? at h
  split at h <;> cases h <;> rfl

theorem kind_of_beforeMark? {k : TokenKind} {op : Mark} (h : k.beforeMark? = some op) :
    k = .mark op := by
  unfold TokenKind.beforeMark? at h
  split at h <;> cases h <;> rfl

theorem kind_of_wordOp? {k : TokenKind} {op : WordOp} (h : k.wordOp? = some op) :
    k = .word op.word := by
  unfold TokenKind.wordOp? at h
  split at h <;> cases h <;> rfl

/-- The token `t` is passed, which is known to be of some kind. -/
theorem next_of_kind {t : Token} {k : TokenKind} (ht : t.kind = k) (hk : k ≠ .endOfFile) :
    Writes acc text (· = t) next before fun _ => before ++ [.kind k] :=
  (next_writes hk).mono fun _ h => h ▸ ht

theorem suffixed_tells (hr : r.Tell text) : Tells acc text Anywhere (suffixed r) Expr.pieces := by
  intro before
  refine (leftHandSide_tells hr before).bind fun e => token_bind fun t _ => ?_
  split
  · rename_i op hop _
    refine (next_of_kind (kind_of_afterMark? hop) nofun).bind fun _ => .pure ?_
    simp [Expr.pieces]
  · exact .pure rfl

theorem unary_tells (hr : r.Tell text) : Tells acc text Anywhere (unary r) Expr.pieces := by
  intro before
  refine token_bind fun t _ => ?_
  split
  · rename_i op hop
    refine (next_of_kind (kind_of_beforeMark? hop) (by simp)).bind fun _ => ?_
    refine (hr.unary _ _).bind fun e => ?_
    exact (spanFrom_keeps _).bind fun span => .pure (by simp [Expr.pieces])
  · rename_i op _ hop
    refine (next_of_kind (kind_of_wordOp? hop) (by simp)).bind fun _ => ?_
    refine (hr.unary _ _).bind fun e => ?_
    exact (spanFrom_keeps _).bind fun span => .pure (by simp [Expr.pieces])
  · exact (suffixed_tells hr before).anywhere

theorem operator?_bind {least : Nat} {f : Option (TokenKind × Nat) → Parse Expr}
    {total : Expr → List Piece}
    (hsome : ∀ op level, op ≠ .endOfFile →
      Writes acc text (AtKind op) (f (some (op, level))) before total)
    (hnone : Writes acc text Anywhere (f none) before total) :
    Writes acc text Anywhere (operator? least >>= f) before total := by
  intro s e s' _ h herrors
  obtain ⟨found, s₁, hrun, h⟩ := bind_some h
  obtain ⟨found, hfound, hkind⟩ := operator?_some least s
  rw [hfound] at hrun
  cases hrun
  cases found with
  | none => exact hnone _ e s' trivial h herrors
  | some found => exact hsome _ _ (hkind _ rfl).2 _ e s' (hkind _ rfl).1 h herrors

theorem binaryTail_tells (hr : r.Tell text) (least : Nat) : ∀ limit left,
    Writes acc text Anywhere (binaryTail r least limit left) (before ++ left.pieces)
      fun e => before ++ e.pieces
  | 0, _ => .stuck
  | limit + 1, left => by
    refine operator?_bind (fun op level hop => ?_) (.pure rfl)
    refine (next_writes hop).bind fun _ => (hr.binary _ _ _).bind fun right => ?_
    refine (spanFrom_keeps _).bind fun span => ?_
    have hpieces : before ++ left.pieces ++ [.kind op] ++ right.pieces =
        before ++ (Expr.binary span left op right).pieces := by simp [Expr.pieces]
    rw [hpieces]
    exact binaryTail_tells hr least limit _

theorem binary_tells (hr : r.Tell text) (least : Nat) :
    Tells acc text Anywhere (binary r least) Expr.pieces :=
  fun before => (unary_tells hr before).bind fun left => binaryTail_tells hr least _ left

theorem conditional_tells (hr : r.Tell text) :
    Tells acc text Anywhere (conditional r) Expr.pieces := by
  intro before
  refine (binary_tells hr 0 before).bind fun test => acceptMark_ite ?_ (.pure rfl)
  refine (withNoIn_writes _ (hr.assignment _ _)).bind fun yes => ?_
  refine (expectMark_tells rfl _).bind fun _ => ?_
  refine (hr.assignment _ _).bind fun no => (spanFrom_keeps _).bind fun span => .pure ?_
  simp [Expr.pieces]

theorem assignment_tells (hr : r.Tell text) :
    Tells acc text Anywhere (assignment r) Expr.pieces := by
  intro before
  refine (conditional_tells hr before).bind fun target => kind_bind fun op => ?_
  split
  · rename_i hassign
    have hop : op ≠ .endOfFile := by
      rintro rfl
      cases hassign
    refine .ite ?_ (report_bind _ ?_)
    all_goals
      refine (next_writes hop).bind fun _ => (hr.assignment _ _).bind fun value => ?_
      exact (spanFrom_keeps _).bind fun span => .pure (by simp [Expr.pieces])
  · exact .pure rfl

theorem commaTail_tells (hr : r.Tell text) : ∀ limit left,
    Writes acc text Anywhere (commaTail r limit left) (before ++ left.pieces)
      fun e => before ++ e.pieces
  | 0, _ => .stuck
  | limit + 1, left => by
    refine acceptMark_ite ?_ (.pure rfl)
    refine (assignment_tells hr _).bind fun right => (spanFrom_keeps _).bind fun span => ?_
    have hpieces : before ++ left.pieces ++ [.mark .comma] ++ right.pieces =
        before ++ (Expr.binary span left (.mark .comma) right).pieces := by simp [Expr.pieces]
    rw [hpieces]
    exact commaTail_tells hr limit _

/-- An expression that is nested too deep is reported. -/
theorem expression_tells (hr : r.Tell text) :
    Tells acc text Anywhere (expression r) Expr.pieces := by
  intro before
  refine get_keeps.bind fun _ => .ite (report_bind _ ?_) ?_
  · exact pos_keeps.bind fun _ => .finish fun _ hts => hts.loose rfl
  refine Keeps.bind (modify_keeps ?_ ?_) fun _ => ?_
  · exact fun _ => rfl
  · exact fun _ => rfl
  · refine (assignment_tells hr before).bind fun first => (commaTail_tells hr _ first).bind fun e => ?_
    refine Keeps.bind (modify_keeps ?_ ?_) fun _ => .pure rfl
    · exact fun _ => rfl
    · exact fun _ => rfl

/-! ### Statements -/

theorem decl_tells (hr : r.Tell text) : Tells acc text Anywhere (decl r) Decl.pieces := by
  intro before
  refine pos_keeps.bind fun start => (identifier_tells before).bind fun name => acceptMark_ite
    (((assignment_tells hr _).optionalAfter piecesOfInit fun _ => rfl).bind fun init => ?_)
    ((Writes.absent piecesOfInit rfl).bind fun init => ?_)
  all_goals exact (spanFrom_keeps _).bind fun span => .pure (by simp [Decl.pieces])

theorem decls_tells (hr : r.Tell text) :
    ∀ limit, Tells acc text Anywhere (decls r limit) fun ds => separated (ds.map Decl.pieces)
  | 0, _ => .stuck
  | limit + 1, before => by
    refine (decl_tells hr before).bind fun d => acceptMark_ite ?_ (.pure rfl)
    refine (decls_tells hr limit _).bind fun rest => ?_
    cases rest with
    | nil =>
      refine .finish fun ts hts => hts.without ?_ fun hhole => absurd ?_ hhole
      · simp [separated]
      · exact List.mem_append_right _ (List.mem_singleton.mpr rfl)
    | cons e rest => exact .pure (by simp [separated])

theorem declList_tells (hr : r.Tell text) (k : DeclKind) :
    Tells acc text (AtKind (.word k.word)) (declList r k) DeclList.pieces := by
  intro before
  refine pos_keeps.bind fun start => (nextWord_writes _).bind fun _ => ?_
  refine (decls_tells hr _ _).bind fun ds => (spanFrom_keeps _).bind fun span => .pure ?_
  simp [DeclList.pieces, piecesOfDecls_eq]

theorem declStatement_tells (hr : r.Tell text) (k : DeclKind) :
    Tells acc text (AtKind (.word k.word)) (declStatement r k) Stmt.pieces := by
  intro before
  refine pos_keeps.bind fun start => (declList_tells hr k before).bind fun l => ?_
  refine (spanFrom_keeps _).bind fun span => (expectSemicolon_tells _).bind fun _ => .pure ?_
  simp [Stmt.pieces]

theorem debuggerStatement_tells :
    Tells acc text (AtKind (.word .debuggerWord)) debuggerStatement Stmt.pieces := by
  intro before
  refine pos_keeps.bind fun start => (nextWord_writes _).bind fun _ => ?_
  refine (spanFrom_keeps _).bind fun span => (expectSemicolon_tells _).bind fun _ => .pure ?_
  simp [Stmt.pieces]

theorem emptyStatement_tells :
    Tells acc text (AtKind (.mark .semicolon)) emptyStatement Stmt.pieces := by
  intro before
  refine pos_keeps.bind fun start => (nextMark_writes _).bind fun _ => ?_
  exact (spanFrom_keeps _).bind fun span => .pure rfl

theorem expressionStatement_tells (hr : r.Tell text) :
    Tells acc text Anywhere (expressionStatement r) Stmt.pieces := by
  intro before
  refine pos_keeps.bind fun start => (expression_tells hr before).bind fun e => ?_
  refine (spanFrom_keeps _).bind fun span => (expectSemicolon_tells _).bind fun _ => .pure ?_
  simp [Stmt.pieces]

theorem head_tells (hr : r.Tell text) :
    Tells acc text Anywhere (head r) fun e => inParens e.pieces := by
  intro before
  refine (expectMark_tells rfl before).bind fun _ => (expression_tells hr _).bind fun e => ?_
  exact (expectMark_tells rfl _).bind fun _ => .pure (by simp [inParens])

theorem ifStatement_tells (hr : r.Tell text) :
    Tells acc text (AtKind (.word .ifWord)) (ifStatement r) Stmt.pieces := by
  intro before
  refine pos_keeps.bind fun start => (nextWord_writes _).bind fun _ => ?_
  refine (head_tells hr _).bind fun test => (hr.statement _ _).bind fun yes => acceptWord_ite
    (((hr.statement _ _).optionalAfter piecesOfElse fun _ => rfl).bind fun no => ?_)
    ((Writes.absent piecesOfElse rfl).bind fun no => ?_)
  all_goals exact (spanFrom_keeps _).bind fun span => .pure (by simp [Stmt.pieces])

theorem returnStatement_tells (hr : r.Tell text) :
    Tells acc text (AtKind (.word .returnWord)) (returnStatement r) Stmt.pieces := by
  intro before
  refine pos_keeps.bind fun start => (nextWord_writes _).bind fun _ => ?_
  refine kind_keeps.bind fun k => lineBreakBefore_keeps.bind fun _ => .ite
    ((Writes.absent piecesOfExpr? rfl).bind fun value => ?_)
    (((expression_tells hr _).optional piecesOfExpr? fun e => rfl).bind fun value => ?_)
  all_goals
    refine (spanFrom_keeps _).bind fun span => (expectSemicolon_tells _).bind fun _ => .pure ?_
    simp [Stmt.pieces]

theorem whileStatement_tells (hr : r.Tell text) :
    Tells acc text (AtKind (.word .whileWord)) (whileStatement r) Stmt.pieces := by
  intro before
  refine pos_keeps.bind fun start => (nextWord_writes _).bind fun _ => ?_
  refine (head_tells hr _).bind fun test => (hr.statement _ _).bind fun body => ?_
  exact (spanFrom_keeps _).bind fun span => .pure (by simp [Stmt.pieces])

theorem doStatement_tells (hr : r.Tell text) :
    Tells acc text (AtKind (.word .doWord)) (doStatement r) Stmt.pieces := by
  intro before
  refine pos_keeps.bind fun start => (nextWord_writes _).bind fun _ => ?_
  refine (hr.statement _ _).bind fun body => (expectWord_tells rfl _).bind fun _ => ?_
  refine (head_tells hr _).bind fun test => (spanFrom_keeps _).bind fun span => ?_
  exact (acceptSemicolon_tells _).bind fun _ => .pure (by simp [Stmt.pieces])

theorem kind_of_declKind? {k : TokenKind} {d : DeclKind} (h : declKind? k = some d) :
    k = .word d.word := by
  unfold declKind? at h
  split at h <;> cases h <;> rfl

theorem forInit_tells (hr : r.Tell text) : Tells acc text Anywhere (forInit r) ForInit.pieces := by
  intro before
  refine (atMark_keeps _).bind fun _ => .ite (.pure (by simp [ForInit.pieces])) ?_
  refine kind_bind fun k => ?_
  split
  · rename_i d hd
    rw [kind_of_declKind? hd]
    exact (withNoIn_writes _ (declList_tells hr d before)).bind fun l => .pure rfl
  · exact (withNoIn_writes _ (expression_tells hr before).anywhere).bind fun e => .pure rfl

/-- A loop over keys that has no first part is reported. -/
theorem forInTail_tells (hr : r.Tell text) (start : Nat) (init : ForInit) :
    Writes acc text (AtKind (.word .inWord)) (forInTail r start init)
      (before ++ [.word .forWord] ++ [.mark .openParen] ++ init.pieces) fun s => before ++ s.pieces := by
  refine (nextWord_writes _).bind fun _ => (expression_tells hr _).bind fun object => ?_
  refine (expectMark_tells rfl _).bind fun _ => (hr.statement _ _).bind fun body => ?_
  refine (spanFrom_keeps _).bind fun span => ?_
  split
  · refine report_bind _ (.finish fun _ hts => hts.of_firm ?_)
    simp [Stmt.pieces, ForInit.pieces, Expr.pieces, inParens, List.filter_cons, Piece.isFirm]
  · exact .pure (by simp [Stmt.pieces, inParens])

theorem unlessMark_tells (hr : r.Tell text) (m : Mark) :
    Tells acc text Anywhere (unlessMark r m) piecesOfExpr? := by
  intro before
  exact (atMark_keeps _).bind fun _ => .ite (.absent piecesOfExpr? rfl)
    ((expression_tells hr before).optional piecesOfExpr? fun _ => rfl)

theorem forTail_tells (hr : r.Tell text) (start : Nat) (init : ForInit) :
    Writes acc text Anywhere (forTail r start init)
      (before ++ [.word .forWord] ++ [.mark .openParen] ++ init.pieces) fun s => before ++ s.pieces := by
  refine (expectMark_tells rfl _).bind fun _ => (unlessMark_tells hr _ _).bind fun test => ?_
  refine (expectMark_tells rfl _).bind fun _ => (unlessMark_tells hr _ _).bind fun update => ?_
  refine (expectMark_tells rfl _).bind fun _ => (hr.statement _ _).bind fun body => ?_
  exact (spanFrom_keeps _).bind fun span => .pure (by simp [Stmt.pieces, inParens])

theorem forStatement_tells (hr : r.Tell text) :
    Tells acc text (AtKind (.word .forWord)) (forStatement r) Stmt.pieces := by
  intro before
  refine pos_keeps.bind fun start => (nextWord_writes _).bind fun _ => ?_
  refine (expectMark_tells rfl _).bind fun _ => (forInit_tells hr _).bind fun init => ?_
  exact at?_ite (forInTail_tells hr start init) (forTail_tells hr start init)

theorem throwStatement_tells (hr : r.Tell text) :
    Tells acc text (AtKind (.word .throwWord)) (throwStatement r) Stmt.pieces := by
  intro before
  refine pos_keeps.bind fun start => (nextWord_writes _).bind fun _ => ?_
  refine lineBreakBefore_keeps.bind fun _ => .ite (report_bind _ ?_) ?_
  all_goals
    refine (expression_tells hr _).bind fun value => (spanFrom_keeps _).bind fun span => ?_
    exact (expectSemicolon_tells _).bind fun _ => .pure (by simp [Stmt.pieces])

theorem handler_tells (hr : r.Tell text) : Tells acc text Anywhere (handler r) Handler.pieces := by
  intro before
  refine at?_ite ?_ (.pure (by simp [Handler.pieces]))
  refine pos_keeps.bind fun start => (nextWord_writes _).bind fun _ => ?_
  refine (expectMark_tells rfl _).bind fun _ => ?_
  refine (identifier_tells _).bind fun name => (expectMark_tells rfl _).bind fun _ => ?_
  refine (block_tells hr _).bind fun body => (spanFrom_keeps _).bind fun span => .pure ?_
  simp [Handler.pieces, inParens]

/-- A `try` statement without a handler and a finalizer is reported. -/
theorem tryStatement_tells (hr : r.Tell text) :
    Tells acc text (AtKind (.word .tryWord)) (tryStatement r) Stmt.pieces := by
  intro before
  refine pos_keeps.bind fun start => (nextWord_writes _).bind fun _ => ?_
  refine (block_tells hr _).bind fun body => (handler_tells hr _).bind fun h => acceptWord_ite
    (((block_tells hr _).optionalAfter piecesOfFinally fun _ => rfl).bind fun f => ?_)
    ((Writes.absent piecesOfFinally rfl).bind fun f => ?_)
  all_goals
    dsimp only
    split
    · refine report_bind _ ((spanFrom_keeps _).bind fun span => .pure ?_)
      simp [Stmt.pieces, Handler.pieces, piecesOfFinally]
    · exact (spanFrom_keeps _).bind fun span => .pure (by simp [Stmt.pieces])

theorem label?_tells : Tells acc text Anywhere label? piecesOfIdent? := by
  intro before
  exact token_keeps.bind fun t => .ite
    ((identifier_tells before).optional piecesOfIdent? fun _ => rfl) (.absent piecesOfIdent? rfl)

theorem jumpStatement_tells {w : Word} {jump : Span → Option Ident → Stmt}
    (hjump : ∀ span label, (jump span label).pieces =
      .word w :: (piecesOfIdent? label ++ [.optional .semicolon])) :
    Tells acc text (AtKind (.word w)) (jumpStatement jump) Stmt.pieces := by
  intro before
  refine pos_keeps.bind fun start => (nextWord_writes _).bind fun _ => (label?_tells _).bind fun label => ?_
  refine (spanFrom_keeps _).bind fun span => (expectSemicolon_tells _).bind fun _ => .pure ?_
  simp [hjump]

theorem clauseTail_tells (hr : r.Tell text) (start : Nat) (test : Option Expr) :
    Writes acc text Anywhere (clauseTail r start test) (before ++ piecesOfTest test)
      fun c => before ++ present Clause.pieces c := by
  have hmore : Keeps beforeClause := .look _ fun _ => rfl
  refine (expectMark_tells rfl _).bind fun _ => ?_
  refine (repeatWhile_tells hmore (hr.statement _) _ _).bind fun body => ?_
  refine (spanFrom_keeps _).bind fun span => .pure ?_
  simp [present, Clause.pieces, piecesOfStmts_eq]

theorem clause_tells (hr : r.Tell text) :
    Tells acc text Anywhere (clause r) (present Clause.pieces) := by
  intro before
  refine pos_keeps.bind fun start => kind_bind fun k => ?_
  split
  · refine (nextWord_writes _).bind fun _ => (expression_tells hr _).bind fun test => ?_
    rw [List.append_assoc]
    exact clauseTail_tells hr start (some test)
  · exact (nextWord_writes _).bind fun _ => clauseTail_tells hr start none
  · exact report_bind _ (next_skips.bind fun _ => .finish fun _ hts => hts.loose rfl)

/-- Where nothing is reported no clause is left out. -/
theorem switchStatement_tells (hr : r.Tell text) :
    Tells acc text (AtKind (.word .switchWord)) (switchStatement r) Stmt.pieces := by
  intro before
  refine pos_keeps.bind fun start => (nextWord_writes _).bind fun _ => ?_
  refine (head_tells hr _).bind fun subject => (expectMark_tells rfl _).bind fun _ => ?_
  refine (repeatWhile_tells (before_keeps _) (clause_tells hr) _ _).bind fun cs => ?_
  refine (expectMark_tells rfl _).bind fun _ => (spanFrom_keeps _).bind fun span => ?_
  refine .finish fun ts hts => hts.without ?_ fun hhole => ?_
  · have hclauses := flatMap_present_sublist Clause.pieces cs
    simpa [Stmt.pieces, inBraces, piecesOfClauses_eq] using hclauses
  · have hall : none ∉ cs := fun hnone => hhole (by
      simp only [List.mem_append, List.mem_flatMap]
      exact .inl (.inr ⟨none, hnone, List.mem_singleton.mpr rfl⟩))
    have hclauses :
        cs.flatMap (present Clause.pieces) = (cs.filterMap id).flatMap Clause.pieces := by
      rw [List.flatMap_def, map_present _ hall, List.flatMap_def]
    simp [Stmt.pieces, inBraces, piecesOfClauses_eq, hclauses]

theorem labeledStatement_tells (hr : r.Tell text) :
    Tells acc text Anywhere (labeledStatement r) Stmt.pieces := by
  intro before
  refine pos_keeps.bind fun start => (identifier_tells before).bind fun label => ?_
  refine (expectMark_tells rfl _).bind fun _ => (hr.statement _ _).bind fun body => ?_
  exact (spanFrom_keeps _).bind fun span => .pure (by simp [Stmt.pieces])

theorem functionStatement_tells (hr : r.Tell text) :
    Tells acc text (AtKind (.word .functionWord)) (functionStatement r) Stmt.pieces := by
  intro before
  refine pos_keeps.bind fun start => (nextWord_writes _).bind fun _ => ?_
  refine (identifier_tells _).bind fun name => (params_tells _).bind fun ps => ?_
  refine (functionBody_tells hr _).bind fun body => (spanFrom_keeps _).bind fun span => .pure ?_
  simp [Stmt.pieces]

theorem statement_tells (hr : r.Tell text) : Tells acc text Anywhere (statement r) Stmt.pieces := by
  intro before
  refine kind_bind fun k => ?_
  split
  · exact emptyStatement_tells before
  · exact debuggerStatement_tells before
  · exact ((block_tells hr before).bind fun b => .pure (by simp [Stmt.pieces])).anywhere
  · exact declStatement_tells hr .var before
  · exact declStatement_tells hr .let before
  · exact declStatement_tells hr .const before
  · exact functionStatement_tells hr before
  · exact ifStatement_tells hr before
  · exact returnStatement_tells hr before
  · exact whileStatement_tells hr before
  · exact forStatement_tells hr before
  · exact doStatement_tells hr before
  · exact throwStatement_tells hr before
  · exact tryStatement_tells hr before
  · exact jumpStatement_tells (fun _ _ => rfl) before
  · exact jumpStatement_tells (fun _ _ => rfl) before
  · exact switchStatement_tells hr before
  · exact report_bind _ (next_skips.bind fun _ => hr.statement _ before)
  · refine peekKind_keeps.bind fun _ => .ite ?_ ?_
    · exact (labeledStatement_tells hr before).anywhere
    · exact (expressionStatement_tells hr before).anywhere
  · exact (expressionStatement_tells hr before).anywhere

/-! ### Programs -/

/-- A closing brace that closes nothing is reported. -/
theorem program_writes (hr : r.Tell text) : ∀ acc limit,
    Tells acc text Anywhere (program r limit) piecesOfStmts
  | _, 0, _ => .stuck
  | acc, limit + 1, before => by
    refine (statements_tells hr before).bind fun ss => (atMark_keeps _).bind fun _ => .ite ?_ (.pure rfl)
    refine report_bind _ (next_skips.bind fun _ => ?_)
    exact (program_writes hr acc.slack limit _).bind fun more => .pure (by simp [piecesOfStmts_eq])

theorem program_tells (hr : r.Tell text) (limit : Nat) :
    Tells .whole text Anywhere (program r limit) piecesOfStmts := program_writes hr .whole limit

/-- Repetition ends where there is nothing more. -/
theorem repeatWhile_end {α : Type} {more : Parse Bool} {item : Parse α} (goesOn : Token → Bool)
    (hmore : ∀ s, more s = some (goesOn s.scanner.token, s)) : ∀ limit s as s',
    repeatWhile more item limit s = some (as, s') → goesOn s'.scanner.token = false
  | 0, _, _, _, h => by cases h
  | limit + 1, s, as, s', h => by
    obtain ⟨found, s₁, hfound, h⟩ := bind_some h
    rw [hmore] at hfound
    cases hfound
    split at h
    · obtain ⟨a, s₂, -, h⟩ := bind_some h
      obtain ⟨rest, s₃, hrest, h⟩ := bind_some h
      cases h
      exact repeatWhile_end goesOn hmore limit s₂ rest _ hrest
    · rename_i hstop
      cases h
      exact eq_false_of_ne_true hstop

/-- A program is read to the end of its text. -/
theorem program_end : ∀ limit s ss s', program r limit s = some (ss, s') →
    s'.scanner.token.kind = .endOfFile
  | 0, _, _, _, h => by cases h
  | limit + 1, s, ss, s', h => by
    obtain ⟨ss₁, s₁, hstatements, h⟩ := bind_some h
    obtain ⟨closes, s₂, hcloses, h⟩ := bind_some h
    cases hcloses
    have hend := repeatWhile_end (fun t => !(t.kind == .mark .closeBrace) && !(t.kind == .endOfFile))
      (fun _ => rfl) _ _ _ _ hstatements
    split at h
    · obtain ⟨_, s₃, -, h⟩ := bind_some h
      obtain ⟨_, s₄, -, h⟩ := bind_some h
      obtain ⟨more, s₅, hmore, h⟩ := bind_some h
      cases h
      exact program_end limit s₄ more _ hmore
    · rename_i hopen
      cases h
      simp_all

end Rule

/-- The rules at every depth of nesting pass what their results are written with. -/
theorem Rules.within_tell (text : List Char) (bound depth : Nat) :
    (Rules.within bound depth).Tell text := by
  induction depth with
  | zero =>
    exact ⟨fun _ _ => .stuck, fun _ _ => .stuck, fun _ _ _ => .stuck, fun _ _ => .stuck,
      fun _ _ => .stuck, fun _ _ => .stuck⟩
  | succ depth ih =>
    exact ⟨fun _ => Rule.expression_tells ih, fun _ => Rule.assignment_tells ih,
      fun _ => Rule.binary_tells ih, fun _ => Rule.unary_tells ih, fun _ => Rule.construct_tells ih,
      fun _ => Rule.statement_tells ih⟩

theorem insertError_ne_nil (e : SyntaxError) (es : List SyntaxError) : insertError e es ≠ [] := by
  cases es with
  | nil => exact List.cons_ne_nil _ _
  | cons f es =>
    rw [insertError]
    split <;> exact List.cons_ne_nil _ _

theorem sortErrors_eq_nil {es : List SyntaxError} (h : sortErrors es = []) : es = [] := by
  cases es with
  | nil => rfl
  | cons e es => exact absurd h (insertError_ne_nil e _)

/-- **Nothing is dropped in silence.** If a program is read and there is no error, the tokens of its
text up to the end are the ones its statements are written with, in order: marks, reserved words,
operators, names and literals. Only the semicolon at the end of a statement may be left out, and only
one comma may follow the last item of an array, an object, a list of arguments or of parameters. -/
theorem spells_of_read {bound : Nat} {text : String} {script : Script}
    (hread : parseWithin bound text = some script) (herrors : script.errors = []) :
    ∃ ts last, Passed text.toList (firstToken text) ts last ∧ last.kind = .endOfFile ∧
      Spells text.toList (piecesOfStmts script.statements) ts := by
  obtain ⟨⟨ss, s⟩, hrun, hscript⟩ := Option.bind_eq_some_iff.mp hread
  cases hscript
  obtain ⟨u, s₁, hnext, hprogram⟩ := bind_some hrun
  have hnone : s.errors = [] :=
    List.reverse_eq_nil_iff.mp (List.append_eq_nil_iff.mp (sortErrors_eq_nil herrors)).2
  have htell := Rules.within_tell text.toList bound bound
  obtain ⟨-, hcovered⟩ := Rule.program_tells htell bound [] s₁ ss s trivial hprogram hnone
  have hstart : Covered text.toList (firstToken text) [] s₁ := by
    cases hnext
    refine ⟨(scan_text _).trans (skipShebang_text _), ?_, [], .start, .nil⟩
    rw [scan_token]
    exact scanAt_solid _ _
  obtain ⟨-, -, ts, hpassed, hspells⟩ := hcovered (firstToken text) hstart
  exact ⟨ts, s.scanner.token, hpassed, Rule.program_end _ _ _ _ hprogram, hspells⟩

/-- A program with a hole in an array, a regular expression, a comma after the last argument, and a
statement that ends with its line. -/
def sampleProgram : String :=
  "f(a, [1,,], /[/]x/g,)\nfor (var i in b) \x7b c = i ? 'd' : -e; \x7d"

theorem spells_of_read_sample : ∃ script, parseWithin 80 sampleProgram = some script ∧
    script.errors = [] ∧ ∃ ts last, Passed sampleProgram.toList (firstToken sampleProgram) ts last ∧
      last.kind = .endOfFile ∧ Spells sampleProgram.toList (piecesOfStmts script.statements) ts := by
  have hread : (parseWithin 80 sampleProgram).map (·.errors) = some [] := by decide +kernel
  obtain ⟨script, hscript, herrors⟩ := Option.map_eq_some_iff.mp hread
  exact ⟨script, hscript, herrors, spells_of_read hscript herrors⟩

end Script
end Countersign
