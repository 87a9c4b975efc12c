/-
# Operators bind by their levels

Whatever a text is, if reading it comes to an end then the operands of every operator in the tree
bind as tightly as the operator asks for, unless they are in parentheses: the right operand of a
binary operator binds tighter than it and the left one at least as tight, so equal levels associate
to the left; an assignment has its further assignments on the right and a comma its further commas
on the left; and what is tested by a conditional is none of these. Errors in the text change nothing
about this.

That a left operand binds tight enough is seen from where its own reading stopped: not before an
operator that it could have taken in.

Key definitions: `Operands`, `Node.Bound`, `Makes`, `Rules.Make`.
Key theorems: `Rule.binaryTail_makes`, `Rule.assignment_makes`, `Rules.within_make`,
`bound_of_read`.
-/
import Countersign.Proofs.Script.Positions

namespace Countersign
namespace Script

/-! ### How tightly expressions bind -/

namespace Expr

/-- The level of a binary operation that is not in parentheses. -/
def level? : Expr → Option Nat
  | binary _ _ op _ => op.level?
  | _ => none

/-- An assignment that is not in parentheses. -/
def isAssignment : Expr → Bool
  | binary _ _ op _ => op.isAssignment
  | _ => false

/-- Expressions with a comma between them that are not in parentheses. -/
def isSequence : Expr → Bool
  | binary _ _ op _ => op == .mark .comma
  | _ => false

/-- A conditional that is not in parentheses. -/
def isConditional : Expr → Bool
  | conditional _ _ _ _ => true
  | _ => false

/-- What binds looser than every binary operator. -/
def isLoose (e : Expr) : Bool := e.isAssignment || e.isSequence || e.isConditional

end Expr

/-- What the operands of a binary operator, of an assignment or of a comma may be, unless they are
in parentheses. -/
structure Operands (left : Expr) (op : TokenKind) (right : Expr) : Prop where
  known : op.level?.isSome = true ∨ op.isAssignment = true ∨ op = .mark .comma
  /-- The right operand of a binary operator binds tighter than it, and the left one no looser. -/
  level : ∀ p, op.level? = some p → left.isLoose = false ∧ right.isLoose = false ∧
    (∀ q, left.level? = some q → p ≤ q) ∧ ∀ q, right.level? = some q → p < q
  /-- Assignments nest to the right. -/
  assignment : op.isAssignment = true → left.isLoose = false ∧ right.isSequence = false
  /-- Commas nest to the left. -/
  sequence : op = .mark .comma → right.isSequence = false

/-- The operands of the node bind as tightly as its operator asks for. -/
@[simp]
def Node.Bound : Node → Prop
  | .expr (.binary _ left op right) => Operands left op right
  | .expr (.conditional _ test yes no) =>
    test.isLoose = false ∧ yes.isSequence = false ∧ no.isSequence = false
  | _ => True

theorem TokenKind.level?_of_isAssignment {k : TokenKind} (h : k.isAssignment = true) :
    k.level? = none := by
  cases k with
  | mark m => cases m <;> first | rfl | cases h
  | _ => cases h

theorem TokenKind.isAssignment_of_level? {k : TokenKind} {p : Nat} (h : k.level? = some p) :
    k.isAssignment = false := by
  by_contra hassign
  rw [level?_of_isAssignment (eq_true_of_ne_false hassign)] at h
  cases h

section Operands

variable {left right : Expr} {op : TokenKind}

theorem Operands.of_level {p : Nat} (hop : op.level? = some p) (hl : left.isLoose = false)
    (hr : right.isLoose = false) (hleft : ∀ q, left.level? = some q → p ≤ q)
    (hright : ∀ q, right.level? = some q → p < q) : Operands left op right where
  known := .inl (by rw [hop]; rfl)
  level p' hp' := by
    rw [hop] at hp'
    cases hp'
    exact ⟨hl, hr, hleft, hright⟩
  assignment hassign := by
    rw [TokenKind.isAssignment_of_level? hop] at hassign
    cases hassign
  sequence hcomma := by
    rw [hcomma] at hop
    cases hop

theorem Operands.of_assignment (hop : op.isAssignment = true) (hl : left.isLoose = false)
    (hr : right.isSequence = false) : Operands left op right where
  known := .inr (.inl hop)
  level p hp := by
    rw [TokenKind.level?_of_isAssignment hop] at hp
    cases hp
  assignment _ := ⟨hl, hr⟩
  sequence _ := hr

theorem Operands.of_comma (hr : right.isSequence = false) : Operands left (.mark .comma) right where
  known := .inr (.inr rfl)
  level p hp := by cases hp
  assignment h := by cases h
  sequence _ := hr

end Operands

/-! ### Trees -/

/-- All the nodes are bound. -/
def AllBound (ns : List Node) : Prop := ∀ n ∈ ns, n.Bound

@[simp]
theorem allBound_nil : AllBound [] := by simp [AllBound]

@[simp]
theorem allBound_cons {n : Node} {ns : List Node} : AllBound (n :: ns) ↔ n.Bound ∧ AllBound ns :=
  List.forall_mem_cons

@[simp]
theorem allBound_append {ns ms : List Node} : AllBound (ns ++ ms) ↔ AllBound ns ∧ AllBound ms :=
  List.forall_mem_append

/-- All the nodes of the expression are bound. -/
@[simp]
def Expr.Bound (e : Expr) : Prop := AllBound e.nodes

/-- All the nodes of the statement are bound. -/
@[simp]
def Stmt.Bound (s : Stmt) : Prop := AllBound s.nodes

/-- All the nodes of the block are bound. -/
@[simp]
def Block.Bound (b : Block) : Prop := AllBound b.nodes

/-- All the nodes of the property are bound. -/
def Property.Bound : Property → Prop
  | .mk _ _ e => e.Bound

/-- All the nodes of the declaration are bound. -/
def Decl.Bound : Decl → Prop
  | .mk _ _ init => AllBound (nodesOfExpr? init)

/-- All the nodes of the clause are bound. -/
def Clause.Bound : Clause → Prop
  | .mk _ test body => AllBound (nodesOfExpr? test) ∧ AllBound (nodesOfStmts body)

theorem allBound_exprs {es : List Expr} : AllBound (nodesOfExprs es) ↔ ∀ e ∈ es, e.Bound := by
  induction es with
  | nil => simp
  | cons e es ih => rw [nodesOfExprs, allBound_append, ih, List.forall_mem_cons, Expr.Bound]

theorem allBound_stmts {ss : List Stmt} : AllBound (nodesOfStmts ss) ↔ ∀ s ∈ ss, s.Bound := by
  induction ss with
  | nil => simp
  | cons s ss ih => rw [nodesOfStmts, allBound_append, ih, List.forall_mem_cons, Stmt.Bound]

theorem allBound_properties {ps : List Property} :
    AllBound (nodesOfProperties ps) ↔ ∀ p ∈ ps, p.Bound := by
  induction ps with
  | nil => simp
  | cons p ps ih =>
    obtain ⟨span, name, e⟩ := p
    rw [nodesOfProperties, allBound_append, ih, List.forall_mem_cons, Property.Bound, Expr.Bound]

theorem allBound_decls {ds : List Decl} : AllBound (nodesOfDecls ds) ↔ ∀ d ∈ ds, d.Bound := by
  induction ds with
  | nil => simp
  | cons d ds ih =>
    obtain ⟨span, name, init⟩ := d
    rw [nodesOfDecls, allBound_append, ih, List.forall_mem_cons, Decl.Bound]

theorem allBound_clauses {cs : List Clause} : AllBound (nodesOfClauses cs) ↔ ∀ c ∈ cs, c.Bound := by
  induction cs with
  | nil => simp
  | cons c cs ih =>
    obtain ⟨span, test, body⟩ := c
    rw [nodesOfClauses, allBound_append, allBound_append, ih, List.forall_mem_cons, Clause.Bound]

/-- An expression that no operator is at the top of. -/
structure Expr.Plain (e : Expr) : Prop where
  bound : e.Bound
  loose : e.isLoose = false
  level : e.level? = none

/-- An expression that binds tighter than the level `least`. -/
structure Expr.Tighter (least : Nat) (e : Expr) : Prop where
  bound : e.Bound
  loose : e.isLoose = false
  level : ∀ q, e.level? = some q → least < q

/-- An expression that may stand between commas. -/
structure Expr.Item (e : Expr) : Prop where
  bound : e.Bound
  sequence : e.isSequence = false

theorem Expr.Plain.tighter {e : Expr} (h : e.Plain) (least : Nat) : e.Tighter least where
  bound := h.bound
  loose := h.loose
  level q hq := by
    rw [h.level] at hq
    cases hq

theorem Expr.isSequence_of_isLoose {e : Expr} (h : e.isLoose = false) : e.isSequence = false := by
  simp only [isLoose, Bool.or_eq_false_iff] at h
  exact h.1.2

theorem Expr.Tighter.item {least : Nat} {e : Expr} (h : e.Tighter least) : e.Item :=
  ⟨h.bound, isSequence_of_isLoose h.loose⟩

/-- A binary operation binds as tightly as its operator. -/
theorem Expr.Tighter.binary {span : Span} {left right : Expr} {op : TokenKind} {p least : Nat}
    (hop : op.level? = some p) (hlt : least < p) (hl : left.Bound) (hr : right.Bound)
    (hoperands : Operands left op right) : (Expr.binary span left op right).Tighter least where
  bound := by simpa using ⟨hoperands, hl, hr⟩
  loose := by
    have hcomma : (op == .mark .comma) = false := by
      rw [beq_eq_false_iff_ne]
      rintro rfl
      cases hop
    simp [isLoose, isAssignment, isSequence, isConditional, TokenKind.isAssignment_of_level? hop,
      hcomma]
  level q hq := by
    have hq : op.level? = some q := hq
    rw [hop] at hq
    cases hq
    exact hlt

/-! ### What reading makes -/

/-- What is read, if reading comes to an end, is as `ok` says. -/
def Makes {α : Type} (p : Parse α) (ok : α → Prop) : Prop := ∀ s a s', p s = some (a, s') → ok a

section Makes

variable {α β : Type} {p : Parse α} {f : α → Parse β} {ok ok' : α → Prop} {good : β → Prop}

theorem Makes.bind (hp : Makes p ok) (hf : ∀ a, ok a → Makes (f a) good) :
    Makes (p >>= f) good := by
  intro s b s'' h
  obtain ⟨a, s', hp', hf'⟩ := bind_some h
  exact hf a (hp s a s' hp') s' b s'' hf'

/-- What the result does not depend on may be anything. -/
theorem Makes.after (hf : ∀ a, Makes (f a) good) : Makes (p >>= f) good := by
  intro s b s'' h
  obtain ⟨a, s', -, hf'⟩ := bind_some h
  exact hf a s' b s'' hf'

theorem Makes.pure {a : α} (h : ok a) : Makes (Pure.pure a) ok := by
  intro s b s' hpure
  cases hpure
  exact h

theorem Makes.weaken (hp : Makes p ok) (h : ∀ a, ok a → ok' a) : Makes p ok' :=
  fun s a s' hread => h a (hp s a s' hread)

theorem Makes.map {g : α → β} (hp : Makes p ok) (h : ∀ a, ok a → good (g a)) :
    Makes (g <$> p) good := by
  intro s b s' hread
  obtain ⟨⟨a, s₁⟩, hp', hmap⟩ := Option.bind_eq_some_iff.mp hread
  cases hmap
  exact h a (hp s a _ hp')

theorem Makes.ite {q : Parse α} {c : Prop} [Decidable c] (hp : Makes p ok) (hq : Makes q ok) :
    Makes (if c then p else q) ok := by
  split
  · exact hp
  · exact hq

theorem Makes.stuck : Makes Parse.stuck ok := by
  intro s a s' h
  cases h

/-- What may be absent is there. -/
theorem Makes.optional (hp : Makes p ok) (nodes : Option α → List Node)
    (h : ∀ a, ok a → AllBound (nodes (some a))) : Makes (some <$> p) fun o => AllBound (nodes o) :=
  hp.map h

theorem Makes.absent (nodes : Option α → List Node) (h : nodes none = []) :
    Makes (Pure.pure none) fun o => AllBound (nodes o) :=
  .pure (by rw [h]; exact allBound_nil)

end Makes

/-- What is not absent is as each was said to be. -/
theorem forall_mem_present {α : Type} {ok : α → Prop} {as : List (Option α)}
    (h : ∀ o ∈ as, ∀ a ∈ o, ok a) : ∀ a ∈ as.filterMap id, ok a := by
  intro a ha
  obtain ⟨o, ho, hsome⟩ := List.mem_filterMap.mp ha
  exact h o ho a hsome

namespace Parse

variable {α : Type} {more : Parse Bool} {item p : Parse α} {ok : α → Prop}

theorem withNoIn_makes (noIn : Bool) (h : Makes p ok) : Makes (withNoIn noIn p) ok :=
  .after fun _ => .after fun _ => h.bind fun _ ha => .after fun _ => .pure ha

theorem repeatWhile_makes (hitem : Makes item ok) :
    ∀ limit, Makes (repeatWhile more item limit) fun as => ∀ a ∈ as, ok a
  | 0 => .stuck
  | limit + 1 => by
    refine .after fun _ => .ite ?_ (.pure (by simp))
    refine hitem.bind fun a ha => (repeatWhile_makes hitem limit).bind fun rest hrest => .pure ?_
    exact List.forall_mem_cons.mpr ⟨ha, hrest⟩

theorem commaList_makes (hitem : Makes item ok) :
    ∀ limit, Makes (commaList more item limit) fun as => ∀ a ∈ as, ok a
  | 0 => .stuck
  | limit + 1 => by
    refine .after fun _ => .ite ?_ (.pure (by simp))
    refine hitem.bind fun a ha => .after fun _ => .ite ?_ (.pure (by simpa using ha))
    refine (commaList_makes hitem limit).bind fun rest hrest => .pure ?_
    exact List.forall_mem_cons.mpr ⟨ha, hrest⟩

end Parse

/-! ### Where reading stops -/

/-- The level of the current token as an operator; the word `in` may be none here. -/
def ParseState.level? (s : ParseState) : Option Nat :=
  if (s.scanner.token.kind == .word .inWord && s.noIn) = true then none
  else s.scanner.token.kind.level?

/-- The current token is no operator that binds tighter than `least`. -/
def ParseState.Stops (least : Nat) (s : ParseState) : Prop := ∀ q, s.level? = some q → q ≤ least

/-- The current token assigns nothing. -/
def ParseState.PastAssignment (s : ParseState) : Prop := s.scanner.token.kind.isAssignment = false

/-- The rules for what is nested make expressions whose operators bind by their levels, and stop
where the next operator belongs further out. -/
structure Rules.Make (r : Rules) : Prop where
  expression : Makes r.expression Expr.Bound
  assignment : Makes r.assignment Expr.Item
  binary : ∀ least, Makes (r.binary least) (Expr.Tighter least)
  unary : Makes r.unary Expr.Plain
  construct : Makes r.construct Expr.Plain
  statement : Makes r.statement Stmt.Bound
  binary_stops : ∀ least s e s', r.binary least s = some (e, s') → s'.Stops least
  assignment_stops : ∀ s e s', r.assignment s = some (e, s') → s'.PastAssignment

namespace Rule

open Parse

variable {r : Rules} {s s' : ParseState} {least : Nat} {e : Expr}

/-- Either the current token is no operator that binds tight enough, or it is the one found. -/
theorem operator?_cases {found : Option (TokenKind × Nat)}
    (h : operator? least s = some (found, s')) : s' = s ∧ (found = none ∧ s.Stops least ∨
      ∃ op level, found = some (op, level) ∧ op.level? = some level ∧ s.level? = some level ∧
        least < level) := by
  have hrun : operator? least s =
      (if (s.scanner.token.kind == .word .inWord && s.noIn) = true then (pure none : Parse _)
        else _) s := rfl
  rw [hrun] at h
  split at h
  · rename_i hin
    cases h
    refine ⟨rfl, .inl ⟨rfl, fun q hq => ?_⟩⟩
    rw [ParseState.level?, if_pos hin] at hq
    cases hq
  · rename_i hin
    have hlevel : s.level? = s.scanner.token.kind.level? := if_neg hin
    cases hkind : s.scanner.token.kind.level? with
    | none =>
      rw [hkind] at h hlevel
      cases h
      refine ⟨rfl, .inl ⟨rfl, fun q hq => ?_⟩⟩
      rw [hlevel] at hq
      cases hq
    | some level =>
      rw [hkind] at h hlevel
      dsimp only at h
      split at h
      · rename_i hlt
        cases h
        exact ⟨rfl, .inr ⟨_, level, rfl, hkind, hlevel, hlt⟩⟩
      · rename_i hge
        cases h
        refine ⟨rfl, .inl ⟨rfl, fun q hq => ?_⟩⟩
        rw [hlevel] at hq
        cases hq
        exact Nat.le_of_not_lt hge

theorem binaryTail_stops : ∀ limit left s, binaryTail r least limit left s = some (e, s') →
    s'.Stops least
  | 0, _, _, h => by cases h
  | limit + 1, left, s, h => by
    obtain ⟨found, s₁, hfound, h⟩ := bind_some h
    obtain ⟨rfl, ⟨rfl, hstops⟩ | ⟨op, level, rfl, -⟩⟩ := operator?_cases hfound
    · cases h
      exact hstops
    · obtain ⟨_, s₂, -, h⟩ := bind_some h
      obtain ⟨right, s₃, -, h⟩ := bind_some h
      obtain ⟨span, s₄, -, h⟩ := bind_some h
      exact binaryTail_stops limit _ s₄ h

theorem binary_stops (h : binary r least s = some (e, s')) : s'.Stops least := by
  obtain ⟨left, s₁, -, h⟩ := bind_some h
  exact binaryTail_stops _ _ s₁ h

/-! ### Expressions -/

theorem missing_makes : Makes missing Expr.Plain := by
  refine .after fun _ => .after fun _ => .ite (.pure ?_) (.after fun _ => .pure ?_)
  all_goals exact ⟨by simp, rfl, rfl⟩

theorem paren_makes (hr : r.Make) : Makes (paren r) Expr.Plain := by
  refine .after fun _ => .after fun _ => (withNoIn_makes _ hr.expression).bind fun e he => ?_
  refine .after fun _ => .after fun _ => .pure ⟨?_, rfl, rfl⟩
  simpa using he

theorem element_makes (hr : r.Make) : Makes (element r) Expr.Bound := by
  refine .after fun _ => .ite (.after fun _ => .pure ?_) (hr.assignment.weaken fun _ he => he.bound)
  simp

theorem arrayLit_makes (hr : r.Make) : Makes (arrayLit r) Expr.Plain := by
  refine .after fun _ => .after fun _ => ?_
  refine (withNoIn_makes _ (commaList_makes (element_makes hr) _)).bind fun es hes => ?_
  refine .after fun _ => .after fun _ => .pure ⟨?_, rfl, rfl⟩
  simpa [allBound_exprs] using hes

theorem arguments_makes (hr : r.Make) :
    Makes (arguments r) fun es => AllBound (nodesOfExprs es) := by
  refine .after fun _ => (withNoIn_makes _ (commaList_makes hr.assignment _)).bind fun es hes => ?_
  exact .after fun _ => .pure (allBound_exprs.mpr fun e he => (hes e he).bound)

theorem listedStatement_makes (hr : r.Make) : Makes (listedStatement r) Stmt.Bound := by
  refine .after fun _ => hr.statement.bind fun s hs => .after fun _ => .ite ?_ (.pure hs)
  exact .after fun _ => .after fun _ => .pure hs

theorem statements_makes (hr : r.Make) :
    Makes (statements r) fun ss => AllBound (nodesOfStmts ss) :=
  (repeatWhile_makes (listedStatement_makes hr) _).weaken fun _ hss => allBound_stmts.mpr hss

theorem block_makes (hr : r.Make) : Makes (block r) Block.Bound := by
  refine .after fun _ => .after fun _ => (statements_makes hr).bind fun ss hss => ?_
  refine .after fun _ => .after fun _ => .pure ?_
  simpa using hss

theorem functionBody_makes (hr : r.Make) : Makes (functionBody r) Block.Bound :=
  withNoIn_makes _ (block_makes hr)

theorem functionExpr_makes (hr : r.Make) : Makes (functionExpr r) Expr.Plain := by
  refine .after fun _ => .after fun _ => .after fun _ => .ite (.after fun name => ?_)
    (.after fun name => ?_)
  all_goals
    refine .after fun _ => (functionBody_makes hr).bind fun b hb => .after fun _ => .pure ?_
    exact ⟨by simpa using hb, rfl, rfl⟩

theorem propertyValue_makes (hr : r.Make) (start : Nat) (name : PropertyName) :
    Makes (propertyValue r start name) fun p => ∀ q ∈ p, q.Bound := by
  refine .after fun _ => hr.assignment.bind fun e he => .after fun _ => .pure ?_
  rintro _ ⟨⟩
  exact he.bound

theorem property_makes (hr : r.Make) : Makes (property r) fun p => ∀ q ∈ p, q.Bound := by
  refine .after fun t => ?_
  split
  · exact .after fun _ => propertyValue_makes hr _ _
  · exact .after fun _ => propertyValue_makes hr _ _
  · refine .ite (.after fun _ => .ite ?_ ?_) ?_
    · exact .after fun _ => .pure nofun
    · exact .after fun _ => propertyValue_makes hr _ _
    · exact .after fun _ => .after fun _ => .pure nofun

theorem objectLit_makes (hr : r.Make) : Makes (objectLit r) Expr.Plain := by
  refine .after fun _ => .after fun _ => ?_
  refine (withNoIn_makes _ (commaList_makes (property_makes hr) _)).bind fun ps hps => ?_
  refine .after fun _ => .after fun _ => .pure ⟨?_, rfl, rfl⟩
  simpa [allBound_properties] using forall_mem_present hps

theorem single_makes {leaf : Span → Expr} (h : ∀ span, (leaf span).Plain) :
    Makes (single leaf) Expr.Plain := .after fun _ => .after fun _ => .pure (h _)

theorem primary_makes (hr : r.Make) : Makes (primary r) Expr.Plain := by
  refine .after fun k => ?_
  split
  · exact .after fun _ => .pure ⟨by simp, rfl, rfl⟩
  · exact .after fun _ => .pure ⟨by simp, rfl, rfl⟩
  · exact .after fun _ => .pure ⟨by simp, rfl, rfl⟩
  · exact single_makes fun _ => ⟨by simp, rfl, rfl⟩
  · exact single_makes fun _ => ⟨by simp, rfl, rfl⟩
  · exact single_makes fun _ => ⟨by simp, rfl, rfl⟩
  · exact single_makes fun _ => ⟨by simp, rfl, rfl⟩
  · exact paren_makes hr
  · exact arrayLit_makes hr
  · exact objectLit_makes hr
  · exact functionExpr_makes hr
  · exact .after fun _ => .after fun _ => .after fun _ => .pure ⟨by simp, rfl, rfl⟩
  · exact .after fun _ => .after fun _ => .after fun _ => .pure ⟨by simp, rfl, rfl⟩
  · exact missing_makes

theorem tail_makes (hr : r.Make) (calls : Bool) : ∀ limit e, e.Plain →
    Makes (tail r calls limit e) Expr.Plain
  | 0, _, _ => .stuck
  | limit + 1, e, he => by
    have hbound : AllBound e.nodes := he.bound
    refine .after fun k => ?_
    split
    · refine .after fun _ => .after fun _ => .after fun _ => tail_makes hr calls limit _ ?_
      exact ⟨by simpa using hbound, rfl, rfl⟩
    · refine .after fun _ => (withNoIn_makes _ hr.expression).bind fun i hi => ?_
      refine .after fun _ => .after fun _ => tail_makes hr calls limit _ ?_
      exact ⟨by simpa using ⟨hbound, hi⟩, rfl, rfl⟩
    · refine .ite ((arguments_makes hr).bind fun args hargs => ?_) (.pure he)
      refine .after fun _ => tail_makes hr calls limit _ ?_
      exact ⟨by simpa using ⟨hbound, hargs⟩, rfl, rfl⟩
    · exact .pure he

theorem construct_makes (hr : r.Make) : Makes (construct r) Expr.Plain := by
  refine .after fun _ => .after fun _ => .after fun _ => .ite
    (hr.construct.bind fun callee hcallee => ?_) ((primary_makes hr).bind fun callee hcallee => ?_)
  all_goals
    refine (tail_makes hr false _ callee hcallee).bind fun callee hcallee => ?_
    refine .after fun _ => .ite ?_ ?_
    · refine (arguments_makes hr).bind fun args hargs => .after fun _ => .pure ⟨?_, rfl, rfl⟩
      simpa using ⟨hcallee.bound, hargs⟩
    · refine .after fun _ => .pure ⟨?_, rfl, rfl⟩
      simpa using hcallee.bound

theorem leftHandSide_makes (hr : r.Make) : Makes (leftHandSide r) Expr.Plain :=
  .after fun _ => .ite ((construct_makes hr).bind fun e he => tail_makes hr true _ e he)
    ((primary_makes hr).bind fun e he => tail_makes hr true _ e he)

theorem suffixed_makes (hr : r.Make) : Makes (suffixed r) Expr.Plain := by
  refine (leftHandSide_makes hr).bind fun e he => .after fun t => ?_
  split
  · refine .after fun _ => .pure ⟨?_, rfl, rfl⟩
    simpa using he.bound
  · exact .pure he

theorem unary_makes (hr : r.Make) : Makes (unary r) Expr.Plain := by
  refine .after fun t => ?_
  split
  · refine .after fun _ => hr.unary.bind fun e he => .after fun _ => .pure ⟨?_, rfl, rfl⟩
    simpa using he.bound
  · refine .after fun _ => hr.unary.bind fun e he => .after fun _ => .pure ⟨?_, rfl, rfl⟩
    simpa using he.bound
  · exact suffixed_makes hr

/-- The invariant of the loop: the left operand binds tighter than `least`, and its reading stopped
before an operator that binds no tighter than it. -/
theorem binaryTail_makes (hr : r.Make) : ∀ limit left s, left.Tighter least →
    (∀ p, left.level? = some p → s.Stops p) → binaryTail r least limit left s = some (e, s') →
    e.Tighter least
  | 0, _, _, _, _, h => by cases h
  | limit + 1, left, s, hleft, hstops, h => by
    obtain ⟨found, s₁, hfound, h⟩ := bind_some h
    obtain ⟨rfl, ⟨rfl, -⟩ | ⟨op, level, rfl, hop, hlevel, hlt⟩⟩ := operator?_cases hfound
    · cases h
      exact hleft
    · obtain ⟨_, s₂, -, h⟩ := bind_some h
      obtain ⟨right, s₃, hread, h⟩ := bind_some h
      obtain ⟨span, s₄, hspan, h⟩ := bind_some h
      cases hspan
      have hright : right.Tighter level := hr.binary level _ _ _ hread
      have hoperands : Operands left op right := .of_level hop hleft.loose hright.loose
        (fun p hp => hstops p hp level hlevel) hright.level
      refine binaryTail_makes hr limit _ s₃ ?_ (fun p hp => ?_) h
      · exact .binary hop hlt hleft.bound hright.bound hoperands
      · have hp : op.level? = some p := hp
        rw [hop] at hp
        cases hp
        exact hr.binary_stops level _ _ _ hread

theorem binary_makes (hr : r.Make) (least : Nat) : Makes (binary r least) (Expr.Tighter least) := by
  refine (unary_makes hr).bind fun left hleft s e s' h => ?_
  refine binaryTail_makes hr _ left s (hleft.tighter least) (fun p hp => ?_) h
  rw [hleft.level] at hp
  cases hp

/-- A conditional ends with an assignment, so no further one follows it. -/
theorem conditional_makes (hr : r.Make) (h : conditional r s = some (e, s')) :
    e.Item ∧ (e.isLoose = true → s'.PastAssignment) := by
  obtain ⟨test, s₁, htest, h⟩ := bind_some h
  have htest : test.Tighter 0 := binary_makes hr 0 _ _ _ htest
  obtain ⟨found, s₂, -, h⟩ := bind_some h
  split at h
  · obtain ⟨yes, s₃, hyes, h⟩ := bind_some h
    obtain ⟨_, s₄, -, h⟩ := bind_some h
    obtain ⟨no, s₅, hno, h⟩ := bind_some h
    obtain ⟨span, s₆, hspan, h⟩ := bind_some h
    cases hspan
    cases h
    have hyes : yes.Item := withNoIn_makes _ hr.assignment _ _ _ hyes
    refine ⟨⟨?_, rfl⟩, fun _ => hr.assignment_stops _ _ _ hno⟩
    have hno : no.Item := hr.assignment _ _ _ hno
    simpa using ⟨⟨htest.loose, hyes.sequence, hno.sequence⟩, htest.bound, hyes.bound, hno.bound⟩
  · cases h
    refine ⟨htest.item, fun hloose => ?_⟩
    rw [htest.loose] at hloose
    cases hloose

/-- What is assigned, after the target and where the operator stands. -/
theorem assigned_makes (hr : r.Make) {target : Expr} {op : TokenKind} (hop : op.isAssignment = true)
    (hbound : target.Bound) (hloose : target.isLoose = false)
    (h : (do
      next
      let value ← r.assignment
      return Expr.binary (← spanFrom target.pos) target op value : Parse Expr) s = some (e, s')) :
    e.Item ∧ s'.PastAssignment := by
  obtain ⟨_, s₁, -, h⟩ := bind_some h
  obtain ⟨value, s₂, hvalue, h⟩ := bind_some h
  obtain ⟨span, s₃, hspan, h⟩ := bind_some h
  cases hspan
  cases h
  refine ⟨⟨?_, ?_⟩, hr.assignment_stops _ _ _ hvalue⟩
  · have hvalue : value.Item := hr.assignment _ _ _ hvalue
    simpa using ⟨.of_assignment hop hloose hvalue.sequence, hbound, hvalue.bound⟩
  · show (op == .mark .comma) = false
    rw [beq_eq_false_iff_ne]
    rintro rfl
    cases hop

/-- An assignment has its further assignments on the right, so none follows it. -/
theorem assignment_makes (hr : r.Make) (h : assignment r s = some (e, s')) :
    e.Item ∧ s'.PastAssignment := by
  obtain ⟨target, s₁, htarget, h⟩ := bind_some h
  obtain ⟨hitem, hpast⟩ := conditional_makes hr htarget
  obtain ⟨op, s₂, hkind, h⟩ := bind_some h
  cases hkind
  split at h
  · rename_i hassign
    have hloose : target.isLoose = false := by
      by_contra hloose
      rw [hpast (eq_true_of_ne_false hloose)] at hassign
      cases hassign
    split at h
    · exact assigned_makes hr hassign hitem.bound hloose h
    · obtain ⟨_, s₃, -, h⟩ := bind_some h
      exact assigned_makes hr hassign hitem.bound hloose h
  · rename_i hnone
    cases h
    exact ⟨hitem, eq_false_of_ne_true hnone⟩

theorem assignment_item (hr : r.Make) : Makes (assignment r) Expr.Item :=
  fun _ _ _ h => (assignment_makes hr h).1

theorem commaTail_makes (hr : r.Make) : ∀ limit left, left.Bound →
    Makes (commaTail r limit left) Expr.Bound
  | 0, _, _ => .stuck
  | limit + 1, left, hleft => by
    refine .after fun _ => .ite ?_ (.pure hleft)
    refine (assignment_item hr).bind fun right hright => .after fun _ => ?_
    refine commaTail_makes hr limit _ ?_
    simpa using ⟨.of_comma hright.sequence, hleft, hright.bound⟩

theorem expression_makes (hr : r.Make) : Makes (expression r) Expr.Bound := by
  refine .after fun _ => .ite ?_ ?_
  · exact .after fun _ => .after fun _ => .pure (by simp)
  · refine .after fun _ => (assignment_item hr).bind fun first hfirst => ?_
    refine (commaTail_makes hr _ first hfirst.bound).bind fun e he => .after fun _ => .pure he

/-! ### Statements -/

theorem decl_makes (hr : r.Make) : Makes (decl r) Decl.Bound := by
  refine .after fun _ => .after fun _ => .after fun _ => .ite
    (((assignment_item hr).optional nodesOfExpr? fun _ he => he.bound).bind fun init hinit => ?_)
    ((Makes.absent nodesOfExpr? rfl).bind fun init hinit => ?_)
  all_goals exact .after fun _ => .pure hinit

theorem decls_makes (hr : r.Make) : ∀ limit, Makes (decls r limit) fun ds => ∀ d ∈ ds, d.Bound
  | 0 => .stuck
  | limit + 1 => by
    refine (decl_makes hr).bind fun d hd => .after fun _ => .ite ?_ (.pure (by simpa using hd))
    refine (decls_makes hr limit).bind fun rest hrest => .pure ?_
    exact List.forall_mem_cons.mpr ⟨hd, hrest⟩

theorem declList_makes (hr : r.Make) (k : DeclKind) :
    Makes (declList r k) fun l => AllBound l.nodes := by
  refine .after fun _ => .after fun _ => (decls_makes hr _).bind fun ds hds => ?_
  refine .after fun _ => .pure ?_
  simpa [allBound_decls] using hds

theorem declStatement_makes (hr : r.Make) (k : DeclKind) :
    Makes (declStatement r k) Stmt.Bound := by
  refine .after fun _ => (declList_makes hr k).bind fun l hl => ?_
  refine .after fun _ => .after fun _ => .pure ?_
  simpa using hl

theorem expressionStatement_makes (hr : r.Make) : Makes (expressionStatement r) Stmt.Bound := by
  refine .after fun _ => (expression_makes hr).bind fun e he => ?_
  refine .after fun _ => .after fun _ => .pure ?_
  simpa using he

theorem head_makes (hr : r.Make) : Makes (head r) Expr.Bound :=
  .after fun _ => (expression_makes hr).bind fun _ he => .after fun _ => .pure he

theorem ifStatement_makes (hr : r.Make) : Makes (ifStatement r) Stmt.Bound := by
  refine .after fun _ => .after fun _ => (head_makes hr).bind fun test htest => ?_
  refine hr.statement.bind fun yes hyes => .after fun _ => .ite
    ((hr.statement.optional nodesOfStmt? fun _ hs => hs).bind fun no hno => ?_)
    ((Makes.absent nodesOfStmt? rfl).bind fun no hno => ?_)
  all_goals
    refine .after fun _ => .pure ?_
    simpa using ⟨htest, hyes, hno⟩

theorem returnStatement_makes (hr : r.Make) : Makes (returnStatement r) Stmt.Bound := by
  refine .after fun _ => .after fun _ => .after fun _ => .after fun _ => .ite
    ((Makes.absent nodesOfExpr? rfl).bind fun value hvalue => ?_)
    (((expression_makes hr).optional nodesOfExpr? fun _ he => he).bind fun value hvalue => ?_)
  all_goals
    refine .after fun _ => .after fun _ => .pure ?_
    simpa using hvalue

theorem whileStatement_makes (hr : r.Make) : Makes (whileStatement r) Stmt.Bound := by
  refine .after fun _ => .after fun _ => (head_makes hr).bind fun test htest => ?_
  refine hr.statement.bind fun body hbody => .after fun _ => .pure ?_
  simpa using ⟨htest, hbody⟩

theorem doStatement_makes (hr : r.Make) : Makes (doStatement r) Stmt.Bound := by
  refine .after fun _ => .after fun _ => hr.statement.bind fun body hbody => .after fun _ => ?_
  refine (head_makes hr).bind fun test htest => .after fun _ => .after fun _ => .pure ?_
  simpa using ⟨hbody, htest⟩

theorem forInit_makes (hr : r.Make) : Makes (forInit r) fun i => AllBound i.nodes := by
  refine .after fun _ => .ite (.pure (by simp)) (.after fun k => ?_)
  split
  · exact (withNoIn_makes _ (declList_makes hr _)).bind fun l hl => .pure (by simpa using hl)
  · exact (withNoIn_makes _ (expression_makes hr)).bind fun e he => .pure he

theorem forInTail_makes (hr : r.Make) (start : Nat) {init : ForInit} (hinit : AllBound init.nodes) :
    Makes (forInTail r start init) Stmt.Bound := by
  refine .after fun _ => (expression_makes hr).bind fun object hobject => .after fun _ => ?_
  refine hr.statement.bind fun body hbody => .after fun _ => ?_
  split
  · refine .after fun _ => .pure ?_
    simpa using ⟨hobject, hbody⟩
  · refine .pure ?_
    simpa using ⟨hinit, hobject, hbody⟩

theorem unlessMark_makes (hr : r.Make) (m : Mark) :
    Makes (unlessMark r m) fun e => AllBound (nodesOfExpr? e) :=
  .after fun _ => .ite (.absent nodesOfExpr? rfl)
    ((expression_makes hr).optional nodesOfExpr? fun _ he => he)

theorem forTail_makes (hr : r.Make) (start : Nat) {init : ForInit} (hinit : AllBound init.nodes) :
    Makes (forTail r start init) Stmt.Bound := by
  refine .after fun _ => (unlessMark_makes hr _).bind fun test htest => .after fun _ => ?_
  refine (unlessMark_makes hr _).bind fun update hupdate => .after fun _ => ?_
  refine hr.statement.bind fun body hbody => .after fun _ => .pure ?_
  simpa using ⟨hinit, htest, hupdate, hbody⟩

theorem forStatement_makes (hr : r.Make) : Makes (forStatement r) Stmt.Bound := by
  refine .after fun _ => .after fun _ => .after fun _ => ?_
  refine (forInit_makes hr).bind fun init hinit => ?_
  exact .after fun _ => .ite (forInTail_makes hr _ hinit) (forTail_makes hr _ hinit)

theorem throwStatement_makes (hr : r.Make) : Makes (throwStatement r) Stmt.Bound := by
  refine .after fun _ => .after fun _ => .after fun _ => .ite (.after fun _ => ?_) ?_
  all_goals
    refine (expression_makes hr).bind fun e he => .after fun _ => .after fun _ => .pure ?_
    simpa using he

theorem handler_makes (hr : r.Make) : Makes (handler r) fun h => AllBound h.nodes := by
  refine .after fun _ => .ite ?_ (.pure (by simp))
  refine .after fun _ => .after fun _ => .after fun _ => .after fun _ => .after fun _ => ?_
  refine (block_makes hr).bind fun body hbody => .after fun _ => .pure ?_
  simpa using hbody

theorem tryStatement_makes (hr : r.Make) : Makes (tryStatement r) Stmt.Bound := by
  refine .after fun _ => .after fun _ => (block_makes hr).bind fun body hbody => ?_
  refine (handler_makes hr).bind fun h hh => .after fun _ => .ite
    (((block_makes hr).optional nodesOfBlock? fun _ hb => hb).bind fun f hf => ?_)
    ((Makes.absent nodesOfBlock? rfl).bind fun f hf => ?_)
  all_goals
    dsimp only
    split
    · exact .after fun _ => .after fun _ => .pure (by simpa using hbody)
    · refine .after fun _ => .pure ?_
      simpa using ⟨hbody, hh, hf⟩

theorem jumpStatement_makes {jump : Span → Option Ident → Stmt}
    (h : ∀ span l, (jump span l).Bound) : Makes (jumpStatement jump) Stmt.Bound :=
  .after fun _ => .after fun _ => .after fun _ => .after fun _ => .after fun _ => .pure (h _ _)

theorem clauseTail_makes (hr : r.Make) (start : Nat) {test : Option Expr}
    (htest : AllBound (nodesOfExpr? test)) :
    Makes (clauseTail r start test) fun c => ∀ d ∈ c, d.Bound := by
  refine .after fun _ => (repeatWhile_makes hr.statement _).bind fun body hbody => ?_
  refine .after fun _ => .pure ?_
  rintro _ ⟨⟩
  exact ⟨htest, allBound_stmts.mpr hbody⟩

theorem clause_makes (hr : r.Make) : Makes (clause r) fun c => ∀ d ∈ c, d.Bound := by
  refine .after fun _ => .after fun k => ?_
  split
  · exact .after fun _ => (expression_makes hr).bind fun test htest => clauseTail_makes hr _ htest
  · exact .after fun _ => clauseTail_makes hr _ (by simp)
  · exact .after fun _ => .after fun _ => .pure nofun

theorem switchStatement_makes (hr : r.Make) : Makes (switchStatement r) Stmt.Bound := by
  refine .after fun _ => .after fun _ => (head_makes hr).bind fun subject hsubject => ?_
  refine .after fun _ => (repeatWhile_makes (clause_makes hr) _).bind fun cs hcs => ?_
  refine .after fun _ => .after fun _ => .pure ?_
  simpa [allBound_clauses] using And.intro hsubject (forall_mem_present hcs)

theorem labeledStatement_makes (hr : r.Make) : Makes (labeledStatement r) Stmt.Bound := by
  refine .after fun _ => .after fun _ => .after fun _ => hr.statement.bind fun body hbody => ?_
  refine .after fun _ => .pure ?_
  simpa using hbody

theorem functionStatement_makes (hr : r.Make) : Makes (functionStatement r) Stmt.Bound := by
  refine .after fun _ => .after fun _ => .after fun _ => .after fun _ => ?_
  refine (functionBody_makes hr).bind fun body hbody => .after fun _ => .pure ?_
  simpa using hbody

theorem statement_makes (hr : r.Make) : Makes (statement r) Stmt.Bound := by
  refine .after fun k => ?_
  split
  · exact .after fun _ => .after fun _ => .after fun _ => .pure (by simp)
  · refine .after fun _ => .after fun _ => .after fun _ => .after fun _ => .pure ?_
    simp
  · exact (block_makes hr).bind fun b hb => .pure (by simpa using hb)
  · exact declStatement_makes hr .var
  · exact declStatement_makes hr .let
  · exact declStatement_makes hr .const
  · exact functionStatement_makes hr
  · exact ifStatement_makes hr
  · exact returnStatement_makes hr
  · exact whileStatement_makes hr
  · exact forStatement_makes hr
  · exact doStatement_makes hr
  · exact throwStatement_makes hr
  · exact tryStatement_makes hr
  · exact jumpStatement_makes fun _ _ => by simp
  · exact jumpStatement_makes fun _ _ => by simp
  · exact switchStatement_makes hr
  · exact .after fun _ => .after fun _ => hr.statement
  · exact .after fun _ => .ite (labeledStatement_makes hr) (expressionStatement_makes hr)
  · exact expressionStatement_makes hr

theorem program_makes (hr : r.Make) :
    ∀ limit, Makes (program r limit) fun ss => AllBound (nodesOfStmts ss)
  | 0 => .stuck
  | limit + 1 => by
    refine (statements_makes hr).bind fun ss hss => .after fun _ => .ite ?_ (.pure hss)
    refine .after fun _ => .after fun _ => (program_makes hr limit).bind fun more hmore => .pure ?_
    rw [allBound_stmts] at *
    exact List.forall_mem_append.mpr ⟨hss, hmore⟩

end Rule

/-- The rules at every depth of nesting make expressions whose operators bind by their levels. -/
theorem Rules.within_make (bound depth : Nat) : (Rules.within bound depth).Make := by
  induction depth with
  | zero =>
    exact ⟨.stuck, .stuck, fun _ => .stuck, .stuck, .stuck, .stuck,
      fun _ _ _ _ h => (by cases h), fun _ _ _ h => (by cases h)⟩
  | succ depth ih =>
    exact ⟨Rule.expression_makes ih, Rule.assignment_item ih, Rule.binary_makes ih,
      Rule.unary_makes ih, Rule.construct_makes ih, Rule.statement_makes ih,
      fun _ _ _ _ h => Rule.binary_stops h, fun _ _ _ h => (Rule.assignment_makes ih h).2⟩

/-- In every program that is read the operands bind as tightly as their operators ask for. -/
theorem bound_of_read {bound : Nat} {text : String} {script : Script}
    (hread : parseWithin bound text = some script) : ∀ n ∈ script.nodes, n.Bound := by
  obtain ⟨⟨ss, s⟩, hrun, hscript⟩ := Option.bind_eq_some_iff.mp hread
  cases hscript
  obtain ⟨u, s₁, -, hprogram⟩ := bind_some hrun
  exact Rule.program_makes (Rules.within_make bound bound) bound _ _ _ hprogram

end Script
end Countersign
