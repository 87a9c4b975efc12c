/-
# What a walk reports

A walk through a program looks into the bodies of functions. When it leaves the body of a function
that has to return something, it has reported each bare `return` in it that control can get to, and
the function itself if control can reach its end.

`Walked` says what a part of a walk does: it keeps the named types and the diagnostics, reports
the bare returns of that part that are due, and leaves behind only functions that are covered.
Parts are put together as the program is, so the whole walk is one induction over the program.

Key definitions: `Covered`, `Context.Due`, `Walked`, `Walks`.
Key theorems: `Walked.leaveFunction`, `Script.checkStmts_walks`.
-/
import Countersign.Verify.Walk
import Countersign.Proofs.Summary.Lookup
import Countersign.Proofs.Summary.Execution
import Countersign.Proofs.Verify.Actions
import Countersign.Proofs.Verify.Session

namespace Countersign
namespace Verify

open Script (Visit Node)

/-! ### Covered functions -/

/-- The diagnostics hold all that is due about the returns of a function, if it has to return
something where the types are named as in `base`. -/
def Covered (lines : LineMap) (base : Env) (errors : List Diagnostic) (c : CheckedFunction) : Prop :=
  (base.resolve c.result).admitsUndefined = false →
    (Script.allComplete c.body = true →
      missingReturn c.name c.result (lines.lineNumber c.pos) ∈ errors) ∧
    ∀ v ∈ Script.ownReturnsOfStmts c.body, v.bare = true →
      v.site lines ∈ (Script.findingsOfStmts lines false c.body).returns →
        missingReturn c.name c.result (lines.lineNumber v.pos) ∈ errors

theorem Covered.mono {lines : LineMap} {base : Env} {errors errors' : List Diagnostic}
    {c : CheckedFunction} (h : Covered lines base errors c) (hsub : errors ⊆ errors') :
    Covered lines base errors' c := by
  intro hresult
  obtain ⟨hfalls, hreturns⟩ := h hresult
  exact ⟨fun hend => hsub (hfalls hend), fun v hv hbare hsite => hsub (hreturns v hv hbare hsite)⟩

/-- The diagnostic is due for a `return` statement: it is bare, the function around it has to return
something, and it is not known to be out of reach. -/
def Context.Due (ctx : Context) (base : Env) (v : Visit) (d : Diagnostic) : Prop :=
  v.bare = true ∧ ∃ frame result, ctx.frame = some frame ∧ frame.result = some result ∧
    (base.resolve result).admitsUndefined = false ∧
    ((ctx.summary.functionAt? frame.pos).bind (·.returns.find? (·.pos == v.pos))).all
      (·.reachable) = true ∧
    d = missingReturn frame.name result (ctx.line v.pos)

/-- A part of a walk with these `return` statements led from one session to another. -/
structure Walked (ctx : Context) (base : Env) (vs : List Visit) (s s' : Session) : Prop where
  aliases : s'.env.aliases = s.env.aliases
  errors : s.errors <+: s'.errors
  checked : ∀ c ∈ s'.checked, c ∈ s.checked ∨ Covered ctx.lines base s'.errors c
  returns : ∀ v ∈ vs, ∀ d, ctx.Due base v d → d ∈ s'.errors

namespace Walked

variable {ctx : Context} {base : Env} {vs us : List Visit} {s s' s'' : Session}

theorem ofGrows (h : s.Grows s') : Walked ctx base [] s s' where
  aliases := h.aliases
  errors := h.errors
  checked _ hc := .inl (h.checked ▸ hc)
  returns _ hv := absurd hv List.not_mem_nil

theorem trans (h : Walked ctx base vs s s') (h' : Walked ctx base us s' s'') :
    Walked ctx base (vs ++ us) s s'' where
  aliases := h'.aliases.trans h.aliases
  errors := h.errors.trans h'.errors
  checked c hc := by
    rcases h'.checked c hc with hc | hcovered
    · rcases h.checked c hc with hc | hcovered
      · exact .inl hc
      · exact .inr (hcovered.mono h'.errors.subset)
    · exact .inr hcovered
  returns v hv d hdue := by
    rcases List.mem_append.mp hv with hv | hv
    · exact h'.errors.subset (h.returns v hv d hdue)
    · exact h'.returns v hv d hdue

/-- What was walked in the body of a function counts for the code around it, but for the returns. -/
theorem around {frame : Option Frame} (h : Walked { ctx with frame := frame } base vs s s') :
    Walked ctx base [] s s' where
  aliases := h.aliases
  errors := h.errors
  checked := h.checked
  returns _ hv := absurd hv List.not_mem_nil

end Walked

/-! ### Leaving a function -/

section Leave

variable {ctx : Context} {base : Env} {s s' : Session} {head : FunctionHead} {plan : FunctionPlan}
  {ss : List Script.Stmt} {result : Ty}

theorem leaveFunction_none (ctx : Context) (s : Session) (head : FunctionHead)
    (ss : List Script.Stmt) (hresult : plan.result = none) :
    s.leaveFunction ctx head plan ss = s.leave := by
  rw [Session.leaveFunction, hresult]

/-- Leaving a function that is checked against a result: it is noted, and reported if control may
reach its end and it has to return something. -/
theorem leaveFunction_some (ctx : Context) (s : Session) (head : FunctionHead)
    (ss : List Script.Stmt) (hresult : plan.result = some result) :
    (s.leaveFunction ctx head plan ss).env.aliases = s.env.aliases ∧
    s.errors <+: (s.leaveFunction ctx head plan ss).errors ∧
    (s.leaveFunction ctx head plan ss).checked =
      s.checked ++ [⟨head.name, head.pos, result, ss⟩] ∧
    ((ctx.summary.functionAt? head.pos).any (·.completion == .fallsThrough) = true →
      (s.env.resolve result).admitsUndefined = false →
        missingReturn head.name result (ctx.line head.pos) ∈
          (s.leaveFunction ctx head plan ss).errors) := by
  have hresolve : s.leave.env.resolve result = s.env.resolve result :=
    Env.resolve_congr s.leave_grows.aliases result
  unfold Session.leaveFunction
  rw [hresult]
  dsimp only
  split
  · refine ⟨s.leave_grows.aliases, List.prefix_append _ _, rfl, fun _ _ => ?_⟩
    exact List.mem_append_right _ (List.mem_singleton_self _)
  · rename_i hsilent
    refine ⟨s.leave_grows.aliases, List.prefix_refl _, rfl, fun hfalls hadmits => ?_⟩
    rw [hresolve, hfalls, hadmits] at hsilent
    exact absurd rfl hsilent

/-- A function is covered once its body was walked through and left. -/
theorem Walked.leaveFunction {span : Span}
    (hknows : ctx.summary.Knows ctx.lines head.pos (.mk span ss))
    (hbase : s'.env.aliases = base.aliases)
    (h : Walked { ctx with frame := some (plan.frame head) } base (Script.ownReturnsOfStmts ss)
      s s') :
    Walked ctx base [] s
      (s'.leaveFunction { ctx with frame := some (plan.frame head) } head plan ss) := by
  obtain ⟨f, hat, hcompletion, hsites⟩ := hknows
  cases hresult : plan.result with
  | none =>
    rw [leaveFunction_none _ _ _ _ hresult]
    exact h.around.trans (.ofGrows s'.leave_grows)
  | some result =>
    obtain ⟨haliases, herrors, hchecked, hreported⟩ :=
      leaveFunction_some { ctx with frame := some (plan.frame head) } s' head ss hresult
    refine ⟨haliases.trans h.aliases, h.errors.trans herrors, fun c hc => ?_, ?_⟩
    · rw [hchecked] at hc
      rcases List.mem_append.mp hc with hc | hc
      · exact (h.checked c hc).imp_right fun hcovered => hcovered.mono herrors.subset
      · obtain rfl := List.mem_singleton.mp hc
        refine .inr fun hresolved => ⟨fun hend => ?_, fun v hv hbare hsite => ?_⟩
        · -- The summary says that control falls through.
          refine hreported ?_ ((Env.resolve_congr hbase result).symm ▸ hresolved)
          have hfalls : f.completion = .fallsThrough := by
            rw [hcompletion, Script.Block.canComplete, hend]
            rfl
          show (ctx.summary.functionAt? head.pos).any _ = true
          rw [hat, Option.any_some, hfalls]
          rfl
        · -- The summary says that control can get to the return.
          refine herrors.subset (h.returns v hv _ ⟨hbare, _, result, rfl, hresult, hresolved, ?_, rfl⟩)
          show ((ctx.summary.functionAt? head.pos).bind _).all _ = true
          have hfind : f.returns.find? (·.pos == v.pos) = some (v.site ctx.lines) := hsites _ hsite
          rw [hat, Option.bind_some, hfind]
          rfl
    · exact fun _ hv => absurd hv List.not_mem_nil

end Leave

/-! ### Parts of a walk -/

/-- What a part of a walk with these `return` statements does to a session that has the named types
of `base`. -/
def WalkedFrom (ctx : Context) (base : Env) (vs : List Visit) (s s' : Session) : Prop :=
  s.env.aliases = base.aliases → Walked ctx base vs s s'

instance (ctx : Context) (base : Env) : Passage (WalkedFrom ctx base) where
  refl s _ := .ofGrows (.refl s)
  trans h h' hs := (h hs).trans (h' ((h hs).aliases.trans hs))

/-- The action walks through a part of a program with these `return` statements. -/
abbrev Walks {α : Type} (ctx : Context) (base : Env) (m : Checking α) (vs : List Visit) : Prop :=
  Leads (WalkedFrom ctx base) m vs

namespace Walks

variable {α : Type} {ctx : Context} {base : Env} {vs : List Visit}

theorem change {f : Session → Session} (h : ∀ s : Session, s.Grows (f s)) :
    Walks ctx base (modify f : Checking Unit) [] := fun s _ => .ofGrows (h s)

/-- What follows a look at the session may rely on the named types. -/
theorem look {f : Session → Checking α}
    (h : ∀ s, s.env.aliases = base.aliases → Walks ctx base (f s) vs) :
    Walks ctx base (get >>= f) vs := fun s hs => h s hs s hs

/-- A `return` statement with a value is never due. -/
theorem valued {m : Checking α} (h : Walks ctx base m []) (pos : Nat) :
    Walks ctx base m [⟨pos, false⟩] := by
  intro s hs
  obtain ⟨haliases, herrors, hchecked, -⟩ := h s hs
  refine ⟨haliases, herrors, hchecked, ?_⟩
  rintro v hv d ⟨hbare, -⟩
  rw [List.mem_singleton.mp hv] at hbare
  cases hbare

/-- The body of a function, with its returns, is a part without returns of the code around it. -/
theorem function {m : Checking Unit} {head : FunctionHead} {plan : FunctionPlan} {span : Span}
    {ss : List Script.Stmt} (hknows : ctx.summary.Knows ctx.lines head.pos (.mk span ss))
    (hm : Walks { ctx with frame := some (plan.frame head) } base m (Script.ownReturnsOfStmts ss))
    (a : α) :
    Walks ctx base (do
      modify (·.enterFunction { ctx with frame := some (plan.frame head) } head plan ss)
      m
      modify (·.leaveFunction { ctx with frame := some (plan.frame head) } head plan ss)
      Pure.pure a) [] := by
  intro s hs
  have hbody := (change fun s =>
    s.enterFunction_grows { ctx with frame := some (plan.frame head) } head plan ss).bind fun _ => hm
  have hwalked := hbody s hs
  exact hwalked.leaveFunction hknows (hwalked.aliases.trans hs)

theorem report (d : Diagnostic) : Walks ctx base (Verify.report d) [] :=
  change fun s => (s.report_records d).grows

theorem reportAll (ds : List Diagnostic) : Walks ctx base (Verify.reportAll ds) [] :=
  change fun s => (s.reportAll_records ds).grows

/-- What is reported only under a condition, before the rest is done either way. -/
theorem reportIf {c : Prop} [Decidable c] (d : Diagnostic) {rest : PUnit → Checking α}
    (h : ∀ u, Walks ctx base (rest u) vs) :
    Walks ctx base (if c then Verify.report d >>= rest else rest ⟨⟩) vs :=
  .ite ((Walks.report d).bind h) (h ⟨⟩)

end Walks

/-! ### Actions without statements -/

section Actions

variable {ctx : Context} {base : Env}

theorem Demand.settle_walks (d : Demand) (e : Script.Expr) (actual : Ty) (line : Nat) :
    Walks ctx base (d.settle e actual line) [] := by
  cases d with
  | fit expected name =>
    refine .ite (Walks.look fun s _ => ?_) ?_
    · exact (Walks.reportAll _).bind fun _ => .pure _
    · exact .pure _
  | _ => exact .pure _

theorem memberType_walks (object : Ty) (text field : String) (line : Nat) :
    Walks ctx base (memberType object text field line) [] := by
  refine .look fun s _ => ?_
  dsimp only
  split
  · split
    · exact .pure _
    · exact (Walks.report _).bind fun _ => .pure _
  · exact .pure _
  · exact .pure _

theorem nameType_walks (name : String) (line : Nat) : Walks ctx base (nameType name line) [] := by
  refine .look fun s _ => ?_
  split
  · exact .pure _
  · exact (Walks.report _).bind fun _ => .pure _

theorem fieldDemand_walks (fields : Option (List (String × Ty))) (text field : String) (line : Nat) :
    Walks ctx base (fieldDemand fields text field line) [] := by
  unfold fieldDemand
  split
  · exact .pure _
  · split
    · exact .pure _
    · exact (Walks.report _).bind fun _ => .pure _

theorem prototypeDemand_walks (ctor field : String) (line : Nat) :
    Walks ctx base (prototypeDemand ctx ctor field line) [] := by
  refine .look fun s _ => .reportIf _ fun _ => .reportIf _ fun _ => ?_
  dsimp only
  split
  · exact .pure _
  · exact fieldDemand_walks _ _ _ _

theorem exportPropertyDemand_walks (name : String) (line : Nat) :
    Walks ctx base (exportPropertyDemand ctx name line) [] := by
  refine .look fun s _ => ?_
  dsimp only
  split
  · split
    · exact .pure _
    · exact (Walks.report _).bind fun _ => .pure _
  · split
    · exact .pure _
    · exact .pure _

theorem Target.demand_walks (target : Target) (line : Nat) :
    Walks ctx base (target.demand ctx line) [] := by
  cases target with
  | name text =>
    refine .look fun s _ => ?_
    split
    · exact (Walks.report _).bind fun _ => .pure _
    · exact .pure _
  | exports => exact .pure _
  | exportProperty key => exact exportPropertyDemand_walks key line
  | prototypeField ctor key => exact prototypeDemand_walks ctor key line
  | field object text key => exact .look fun s _ => fieldDemand_walks _ _ _ _
  | other => exact .pure _

/-- A `return` statement, after its value was looked at in this environment. -/
theorem returnErrors_walks {env : Env} (henv : env.aliases = base.aliases) (pos : Nat) :
    Walks ctx base (reportAll (returnErrors ctx env pos none)) [⟨pos, true⟩] := by
  intro s _
  have hgrows := (s.reportAll_records (returnErrors ctx env pos none)).grows
  refine ⟨hgrows.aliases, hgrows.errors, fun c hc => .inl (hgrows.checked ▸ hc), ?_⟩
  rintro v hv d ⟨-, frame, result, hframe, hresult, hresolved, hreachable, rfl⟩
  obtain rfl := List.mem_singleton.mp hv
  refine List.mem_append_right _ ?_
  rw [← Env.resolve_congr henv] at hresolved
  unfold returnErrors
  rw [hframe]
  dsimp only
  rw [hresult]
  dsimp only at hreachable ⊢
  rw [hreachable, hresolved]
  exact List.mem_singleton_self _

end Actions

/-! ### The walk through a program -/

/-- The summary knows every function among the nodes. -/
def Context.KnowsAll (ctx : Context) (ns : List Node) : Prop :=
  ∀ n ∈ ns, ∀ pos b, n.function? = some (pos, b) → ctx.summary.Knows ctx.lines pos b

namespace Context.KnowsAll

variable {ctx : Context} {n : Node} {ns ms : List Node}

theorem tail (h : ctx.KnowsAll (n :: ns)) : ctx.KnowsAll ns :=
  fun m hm => h m (List.mem_cons_of_mem n hm)

theorem left (h : ctx.KnowsAll (ns ++ ms)) : ctx.KnowsAll ns :=
  fun m hm => h m (List.mem_append_left ms hm)

theorem right (h : ctx.KnowsAll (ns ++ ms)) : ctx.KnowsAll ms :=
  fun m hm => h m (List.mem_append_right ns hm)

end Context.KnowsAll

end Verify

namespace Script

open Verify

variable {base : Env}

mutual

theorem Expr.infer_walks : ∀ (e : Expr) (ctx : Context) (hint : Hint), ctx.KnowsAll e.nodes →
    Walks ctx base (e.infer ctx hint) []
  | .ident _, _, _, _ => nameType_walks _ _
  | .string _, _, _, _ => .pure _
  | .number _, _, _, _ => .pure _
  | .regex _ _, _, _, _ => .pure _
  | .array _ es, ctx, hint, h => by
    refine .look fun s _ => ?_
    exact (inferElements_walks es ctx _ _ h.tail).bind fun _ => .pure _
  | .object _ ps, ctx, hint, h => by
    refine .look fun s _ => ?_
    exact (inferProperties_walks ps ctx _ h.tail).bind fun _ => .pure _
  | .member _ o n, ctx, hint, h => by
    refine .look fun s _ => ?_
    split
    · exact (Walks.report _).bind fun _ => .pure _
    · exact (o.infer_walks ctx .free h.tail).bind fun _ => memberType_walks _ _ _ _
  | .index _ o i, ctx, hint, h =>
    (o.infer_walks ctx .free h.tail.left).discard.bind fun _ =>
      (i.infer_walks ctx .free h.tail.right).discard.bind fun _ => .pure _
  | .call _ c as, ctx, hint, h => by
    refine (c.infer_walks ctx .free h.tail.left).bind fun callee => Walks.look fun s _ => ?_
    refine (Walks.reportAll _).bind fun _ => ?_
    exact (checkArgs_walks as ctx _ h.tail.right).bind fun _ => .pure _
  | .construct _ c _ as, ctx, hint, h => by
    refine (c.infer_walks ctx .free h.tail.left).bind fun callee => Walks.look fun s _ => ?_
    refine (Walks.reportAll _).bind fun _ => ?_
    exact (checkArgs_walks as ctx _ h.tail.right).bind fun _ => .pure _
  | .paren _ e, ctx, hint, h => e.infer_walks ctx hint h.tail
  | .function _ _ _ b, ctx, hint, h =>
    b.checkFunction_walks ctx _ _ (h _ List.mem_cons_self _ _ rfl) h.tail
  | .wordOp _ .delete e, ctx, hint, h =>
    (e.infer_walks ctx .free h.tail).discard.bind fun _ => .pure _
  | .wordOp _ .typeof e, ctx, hint, h => by
    refine .look fun s _ => .ite ?_ (.pure _)
    exact (e.infer_walks ctx .free h.tail).discard.bind fun _ => .pure _
  | .wordOp _ .void e, ctx, hint, h =>
    (e.infer_walks ctx .free h.tail).discard.bind fun _ => .pure _
  | .before _ _ e, ctx, hint, h => (e.infer_walks ctx .free h.tail).discard.bind fun _ => .pure _
  | .after _ e _, ctx, hint, h => (e.infer_walks ctx .free h.tail).discard.bind fun _ => .pure _
  | .binary _ l op r, ctx, hint, h => by
    have hl := fun hint => l.infer_walks ctx hint h.tail.left
    have hr := fun hint => r.infer_walks ctx hint h.tail.right
    unfold Expr.infer
    split
    · refine (l.target_walks ctx h.tail.left).bind fun target => ?_
      split
      · refine (hl _).discard.bind fun _ => ?_
        refine (Target.demand_walks _ _).bind fun demand => (hr _).bind fun _ => ?_
        refine (demand.settle_walks _ _ _).bind fun type => ?_
        exact (Walks.change fun s => (Target.complete_records ctx _ type _ _ s).grows).bind fun _ => .pure _
      · refine (Target.demand_walks _ _).bind fun demand => (hr _).bind fun _ => ?_
        refine (demand.settle_walks _ _ _).bind fun type => ?_
        exact (Walks.change fun s => (Target.complete_records ctx _ type _ _ s).grows).bind fun _ => .pure _
    · exact (hl _).bind fun _ => (hr _).bind fun _ => .pure _
    · exact (hl _).discard.bind fun _ => hr _
    · exact (hl _).discard.bind fun _ => (hr _).discard.bind fun _ => .pure _
    · exact (hl _).bind fun _ => (hr _).bind fun _ => .pure _
    · exact (hl _).discard.bind fun _ => (hr _).discard.bind fun _ => .pure _
  | .conditional _ t y n, ctx, hint, h =>
    (t.infer_walks ctx .free h.tail.left.left).discard.bind fun _ =>
      (y.infer_walks ctx hint.part h.tail.left.right).bind fun _ =>
        (n.infer_walks ctx hint.part h.tail.right).bind fun _ => .pure _
  | .omitted _ _, _, _, _ => .pure _
  | .this _, _, _, _ => .look fun _ _ => .pure _
  | .null _, _, _, _ => .pure _
  | .boolean _ true, _, _, _ => .pure _
  | .boolean _ false, _, _, _ => .pure _
termination_by structural e => e

theorem Expr.target_walks : ∀ (e : Expr) (ctx : Context), ctx.KnowsAll e.nodes →
    Walks ctx base (e.target ctx) []
  | .paren _ e, ctx, h => e.target_walks ctx h.tail
  | .ident _, _, _ => .pure _
  | .member _ o n, ctx, h => by
    unfold Expr.target
    split
    · exact .pure _
    · exact .pure _
    · exact .pure _
    · exact (o.infer_walks ctx .free h.tail).bind fun _ => .pure _
  | .string _, _, _ => .pure _
  | .number _, _, _ => .pure _
  | .regex _ _, _, _ => .pure _
  | .array _ _, _, _ => .pure _
  | .object _ _, _, _ => .pure _
  | .index _ _ _, _, _ => .pure _
  | .call _ _ _, _, _ => .pure _
  | .construct _ _ _ _, _, _ => .pure _
  | .function _ _ _ _, _, _ => .pure _
  | .wordOp _ _ _, _, _ => .pure _
  | .before _ _ _, _, _ => .pure _
  | .after _ _ _, _, _ => .pure _
  | .binary _ _ _ _, _, _ => .pure _
  | .conditional _ _ _ _, _, _ => .pure _
  | .omitted _ _, _, _ => .pure _
  | .this _, _, _ => .pure _
  | .null _, _, _ => .pure _
  | .boolean _ _, _, _ => .pure _
termination_by structural e => e

theorem inferElements_walks : ∀ (es : List Expr) (ctx : Context) (items : List Ty) (rest : Option Ty),
    ctx.KnowsAll (nodesOfExprs es) → Walks ctx base (inferElements ctx items rest es) []
  | [], _, _, _, _ => .pure _
  | e :: es, ctx, _, _, h =>
    (e.infer_walks ctx _ h.left).bind fun _ =>
      (inferElements_walks es ctx _ _ h.right).bind fun _ => .pure _
termination_by structural es => es

theorem inferProperties_walks : ∀ (ps : List Property) (ctx : Context) (hint : String → Hint),
    ctx.KnowsAll (nodesOfProperties ps) → Walks ctx base (inferProperties ctx hint ps) []
  | [], _, _, _ => .pure _
  | .mk _ _ e :: ps, ctx, hint, h =>
    (e.infer_walks ctx _ h.left).bind fun _ =>
      (inferProperties_walks ps ctx hint h.right).bind fun _ => .pure _
termination_by structural ps => ps

theorem checkArgs_walks : ∀ (es : List Expr) (ctx : Context) (params : List (Option String × Ty)),
    ctx.KnowsAll (nodesOfExprs es) → Walks ctx base (checkArgs ctx params es) []
  | [], _, _, _ => .pure _
  | e :: es, ctx, _, h =>
    (e.infer_walks ctx _ h.left).bind fun _ =>
      (Demand.settle_walks _ _ _ _).discard.bind fun _ => checkArgs_walks es ctx _ h.right
termination_by structural es => es

theorem supply?_walks : ∀ (e : Option Expr) (ctx : Context) (demand : Demand) (line : Nat),
    ctx.KnowsAll (nodesOfExpr? e) → Walks ctx base (supply? ctx demand line e) []
  | none, _, _, _, _ => .pure _
  | some e, ctx, _, _, h =>
    (e.infer_walks ctx _ h).bind fun _ => (Demand.settle_walks _ _ _ _).map
termination_by structural e => e

theorem Block.checkFunction_walks : ∀ (b : Block) (ctx : Context) (head : FunctionHead)
    (declared : Option Ty), ctx.summary.Knows ctx.lines head.pos b → ctx.KnowsAll b.nodes →
      Walks ctx base (b.checkFunction ctx head declared) []
  | .mk span ss, ctx, head, declared, hknows, h => by
    refine .look fun s _ => (Walks.reportAll _).bind fun _ => .ite ?_ (.pure _)
    exact Walks.function hknows (checkStmts_walks ss _ h) _
termination_by structural b => b

theorem Stmt.check_walks : ∀ (s : Stmt) (ctx : Context), ctx.KnowsAll s.nodes →
    Walks ctx base (s.check ctx) s.ownReturns
  | .declaration _ l, ctx, h => l.check_walks ctx h.tail
  | .function span n _ b, ctx, h => by
    refine .look fun s _ => ?_
    refine (b.checkFunction_walks ctx _ _ (h _ List.mem_cons_self _ _ rfl) h.tail).discard.bind
      fun _ => .ite ?_ (.pure _)
    exact Walks.change fun s => (s.noteDeclaration_records ctx _ _).grows
  | .block b, ctx, h => b.check_walks ctx h.tail
  | .empty _, _, _ => .pure _
  | .expression _ e, ctx, h => (e.infer_walks ctx .free h.tail).discard
  | .ifElse _ t y n, ctx, h =>
    (t.infer_walks ctx .free h.tail.left.left).discard.bind fun _ =>
      (y.check_walks ctx h.tail.left.right).seq fun _ => checkStmt?_walks n ctx h.tail.right
  | .doWhile _ b t, ctx, h =>
    (b.check_walks ctx h.tail.left).last fun _ => (t.infer_walks ctx .free h.tail.right).discard
  | .whileDo _ t b, ctx, h =>
    (t.infer_walks ctx .free h.tail.left).discard.bind fun _ => b.check_walks ctx h.tail.right
  | .forLoop _ i t u b, ctx, h =>
    (Walks.change fun s => s.enter_grows _).bind fun _ =>
      (i.check_walks ctx h.tail.left.left.left).bind fun _ =>
        (supply?_walks t ctx .free 0 h.tail.left.left.right).discard.bind fun _ =>
          (supply?_walks u ctx .free 0 h.tail.left.right).discard.bind fun _ =>
            (b.check_walks ctx h.tail.right).last fun _ => Walks.change fun s => s.leave_grows
  | .forIn _ i o b, ctx, h =>
    (Walks.change fun s => s.enter_grows _).bind fun _ =>
      (i.checkKeys_walks ctx h.tail.left.left).bind fun _ =>
        (o.infer_walks ctx .free h.tail.left.right).discard.bind fun _ =>
          (b.check_walks ctx h.tail.right).last fun _ => Walks.change fun s => s.leave_grows
  | .continueTo _ _, _, _ => .pure _
  | .breakTo _ _, _, _ => .pure _
  | .returnWith span none, ctx, h => .look fun s hs => returnErrors_walks hs span.pos
  | .returnWith span (some e), ctx, h =>
    .look fun _ _ => (supply?_walks (some e) ctx _ _ h.tail).bind fun _ =>
      (Walks.reportAll _).valued span.pos
  | .switchOn _ e cs, ctx, h =>
    (e.infer_walks ctx .free h.tail.left).discard.bind fun _ => checkClauses_walks cs ctx h.tail.right
  | .labeled _ _ b, ctx, h => b.check_walks ctx h.tail
  | .throwing _ e, ctx, h => (e.infer_walks ctx .free h.tail).discard
  | .tryCatch _ b c f, ctx, h => by
    have hall := (b.check_walks ctx h.tail.left.left).seq fun _ =>
      (c.check_walks ctx h.tail.left.right).seq fun _ => checkBlock?_walks f ctx h.tail.right
    rw [← List.append_assoc] at hall
    exact hall
  | .debugger _, _, _ => .pure _
termination_by structural s => s

theorem checkStmts_walks : ∀ (ss : List Stmt) (ctx : Context), ctx.KnowsAll (nodesOfStmts ss) →
    Walks ctx base (checkStmts ctx ss) (ownReturnsOfStmts ss)
  | [], _, _ => .pure _
  | s :: ss, ctx, h => (s.check_walks ctx h.left).seq fun _ => checkStmts_walks ss ctx h.right
termination_by structural ss => ss

theorem checkStmt?_walks : ∀ (s : Option Stmt) (ctx : Context), ctx.KnowsAll (nodesOfStmt? s) →
    Walks ctx base (checkStmt? ctx s) (ownReturnsOfStmt? s)
  | none, _, _ => .pure _
  | some s, ctx, h => s.check_walks ctx h
termination_by structural s => s

theorem Block.check_walks : ∀ (b : Block) (ctx : Context), ctx.KnowsAll b.nodes →
    Walks ctx base (b.check ctx) b.ownReturns
  | .mk _ ss, ctx, h =>
    (Walks.change fun s => s.enterBlock_grows ctx ss).bind fun _ =>
      (checkStmts_walks ss ctx h).last fun _ => Walks.change fun s => s.leave_grows
termination_by structural b => b

theorem checkBlock?_walks : ∀ (b : Option Block) (ctx : Context), ctx.KnowsAll (nodesOfBlock? b) →
    Walks ctx base (checkBlock? ctx b) (ownReturnsOfBlock? b)
  | none, _, _ => .pure _
  | some b, ctx, h => b.check_walks ctx h
termination_by structural b => b

theorem DeclList.check_walks : ∀ (l : DeclList) (ctx : Context), ctx.KnowsAll l.nodes →
    Walks ctx base (l.check ctx) []
  | .mk _ kind ds, ctx, h => checkDecls_walks ds ctx kind h
termination_by structural l => l

theorem checkDecls_walks : ∀ (ds : List Decl) (ctx : Context) (kind : DeclKind),
    ctx.KnowsAll (nodesOfDecls ds) → Walks ctx base (checkDecls ctx kind ds) []
  | [], _, _, _ => .pure _
  | .mk _ _ init :: ds, ctx, kind, h =>
    .look fun _ _ => (supply?_walks init ctx _ _ h.left).bind fun _ =>
      (Walks.change fun s => (s.declareResult_binds kind _ _ _).grows).bind fun _ =>
        checkDecls_walks ds ctx kind h.right
termination_by structural ds => ds

theorem ForInit.check_walks : ∀ (i : ForInit) (ctx : Context), ctx.KnowsAll i.nodes →
    Walks ctx base (i.check ctx) []
  | .none, _, _ => .pure _
  | .decls l, ctx, h => l.check_walks ctx h
  | .expr e, ctx, h => (e.infer_walks ctx .free h).discard
termination_by structural i => i

theorem ForInit.checkKeys_walks : ∀ (i : ForInit) (ctx : Context), ctx.KnowsAll i.nodes →
    Walks ctx base (i.checkKeys ctx) []
  | .none, _, _ => .pure _
  | .decls l, ctx, _ => .change fun s => (s.declareKeys_binds ctx l).grows
  | .expr e, ctx, h => (e.infer_walks ctx .free h).discard
termination_by structural i => i

theorem checkClauses_walks : ∀ (cs : List Clause) (ctx : Context), ctx.KnowsAll (nodesOfClauses cs) →
    Walks ctx base (checkClauses ctx cs) (ownReturnsOfClauses cs)
  | [], _, _ => .pure _
  | .mk _ t ss :: cs, ctx, h =>
    (supply?_walks t ctx .free 0 h.left.left).discard.bind fun _ =>
      (Walks.change fun s => s.enterBlock_grows ctx ss).bind fun _ =>
        (checkStmts_walks ss ctx h.left.right).seq fun _ =>
          (Walks.change fun s => s.leave_grows).bind fun _ => checkClauses_walks cs ctx h.right
termination_by structural cs => cs

theorem Handler.check_walks : ∀ (c : Handler) (ctx : Context), ctx.KnowsAll c.nodes →
    Walks ctx base (c.check ctx) c.ownReturns
  | .none, _, _ => .pure _
  | .catching _ _ b, ctx, h =>
    (Walks.change fun s => (s.enter_grows _).trans (Session.declare_binds _ _).grows).bind fun _ =>
      (b.check_walks ctx h).last fun _ => Walks.change fun s => s.leave_grows
termination_by structural c => c

end

end Script
end Countersign
