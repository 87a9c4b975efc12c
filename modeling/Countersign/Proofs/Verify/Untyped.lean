/-
# Declared functions without a type

A declared function takes its type from the nearest binding of its name. Before a list of statements
is checked, its variables are bound and then, one after the other, the functions it declares whose
names mean nothing yet; these are remembered as untyped. So a function whose name nothing else has
bound by then is reported: nothing forgets it before its turn comes, and nothing takes a diagnostic
back. A function that is declared outside of a list, as the body of a condition is, gets no binding;
it is reported if its name is not known when the walk comes to it.

Key definitions: `Course.Passes`, `Takes`, `Enters`, `untypedFunction`.
Key theorems: `Session.hoist_untyped`, `Course.untyped_subset`, `Course.Passes.errors`,
`untyped_functions_reported`.
-/
import Countersign.Proofs.Env.Alike
import Countersign.Proofs.Verify.Balance
import Countersign.Proofs.Verify.Returns

namespace Countersign

/-! ### Binding a name leaves the other names alone -/

namespace Env

variable {p : Scope → Bool} {f : Scope → Except Binding Scope} {name : String}

theorem modifyFirst_findSome? (hf : ∀ s s', f s = .ok s' → s'.get? name = s.get? name)
    {ss ss' : List Scope} (h : modifyFirst p f ss = some (.ok ss')) :
    ss'.findSome? (·.get? name) = ss.findSome? (·.get? name) := by
  induction ss generalizing ss' with
  | nil => cases h
  | cons s rest ih =>
    unfold modifyFirst at h
    by_cases hp : p s = true
    · rw [if_pos hp] at h
      cases hs : f s with
      | error e =>
        rw [hs] at h
        cases h
      | ok changed =>
        rw [hs] at h
        cases h
        rw [List.findSome?_cons, List.findSome?_cons, hf s changed hs]
    · rw [if_neg hp] at h
      cases hrest : modifyFirst p f rest with
      | none =>
        rw [hrest] at h
        cases h
      | some result =>
        rw [hrest] at h
        cases result with
        | error e => cases h
        | ok rest' =>
          cases h
          rw [List.findSome?_cons, List.findSome?_cons, ih hrest]

theorem modifyScope_lookup? (hf : ∀ s s', f s = .ok s' → s'.get? name = s.get? name)
    {env env' : Env} (h : env.modifyScope p f = .ok env') :
    env'.lookup? name = env.lookup? name := by
  unfold modifyScope at h
  unfold lookup? scopes
  rw [List.findSome?_append, List.findSome?_append]
  split at h
  · rename_i inner hinner
    cases h
    rw [modifyFirst_findSome? hf hinner]
  · cases h
  · cases hbottom : f env.bottom with
    | error e =>
      rw [hbottom] at h
      cases h
    | ok bottom =>
      rw [hbottom] at h
      cases h
      simp only [List.findSome?_cons, List.findSome?_nil, hf _ _ hbottom]

end Env

namespace Verify

open Script (Stmt NameSite Ident Param Block courseOfStmts varsOfStmts declaredFunctions)

namespace Session

variable (ctx : Context) (s : Session)

theorem declareVar_lookup? {b : Binding} {name : String} (hne : b.name ≠ name) :
    (s.declareVar b).env.lookup? name = s.env.lookup? name := by
  unfold declareVar
  split
  · rename_i env henv
    exact Env.modifyScope_lookup? (fun _ _ => Scope.get?_of_declare_ne hne) henv
  · rfl

theorem hoistVars_lookup? {sites : List NameSite} {name : String}
    (h : ∀ v ∈ sites, v.name ≠ name) :
    (sites.foldl (hoistVar ctx) s).env.lookup? name = s.env.lookup? name := by
  induction sites generalizing s with
  | nil => rfl
  | cons v sites ih =>
    have hv : v.name ≠ name := h v List.mem_cons_self
    rw [List.foldl_cons, ih _ fun w hw => h w (List.mem_cons_of_mem v hw)]
    exact s.declareVar_lookup? hv

theorem hoistFunctions_lookup? {sites : List NameSite} {name : String}
    (h : ∀ g ∈ sites, g.name ≠ name) :
    (sites.foldl (hoistFunction ctx) s).env.lookup? name = s.env.lookup? name := by
  induction sites generalizing s with
  | nil => rfl
  | cons g sites ih =>
    have hg : g.name ≠ name := h g List.mem_cons_self
    rw [List.foldl_cons, ih _ fun w hw => h w (List.mem_cons_of_mem g hw)]
    unfold hoistFunction
    split
    · rfl
    · exact s.declareVar_lookup? hg

/-! ### Untyped functions are not forgotten -/

theorem Binds.untyped {s s' : Session} (h : Binds s s') : s.untyped ⊆ s'.untyped := by
  induction h with
  | refl s => exact List.Subset.refl _
  | trans _ _ ih ih' => exact List.Subset.trans ih ih'
  | declared _ => exact List.Subset.refl _
  | rebound _ _ => exact List.Subset.refl _
  | noted s pos => exact List.subset_append_left _ _
  | mismatched s described actual expected line => exact List.Subset.refl _

/-- A declared function is remembered as untyped if its name means nothing before its turn: not
around the statements, not among their variables, and not among the functions before it. -/
theorem hoist_untyped {ss : List Stmt} {before after : List NameSite} {site : NameSite}
    (hsites : declaredFunctions ss = before ++ site :: after)
    (haround : s.env.lookup? site.name = none) (hvars : ∀ v ∈ varsOfStmts ss, v.name ≠ site.name)
    (hbefore : ∀ g ∈ before, g.name ≠ site.name) : site.pos ∈ (s.hoist ctx ss).untyped := by
  let atTurn := before.foldl (hoistFunction ctx) ((varsOfStmts ss).foldl (hoistVar ctx) s)
  have hfree : atTurn.env.lookup? site.name = none := by
    rw [hoistFunctions_lookup? ctx _ hbefore, hoistVars_lookup? ctx s hvars, haround]
  have hnoted : site.pos ∈ (atTurn.hoistFunction ctx site).untyped := by
    unfold hoistFunction
    rw [hfree]
    exact List.mem_append_right _ (List.mem_singleton_self _)
  unfold hoist
  rw [hsites, List.foldl_append, List.foldl_cons]
  exact (Binds.foldl (fun s site => s.hoistFunction_binds ctx site) after _).untyped hnoted

theorem leaveFunction_untyped (head : FunctionHead) (plan : FunctionPlan) (body : List Stmt) :
    (s.leaveFunction ctx head plan body).untyped = s.untyped := by
  unfold leaveFunction
  split
  · rfl
  · dsimp only
    split <;> rfl

end Session

theorem Step.apply_untyped (ctx : Context) (st : Step) (s : Session) :
    s.untyped ⊆ (st.apply ctx s).untyped := by
  cases st with
  | report ds plain => exact List.Subset.refl _
  | hoist ss => exact (s.hoist_binds ctx ss).untyped
  | declare b => exact (s.declare_binds b).untyped
  | declareResult kind name line type => exact (s.declareResult_binds kind name line type).untyped
  | declareKeys l => exact (s.declareKeys_binds ctx l).untyped
  | noteDeclaration name line =>
    exact (s.noteDeclaration_records ctx name line).untyped.symm ▸ List.Subset.refl _

namespace Course

/-- No course forgets an untyped function. -/
theorem untyped_subset {α : Type} (c : Course α) (ctx : Context) (s : Session) :
    s.untyped ⊆ (c.after ctx s).untyped := by
  induction c generalizing ctx s with
  | pure a => exact List.Subset.refl _
  | bind c f ihc ihf => exact List.Subset.trans (ihc ctx s) (ihf _ ctx _)
  | session => exact List.Subset.refl _
  | step st => exact st.apply_untyped ctx s
  | assign target value line body ih =>
    obtain ⟨d, asking, fitting, -, hrun⟩ := assign_told target value line body ctx s
    rw [Course.after, hrun]
    dsimp only
    rw [(target.complete_records _ _ _ _ _).untyped]
    show s.untyped ⊆ ((body d).after ctx (s.withAccount _)).untyped
    exact ih d ctx (s.withAccount _)
  | inBlock c ih => exact ih ctx (s.enter (.ofKind .block))
  | function head plan ss c ih =>
    let inner := ctx.inside (plan.frame head)
    have henter := (s.enterFunction_binds inner head plan ss).untyped
    have hinside := ih inner (s.enterFunction inner head plan ss)
    have hleave := Session.leaveFunction_untyped inner
      (c.after inner (s.enterFunction inner head plan ss)) head plan ss
    show s.untyped ⊆ (Session.leaveFunction inner
      (c.after inner (s.enterFunction inner head plan ss)) head plan ss).untyped
    rw [hleave]
    exact List.Subset.trans henter hinside

/-! ### What a course comes to -/

/-- Taking a course, in a context and from a session, comes to taking the course `d` in the context
`inner` and from the session `t`. -/
inductive Passes {β : Type} (d : Course β) (inner : Context) (t : Session) :
    {α : Type} → Course α → Context → Session → Prop
  | here : Passes d inner t d inner t
  | first {α γ : Type} {c : Course α} {f : α → Course γ} {ctx : Context} {s : Session} :
      Passes d inner t c ctx s → Passes d inner t (.bind c f) ctx s
  | next {α γ : Type} {c : Course α} {f : α → Course γ} {ctx : Context} {s : Session} :
      Passes d inner t (f (c.value ctx s)) ctx (c.after ctx s) →
      Passes d inner t (.bind c f) ctx s
  | value {target : Target} {e : Script.Expr} {line : Nat} {body : Demand → Course Ty}
      {ctx : Context} {s s' : Session} {demand : Demand} :
      (target.demand ctx line).run s = (demand, s') → Passes d inner t (body demand) ctx s' →
      Passes d inner t (.assign target e line body) ctx s
  | block {c : Course Unit} {ctx : Context} {s : Session} :
      Passes d inner t c ctx (s.enter (.ofKind .block)) → Passes d inner t (.inBlock c) ctx s
  | body {head : FunctionHead} {plan : FunctionPlan} {ss : List Stmt} {c : Course Unit}
      {ctx : Context} {s : Session} :
      Passes d inner t c (ctx.inside (plan.frame head))
        (s.enterFunction (ctx.inside (plan.frame head)) head plan ss) →
      Passes d inner t (.function head plan ss c) ctx s

namespace Passes

variable {α β : Type} {d : Course β} {inner ctx : Context} {t s : Session} {c : Course α}

/-- The lines of the text are the same everywhere. -/
theorem lines (h : Passes d inner t c ctx s) : inner.lines = ctx.lines := by
  induction h with
  | here => rfl
  | first _ ih => exact ih
  | next _ ih => exact ih
  | value _ _ ih => exact ih
  | block _ ih => exact ih
  | body _ ih => exact ih

/-- What was reported on the way is still reported at the end. -/
theorem errors (h : Passes d inner t c ctx s) :
    (d.after inner t).errors <+: (c.after ctx s).errors := by
  induction h with
  | here => exact List.prefix_refl _
  | @first _ _ c f ctx s _ ih =>
    exact ih.trans ((f (c.value ctx s)).balanced ctx (c.after ctx s)).errors
  | next _ ih => exact ih
  | @value target e line body ctx s s' demand hdemand _ ih =>
    obtain ⟨ds, -, hsettle⟩ := demand.settle_tells e ((body demand).value ctx s') line
      ((body demand).after ctx s')
    rw [Course.after, Course.after, run_assign hdemand hsettle.run]
    refine ih.trans ?_
    exact (Session.add_balanced _ ds).errors.trans (target.complete_records ctx _ _ line _).errors
  | block _ ih => exact ih
  | @body head plan ss c ctx s _ ih =>
    exact ih.trans (Session.leaveFunction_errors (ctx.inside (plan.frame head)) _ head plan ss)

end Passes
end Course

/-! ### Functions without a type are reported -/

/-- A function has no type. -/
def untypedFunction (name : String) (line : Nat) : Diagnostic :=
  { kind := .untypedFunctionFound, line := line, funcName := some name }

/-- The walk reports a declared function that is remembered as untyped, or whose name is not
known. -/
theorem function_reported {span : Span} {name : Ident} {ps : List Param} {b : Block}
    {ctx : Context} {s : Session}
    (h : span.pos ∈ s.untyped ∨ s.env.lookup? name.text = none) :
    untypedFunction name.text (ctx.line span.pos) ∈
      (((Stmt.function span name ps b).course ctx).after ctx s).errors := by
  obtain ⟨bodySpan, body⟩ := b
  let head : FunctionHead := ⟨name.text, span.pos, ps⟩
  let declared := if s.untyped.contains span.pos then none else s.typeOf? name.text
  have hdeclared : declared = none := by
    rcases h with hnoted | hfree
    · exact if_pos (List.contains_iff_mem.mpr hnoted)
    · have htype : s.typeOf? name.text = none := by
        unfold Session.typeOf?
        rw [hfree]
        rfl
      show (if s.untyped.contains span.pos then none else s.typeOf? name.text) = none
      rw [htype, ite_self]
  let plan := planFunction s.env (ctx.line span.pos) head declared
  have hpasses : (Course.report plan.errors (planFunction_plain _ _ _ _)).Passes ctx s
      ((Stmt.function span name ps (.mk bodySpan body)).course ctx) ctx s :=
    .next (.first (.first (.next (.first .here))))
  refine hpasses.errors.subset (List.mem_append_right _ ?_)
  show untypedFunction name.text (ctx.line span.pos) ∈
    (planFunction s.env (ctx.line span.pos) head declared).errors
  rw [hdeclared]
  exact List.mem_singleton_self _

/-- Statements are checked one after the other. -/
theorem courseOfStmts_passes (ctx : Context) (stmt : Stmt) (before after : List Stmt)
    (s : Session) : ∃ t, (stmt.course ctx).Passes ctx t
      (courseOfStmts ctx (before ++ stmt :: after)) ctx s ∧ s.untyped ⊆ t.untyped := by
  induction before generalizing s with
  | nil => exact ⟨s, .first .here, List.Subset.refl _⟩
  | cons first before ih =>
    obtain ⟨t, hpasses, huntyped⟩ := ih ((first.course ctx).after ctx s)
    exact ⟨t, .next hpasses,
      List.Subset.trans ((first.course ctx).untyped_subset ctx s) huntyped⟩

/-- A function of a list of statements that is remembered as untyped is reported. -/
theorem listed_reported (ctx : Context) {s : Session} {ss : List Stmt} {site : NameSite}
    (hsite : site ∈ declaredFunctions ss) (hnoted : site.pos ∈ s.untyped) :
    untypedFunction site.name (ctx.line site.pos) ∈
      ((courseOfStmts ctx ss).after ctx s).errors := by
  obtain ⟨stmt, hstmt, hdeclares⟩ := List.mem_filterMap.mp hsite
  obtain ⟨before, after, rfl⟩ := List.append_of_mem hstmt
  obtain ⟨t, hpasses, huntyped⟩ := courseOfStmts_passes ctx stmt before after s
  cases stmt with
  | function span name ps b =>
    cases hdeclares
    exact hpasses.errors.subset (function_reported (.inl (huntyped hnoted)))
  | _ => cases hdeclares

/-! ### Programs -/

section Programs

variable (script : Script) (lines : LineMap) (header : Header) (imports : List ImportedType)
  (policy : ExportPolicy)

/-- Checking a program comes to taking the course `d`, in this context and from this session. -/
def Takes {β : Type} (d : Course β) (ctx : Context) (s : Session) : Prop :=
  let start := Session.ofHeader header imports
  let outer := moduleContext script lines header policy start.env
  d.Passes ctx s (courseOfStmts outer script.statements) outer
    (moduleStart outer start script.statements)

/-- Checking a program comes to these statements: those of the module, of a block or a clause, or of
the body of a function. The session is the one in which their names are not bound yet. -/
inductive Enters : Context → Session → List Stmt → Prop
  | module : Enters
      (moduleContext script lines header policy (Session.ofHeader header imports).env)
      ((Session.ofHeader header imports).enter (.ofKind .module)) script.statements
  | block {ctx : Context} {s : Session} {ss : List Stmt} :
      Takes script lines header imports policy
        (.bind (.step (.hoist ss)) fun _ => courseOfStmts ctx ss) ctx s →
      Enters ctx s ss
  | body {ctx : Context} {s : Session} {head : FunctionHead} {plan : FunctionPlan}
      {ss : List Stmt} :
      Takes script lines header imports policy
        (.function head plan ss (courseOfStmts (ctx.inside (plan.frame head)) ss)) ctx s →
      Enters (ctx.inside (plan.frame head))
        ((s.enter (.ofFunction plan.receiver)).declareParams (ctx.inside (plan.frame head))
          head.params plan.params) ss

variable {script lines header imports policy}

theorem Takes.lines_eq {β : Type} {d : Course β} {ctx : Context} {s : Session}
    (h : Takes script lines header imports policy d ctx s) : ctx.lines = lines :=
  Course.Passes.lines h

/-- What is reported on the way is among the diagnostics of the program. -/
theorem Takes.errors {β : Type} {d : Course β} {ctx : Context} {s : Session}
    (h : Takes script lines header imports policy d ctx s) :
    (d.after ctx s).errors ⊆ (verify script lines header imports policy).errors := by
  let start := Session.ofHeader header imports
  let outer := moduleContext script lines header policy start.env
  have hwalk : (d.after ctx s).errors ⊆ (checkModule outer start script.statements).errors := by
    rw [checkModule_after]
    exact (Course.Passes.errors h).subset
  exact List.Subset.trans hwalk (finish_errors outer _ _)

theorem Enters.lines_eq {ctx : Context} {s : Session} {ss : List Stmt}
    (h : Enters script lines header imports policy ctx s ss) : ctx.lines = lines := by
  cases h with
  | module => rfl
  | block htakes => exact htakes.lines_eq
  | body htakes => exact htakes.lines_eq

/-- The statements are checked once their names are bound. -/
theorem Enters.errors {ctx : Context} {s : Session} {ss : List Stmt}
    (h : Enters script lines header imports policy ctx s ss) :
    ((courseOfStmts ctx ss).after ctx (s.hoist ctx ss)).errors ⊆
      (verify script lines header imports policy).errors := by
  cases h with
  | module => exact Takes.errors (d := courseOfStmts _ script.statements) .here
  | block htakes => exact htakes.errors
  | @body ctx s head plan ss htakes =>
    have hleave := Session.leaveFunction_errors (ctx.inside (plan.frame head))
      ((courseOfStmts (ctx.inside (plan.frame head)) ss).after (ctx.inside (plan.frame head))
        (s.enterFunction (ctx.inside (plan.frame head)) head plan ss)) head plan ss
    exact List.Subset.trans hleave.subset htakes.errors

end Programs

/-- **Functions without a type are reported.** Wherever a walk comes to a list of statements, each
function that the list declares is reported at its line if nothing has bound its name when its turn
comes to be bound: neither what is known around the list (a header, a built-in value, a parameter,
a variable or a function), nor a variable of the list, nor a function before it. And wherever a walk
comes to a declared function, it is reported if its name is not known there. -/
theorem untyped_functions_reported (script : Script) (lines : LineMap) (header : Header)
    (imports : List ImportedType) (policy : ExportPolicy) :
    (∀ ctx s ss, Enters script lines header imports policy ctx s ss →
      ∀ before site after, declaredFunctions ss = before ++ site :: after →
        s.env.lookup? site.name = none →
        (∀ v ∈ varsOfStmts ss, v.name ≠ site.name) →
        (∀ g ∈ before, g.name ≠ site.name) →
        untypedFunction site.name (lines.lineNumber site.pos) ∈
          (verify script lines header imports policy).errors) ∧
    ∀ ctx s span name ps b,
      Takes script lines header imports policy ((Stmt.function span name ps b).course ctx) ctx s →
      s.env.lookup? name.text = none →
      untypedFunction name.text (lines.lineNumber span.pos) ∈
        (verify script lines header imports policy).errors := by
  constructor
  · intro ctx s ss henters before site after hsites haround hvars hbefore
    have hsite : site ∈ declaredFunctions ss := by
      rw [hsites]
      exact List.mem_append_right _ List.mem_cons_self
    have hnoted := s.hoist_untyped ctx hsites haround hvars hbefore
    have hline : ctx.line site.pos = lines.lineNumber site.pos := by
      rw [Context.line, henters.lines_eq]
    rw [← hline]
    exact henters.errors (listed_reported ctx hsite hnoted)
  · intro ctx s span name ps b htakes hfree
    have hline : ctx.line span.pos = lines.lineNumber span.pos := by
      rw [Context.line, htakes.lines_eq]
    rw [← hline]
    exact htakes.errors (function_reported (.inr hfree))

/-- A function inside a declared one, and one that is the body of a condition. -/
def looseText : String :=
  "function run() \x7b\n  function step() \x7b\x7d\n\x7d\nif (ready) function stop() \x7b\x7d"

/-- What the function `run` declares. -/
def looseBody : List Stmt :=
  [.function ⟨19, 37⟩ ⟨⟨28, 32⟩, "step", false⟩ [] (.mk ⟨35, 37⟩ [])]

/-- The program as read from its text. -/
def looseScript : Script where
  length := 69
  statements :=
    [.function ⟨0, 39⟩ ⟨⟨9, 12⟩, "run", false⟩ [] (.mk ⟨15, 39⟩ looseBody),
      .ifElse ⟨40, 69⟩ (.ident ⟨⟨44, 49⟩, "ready", false⟩)
        (.function ⟨51, 69⟩ ⟨⟨60, 64⟩, "stop", false⟩ [] (.mk ⟨67, 69⟩ [])) none]
  comments := []
  errors := []

/-- The header `run : () => void`, `ready : Boolean`. -/
def looseHeader : Header :=
  ⟨[.value ⟨"run", .function [] (.ofName "void") none, 1⟩,
    .value ⟨"ready", .ofName "Boolean", 2⟩]⟩

theorem untyped_functions_reported_loose :
    let errors := (verify looseScript (.ofText looseText) looseHeader [] {}).errors
    (∃ ctx s, Enters looseScript (.ofText looseText) looseHeader [] {} ctx s looseBody ∧
      s.env.lookup? "step" = none) ∧
    untypedFunction "step" 2 ∈ errors ∧ untypedFunction "stop" 4 ∈ errors := by
  let start := Session.ofHeader looseHeader []
  let outer := moduleContext looseScript (.ofText looseText) looseHeader {} start.env
  let s := moduleStart outer start looseScript.statements
  let head : FunctionHead := ⟨"run", 0, []⟩
  let declared := if s.untyped.contains 0 then none else s.typeOf? "run"
  let plan := planFunction s.env (outer.line 0) head declared
  let inner := outer.inside (plan.frame head)
  let ran := ((Stmt.function ⟨0, 39⟩ ⟨⟨9, 12⟩, "run", false⟩ []
    (.mk ⟨15, 39⟩ looseBody)).course outer).after outer s
  let asked := (Functor.discard
    ((Script.Expr.ident ⟨⟨44, 49⟩, "ready", false⟩).course outer .free)).after outer ran
  have hvisits : plan.visits = true := by decide +kernel
  have hbody : Takes looseScript (.ofText looseText) looseHeader [] {}
      (.function head plan looseBody (courseOfStmts inner looseBody)) outer
        (s.reportAll plan.errors) := by
    refine .first (.next (.first (.first (.next (.next ?_)))))
    show Course.Passes _ _ _ (if plan.visits = true then _ else _) _ _
    rw [if_pos hvisits]
    exact .first .here
  have hstop : Takes looseScript (.ofText looseText) looseHeader [] {}
      ((Stmt.function ⟨51, 69⟩ ⟨⟨60, 64⟩, "stop", false⟩ [] (.mk ⟨67, 69⟩ [])).course outer)
      outer asked := .next (.first (.next (.first .here)))
  have hstepFree : ((((s.reportAll plan.errors).enter (.ofFunction plan.receiver)).declareParams
      inner head.params plan.params).env.lookup? "step").isNone = true := by decide +kernel
  have hstopFree : (asked.env.lookup? "stop").isNone = true := by decide +kernel
  have hreported := untyped_functions_reported looseScript (.ofText looseText) looseHeader [] {}
  refine ⟨⟨_, _, .body hbody, Option.isNone_iff_eq_none.mp hstepFree⟩, ?_, ?_⟩
  · exact hreported.1 _ _ _ (.body hbody) [] ⟨"step", 19⟩ [] rfl
      (Option.isNone_iff_eq_none.mp hstepFree) nofun nofun
  · exact hreported.2 _ _ _ _ _ _ hstop (Option.isNone_iff_eq_none.mp hstopFree)

/-- A variable and a function of one name, which takes the type of the variable. -/
def sameNameText : String := "var f;\nfunction f() \x7b\x7d"

/-- The walk comes to the function, no header declares it, and it is not reported. -/
theorem shadowed_function_escapes :
    let script := Script.parse sameNameText
    script.errors = [] ∧ declaredFunctions script.statements = [⟨"f", 7⟩] ∧
      (∃ ctx s, Enters script (.ofText sameNameText) .empty [] {} ctx s script.statements) ∧
      (verify script (.ofText sameNameText) .empty [] {}).errors = [] := by
  exact ⟨by decide +kernel, by decide +kernel, ⟨_, _, .module⟩, by decide +kernel⟩

end Verify
end Countersign
