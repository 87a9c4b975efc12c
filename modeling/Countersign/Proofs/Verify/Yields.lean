/-
# What the walk through tidy types yields

A course yields what satisfies a predicate if it does so from every session with a tidy environment,
and if all environments that it comes to on its way are tidy as well. The course of an expression
yields a tidy type, so that a walk that starts with a tidy header never comes to an object type that
repeats the name of a field.

Key definitions: `Course.Yields`.
Key theorems: `Course.Yields.bind`, `Course.Yields.assign`, `Script.Expr.course_yields`,
`Session.ofHeader_tidy`, `reached_tidy`.
-/
import Countersign.Proofs.Header.Tidy
import Countersign.Proofs.Verify.Calm
import Countersign.Proofs.Verify.Tidy

namespace Countersign
namespace Verify

open Script (Expr Stmt courseOfStmts)

/-- None of the diagnostics says that a constructor leaves a field without a value. -/
def FieldFree (ds : List Diagnostic) : Prop := ∀ d ∈ ds, d.kind ≠ .missingFieldInConstructor

theorem FieldFree.nil : FieldFree [] := fun _ hd => absurd hd List.not_mem_nil

theorem FieldFree.append {ds ds' : List Diagnostic} (h : FieldFree ds) (h' : FieldFree ds') :
    FieldFree (ds ++ ds') := List.forall_mem_append.mpr ⟨h, h'⟩

theorem FieldFree.singleton {d : Diagnostic} (h : d.kind ≠ .missingFieldInConstructor) :
    FieldFree [d] := List.forall_mem_singleton.mpr h

theorem Ordinary.fieldFree {ds : List Diagnostic} (h : Ordinary ds) : FieldFree ds := by
  intro d hd hkind
  have hordinary := h d hd
  rw [hkind] at hordinary
  cases hordinary

/-- What a step reports that is nothing but a report. -/
def Step.reports : Step → List Diagnostic
  | report ds _ => ds
  | _ => []

/-- What the steps of a course report that are nothing but reports. -/
def Course.reports : {α : Type} → Course α → Context → Session → List Diagnostic
  | _, .pure _, _, _ => []
  | _, .bind c f, ctx, s =>
    c.reports ctx s ++ (f (c.value ctx s)).reports ctx (c.after ctx s)
  | _, .session, _, _ => []
  | _, .step st, _, _ => st.reports
  | _, .assign target _ line body, ctx, s =>
    let (demand, s') := (target.demand ctx line).run s
    (body demand).reports ctx s'
  | _, .inBlock c, ctx, s => c.reports ctx (s.enter (.ofKind .block))
  | _, .function head plan ss c, ctx, s =>
    let inner := ctx.inside (plan.frame head)
    c.reports inner (s.enterFunction inner head plan ss)

/-- From a session, the course only comes to tidy environments, reports no missing fields by a step
of its own, and gives what satisfies `P`. -/
structure Course.YieldsFrom {α : Type} (c : Course α) (ctx : Context) (s : Session)
    (P : α → Prop) : Prop where
  points : ∀ pt ∈ c.points ctx s, pt.2.env.Tidy
  reports : FieldFree (c.reports ctx s)
  value : P (c.value ctx s)

/-- So it does from every session with a tidy environment. -/
def Course.Yields {α : Type} (c : Course α) (ctx : Context) (P : α → Prop) : Prop :=
  ∀ s : Session, s.env.Tidy → c.YieldsFrom ctx s P

namespace Course.Yields

variable {α β : Type} {ctx : Context} {P : α → Prop} {Q : β → Prop} {s : Session}

theorem after {c : Course α} (h : c.Yields ctx P) (hs : s.env.Tidy) : (c.after ctx s).env.Tidy :=
  (h s hs).points _ (c.after_mem_points ctx s)

theorem pure {a : α} (h : P a) : (Pure.pure a : Course α).Yields ctx P :=
  fun _ hs => ⟨List.forall_mem_singleton.mpr hs, .nil, h⟩

theorem bind {c : Course α} {f : α → Course β} (hc : c.Yields ctx P)
    (hf : ∀ a, P a → (f a).Yields ctx Q) : (c >>= f).Yields ctx Q := by
  intro s hs
  have hfirst := hc s hs
  have hrest := hf _ hfirst.value _ (hc.after hs)
  exact ⟨List.forall_mem_append.mpr ⟨hfirst.points, hrest.points⟩,
    hfirst.reports.append hrest.reports, hrest.value⟩

theorem look {f : Session → Course α} (h : ∀ s, s.env.Tidy → (f s).Yields ctx P) :
    (session >>= f).Yields ctx P := fun s hs =>
  have hrest := h s.silent hs s hs
  ⟨List.forall_mem_cons.mpr ⟨hs, hrest.points⟩, hrest.reports, hrest.value⟩

theorem discard {c : Course α} (h : c.Yields ctx P) :
    (Functor.discard c).Yields ctx fun _ => True := h.bind fun _ _ => .pure trivial

theorem map {c : Course α} (g : α → β) (h : c.Yields ctx P) (hg : ∀ a, P a → Q (g a)) :
    (g <$> c).Yields ctx Q := h.bind fun a ha => .pure (hg a ha)

theorem ite {b : Prop} [Decidable b] {c d : Course α} (hc : c.Yields ctx P)
    (hd : d.Yields ctx P) : (if b then c else d).Yields ctx P := by
  split
  · exact hc
  · exact hd

theorem step {st : Step} (hreports : FieldFree st.reports)
    (h : ∀ s : Session, s.env.Tidy → (st.apply ctx s).env.Tidy) :
    (Course.step st).Yields ctx fun _ => True := fun s hs =>
  ⟨List.forall_mem_cons.mpr ⟨hs, List.forall_mem_singleton.mpr (h s hs)⟩, hreports, trivial⟩

theorem report {ds : List Diagnostic} {plain : ∀ d ∈ ds, d.isPlain = true} (h : FieldFree ds) :
    (Course.report ds plain).Yields ctx fun _ => True := step h fun _ => id

theorem inBlock {c : Course Unit} (h : c.Yields ctx fun _ => True) :
    (Course.inBlock c).Yields ctx fun _ => True := by
  intro s hs
  have hentered : (s.enter (.ofKind .block)).env.Tidy := hs.push (.ofKind .block)
  have hinside := h _ hentered
  exact ⟨forall_mem_between hs hinside.points (h.after hentered).pop, hinside.reports, trivial⟩

theorem function {head : FunctionHead} {plan : FunctionPlan} {ss : List Stmt} {c : Course Unit}
    (hplan : plan.Tidy) (h : c.Yields (ctx.inside (plan.frame head)) fun _ => True) :
    (Course.function head plan ss c).Yields ctx fun _ => True := by
  intro s hs
  let inner := ctx.inside (plan.frame head)
  have hentered : (s.enterFunction inner head plan ss).env.Tidy :=
    Session.enterFunction_tidy inner hs head hplan ss
  have hleft : ((Course.function head plan ss c).after ctx s).env.Tidy := by
    show (Session.leaveFunction inner _ head plan ss).env.Tidy
    rw [Session.leaveFunction_env]
    exact (h.after hentered).pop
  have hinside := h _ hentered
  exact ⟨forall_mem_between hs hinside.points hleft, hinside.reports, trivial⟩

/-- What an assignment gives is what was demanded, or else the type of the value. -/
theorem assign {target : Target} {e : Expr} {line : Nat} {body : Demand → Course Ty}
    (htarget : target.Tidy) (hctx : ctx.Tidy)
    (h : ∀ d : Demand, d.Tidy → (body d).Yields ctx Ty.Tidy) :
    (Course.assign target e line body).Yields ctx Ty.Tidy := by
  intro s hs
  obtain ⟨d, asking, fitting, hdemand, hrun⟩ := assign_told target e line body ctx s
  have hd : d.Tidy := by
    have htidy := Target.demand_tidy htarget hctx hs line
    rwa [hdemand] at htidy
  let asked := s.withAccount (s.account.add asking)
  have hbody := h d hd asked hs
  refine ⟨?_, ?_, ?_⟩
  · -- neither the question nor the answer touches the environment, only the value does
    have hafter : ((Course.assign target e line body).after ctx s).env.Tidy := by
      rw [Course.after, hrun, (target.complete_records _ _ _ _ _).env]
      exact (h d hd).after (s := asked) hs
    rw [points_assign hdemand]
    exact forall_mem_between hs hbody.points hafter
  · unfold reports
    rw [hdemand]
    exact hbody.reports
  · rw [Course.value, hrun]
    exact hd.given hbody.value

/-! ### Small courses -/

theorem nameType (name : String) (line : Nat) : (Course.nameType name line).Yields ctx Ty.Tidy := by
  refine .look fun s hs => ?_
  cases htype : s.typeOf? name with
  | none => exact .bind (.report (.singleton nofun)) fun _ _ => .pure Ty.tidy_any
  | some t =>
    obtain ⟨b, hb, rfl⟩ := Option.map_eq_some_iff.mp htype
    exact .pure (hs.lookup? hb)

theorem memberType {object : Ty} (h : object.Tidy) (text field : String) (line : Nat) :
    (Course.memberType object text field line).Yields ctx Ty.Tidy := by
  refine .look fun s hs => ?_
  have hresolved := hs.resolve h
  dsimp only
  split
  · rename_i fs hfs
    rw [hfs] at hresolved
    split
    · rename_i t ht
      exact .pure ((Ty.tidy_object_iff.mp hresolved).lookup ht)
    · exact .bind (.report (Ordinary.singleton rfl).fieldFree) fun _ _ => .pure Ty.tidy_any
  · rename_i ms hms
    rw [hms] at hresolved
    refine .pure (Ty.Tidy.getD (fun t ht => ?_) Ty.tidy_any)
    obtain ⟨m, hm, hfield⟩ := List.exists_of_findSome?_eq_some ht
    obtain ⟨fs, hfs, hlookup⟩ := Option.bind_eq_some_iff.mp hfield
    exact ((hs.resolve (hresolved.child hm)).asObject? hfs).lookup hlookup
  · refine .pure ?_
    split
    · exact Ty.tidy_ofName _
    · exact Ty.tidy_any

theorem settle {d : Demand} (hd : d.Tidy) (e : Expr) {actual : Ty} (h : actual.Tidy)
    (line : Nat) : (Course.settle d e actual line).Yields ctx Ty.Tidy := by
  cases d with
  | free => exact .pure h
  | «loose» => exact .pure h
  | derived => exact .pure h.widen
  | fit t name =>
    have ht : t.Tidy := hd t rfl
    exact .ite (.look fun _ _ => .bind (.report (mismatch?_ordinary _ _ _ _ _).fieldFree)
      fun _ _ => .pure ht) (.pure ht)

end Course.Yields

/-- The declared type of the exports, where they are looked at before anything was exported. -/
theorem unassignedExport?_tidy {ctx : Context} (h : ctx.Tidy) {s : Session} {t : Ty}
    (ht : ctx.unassignedExport? s = some t) : t.Tidy := by
  unfold Context.unassignedExport? at ht
  split at ht
  · cases ht
  · exact h.declared t ht

end Verify

/-! ### Courses of programs -/

namespace Script

open Verify

mutual

theorem Expr.course_yields : ∀ (e : Expr) (ctx : Context) (hint : Hint), ctx.Tidy → hint.Tidy →
    (e.course ctx hint).Yields ctx Ty.Tidy
  | .ident _, _, _, _, _ => .nameType _ _
  | .string _, _, _, _, _ => .pure (Ty.tidy_value _)
  | .number _, _, _, _, _ => .pure (Ty.tidy_value _)
  | .regex _ _, _, _, _, _ => .pure (Ty.tidy_ofName _)
  | .array _ es, ctx, hint, hctx, hhint => .look fun _ hs =>
    have hhints := elementHints_tidy hs hhint
    .bind (courseOfElements_yields es ctx _ _ hctx hhints.items hhints.rest) fun _ htypes =>
      .pure (arrayType_tidy _ hhint htypes)
  | .object _ ps, ctx, hint, hctx, hhint => .look fun _ hs =>
    .bind (courseOfProperties_yields ps ctx _ hctx (propertyHint_tidy hs hhint)) fun _ hfields =>
      .pure (Ty.tidy_objectOf hfields)
  | .member _ o n, ctx, _, hctx, _ => by
    refine .look fun s _ => ?_
    split
    · rename_i declared hdeclared
      refine .bind (.report (Ordinary.singleton rfl).fieldFree) fun _ _ => .pure ?_
      split at hdeclared
      · exact unassignedExport?_tidy hctx hdeclared
      · cases hdeclared
    · exact .bind (o.course_yields ctx .free hctx Hint.tidy_free) fun _ ho =>
        .memberType ho _ _ _
  | .index _ o i, ctx, _, hctx, _ =>
    .bind (o.course_yields ctx .free hctx Hint.tidy_free).discard fun _ _ =>
      .bind (i.course_yields ctx .free hctx Hint.tidy_free).discard fun _ _ => .pure Ty.tidy_any
  | .call _ c as, ctx, _, hctx, _ =>
    .bind (c.course_yields ctx .free hctx Hint.tidy_free) fun _ hcallee => .look fun _ hs =>
      have hsignature := fun f hf => (hs.resolve hcallee).asFunction? (f := f) hf
      .bind (.report (callErrors_ordinary _ _ _ _).fieldFree) fun _ _ =>
        .bind (courseOfArgs_yields as ctx _ hctx (FunctionTy.tidy_params hsignature)) fun _ _ =>
          .pure (FunctionTy.tidy_result hsignature)
  | .construct _ c _ as, ctx, _, hctx, _ =>
    .bind (c.course_yields ctx .free hctx Hint.tidy_free) fun _ hcallee => .look fun _ hs =>
      have hsignature := fun f hf => (hs.resolve hcallee).asFunction? (f := f) hf
      .bind (.report (callErrors_ordinary _ _ _ _).fieldFree) fun _ _ =>
        .bind (courseOfArgs_yields as ctx _ hctx (FunctionTy.tidy_params hsignature)) fun _ _ =>
          .pure (constructedType_tidy hsignature c)
  | .paren _ e, ctx, hint, hctx, hhint => e.course_yields ctx hint hctx hhint
  | .function _ _ _ b, ctx, hint, hctx, hhint => b.functionCourse_yields ctx _ hint.type hctx hhint
  | .wordOp _ .delete e, ctx, _, hctx, _ =>
    .bind (e.course_yields ctx .free hctx Hint.tidy_free).discard fun _ _ =>
      .pure (Ty.tidy_ofName _)
  | .wordOp _ .typeof e, ctx, _, hctx, _ => .look fun _ _ =>
    .ite (.bind (e.course_yields ctx .free hctx Hint.tidy_free).discard fun _ _ =>
      .pure (Ty.tidy_ofName _)) (.pure (Ty.tidy_ofName _))
  | .wordOp _ .void e, ctx, _, hctx, _ =>
    .bind (e.course_yields ctx .free hctx Hint.tidy_free).discard fun _ _ =>
      .pure (Ty.tidy_value _)
  | .before _ op e, ctx, _, hctx, _ =>
    .bind (e.course_yields ctx .free hctx Hint.tidy_free).discard fun _ _ => .pure (by
      split
      · exact Ty.tidy_ofName _
      · exact Ty.tidy_ofName _)
  | .after _ e _, ctx, _, hctx, _ =>
    .bind (e.course_yields ctx .free hctx Hint.tidy_free).discard fun _ _ =>
      .pure (Ty.tidy_ofName _)
  | .binary span l op r, ctx, hint, hctx, hhint => by
    have hl := fun hint => l.course_yields ctx hint hctx
    have hr := fun hint => r.course_yields ctx hint hctx
    unfold Expr.course
    cases operatorRule op with
    | assign =>
      refine .bind (l.targetCourse_yields ctx hctx) fun target htarget => ?_
      have hassign : (Course.assign target r (ctx.line span.pos) fun demand =>
          r.course ctx demand.hint).Yields ctx Ty.Tidy :=
        .assign htarget hctx fun demand hdemand => hr demand.hint hdemand
      cases target with
      | other => exact .bind (hl .free Hint.tidy_free).discard fun _ _ => hassign
      | _ => exact hassign
    | choice =>
      exact .bind (hl hint.part hhint) fun _ hleft => .bind (hr hint.part hhint) fun _ hright =>
        .pure (join_tidy (List.forall_mem_cons.mpr ⟨hleft, List.forall_mem_singleton.mpr hright⟩))
    | sequence =>
      exact .bind (hl .free Hint.tidy_free).discard fun _ _ => hr hint.part hhint
    | comparison =>
      exact .bind (hl .free Hint.tidy_free).discard fun _ _ =>
        .bind (hr .free Hint.tidy_free).discard fun _ _ => .pure (Ty.tidy_ofName _)
    | addition =>
      exact .bind (hl .free Hint.tidy_free) fun _ _ =>
        .bind (hr .free Hint.tidy_free) fun _ _ => .pure (sumType_tidy _ _)
    | arithmetic =>
      exact .bind (hl .free Hint.tidy_free).discard fun _ _ =>
        .bind (hr .free Hint.tidy_free).discard fun _ _ => .pure (Ty.tidy_ofName _)
  | .conditional _ t y n, ctx, hint, hctx, hhint =>
    .bind (t.course_yields ctx .free hctx Hint.tidy_free).discard fun _ _ =>
      .bind (y.course_yields ctx hint.part hctx hhint) fun _ hyes =>
        .bind (n.course_yields ctx hint.part hctx hhint) fun _ hno => .pure
          (join_tidy (List.forall_mem_cons.mpr ⟨hyes, List.forall_mem_singleton.mpr hno⟩))
  | .omitted _ _, _, _, _, _ => .pure (Ty.tidy_value _)
  | .this _, _, _, _, _ => .look fun _ hs => .pure (Ty.Tidy.getD hs.receiver? Ty.tidy_any)
  | .null _, _, _, _, _ => .pure (Ty.tidy_value _)
  | .boolean _ true, _, _, _, _ => .pure (Ty.tidy_value _)
  | .boolean _ false, _, _, _, _ => .pure (Ty.tidy_value _)
termination_by structural e => e

theorem Expr.targetCourse_yields : ∀ (e : Expr) (ctx : Context), ctx.Tidy →
    (e.targetCourse ctx).Yields ctx Target.Tidy
  | .paren _ e, ctx, hctx => e.targetCourse_yields ctx hctx
  | .ident _, _, _ => .pure trivial
  | .member _ o n, ctx, hctx => by
    unfold Expr.targetCourse
    cases exportTarget? o n.text with
    | some target =>
      cases target with
      | module => exact .pure trivial
      | property name => exact .pure trivial
    | none =>
      cases o.prototypeOf? with
      | some ctor => exact .pure trivial
      | none =>
        exact .bind (o.course_yields ctx .free hctx Hint.tidy_free) fun _ ho => .pure ho
  | .string _, _, _ => .pure trivial
  | .number _, _, _ => .pure trivial
  | .regex _ _, _, _ => .pure trivial
  | .array _ _, _, _ => .pure trivial
  | .object _ _, _, _ => .pure trivial
  | .index _ _ _, _, _ => .pure trivial
  | .call _ _ _, _, _ => .pure trivial
  | .construct _ _ _ _, _, _ => .pure trivial
  | .function _ _ _ _, _, _ => .pure trivial
  | .wordOp _ _ _, _, _ => .pure trivial
  | .before _ _ _, _, _ => .pure trivial
  | .after _ _ _, _, _ => .pure trivial
  | .binary _ _ _ _, _, _ => .pure trivial
  | .conditional _ _ _ _, _, _ => .pure trivial
  | .omitted _ _, _, _ => .pure trivial
  | .this _, _, _ => .pure trivial
  | .null _, _, _ => .pure trivial
  | .boolean _ _, _, _ => .pure trivial
termination_by structural e => e

theorem courseOfElements_yields : ∀ (es : List Expr) (ctx : Context) (items : List Ty)
    (rest : Option Ty), ctx.Tidy → (∀ t ∈ items, t.Tidy) → (∀ t ∈ rest, t.Tidy) →
    (courseOfElements ctx items rest es).Yields ctx fun ts => ∀ t ∈ ts, t.Tidy
  | [], _, _, _, _, _, _ => .pure nofun
  | e :: es, ctx, items, rest, hctx, hitems, hrest =>
    have hhint : Hint.Tidy { type := items.head?.or rest } := fun t ht =>
      (Option.or_eq_some_iff.mp ht).elim (fun hhead => hitems t (List.mem_of_head? hhead))
        fun hlast => hrest t hlast.2
    .bind (e.course_yields ctx _ hctx hhint) fun _ ht =>
      .bind (courseOfElements_yields es ctx _ rest hctx
        (fun t ht => hitems t (List.mem_of_mem_tail ht)) hrest) fun _ hts =>
          .pure (List.forall_mem_cons.mpr ⟨ht, hts⟩)
termination_by structural es => es

theorem courseOfProperties_yields : ∀ (ps : List Property) (ctx : Context)
    (hint : String → Hint), ctx.Tidy → (∀ key, (hint key).Tidy) →
    (courseOfProperties ctx hint ps).Yields ctx fun fs => ∀ f ∈ fs, f.2.Tidy
  | [], _, _, _, _ => .pure nofun
  | .mk _ name e :: ps, ctx, hint, hctx, hhint =>
    .bind (e.course_yields ctx _ hctx (hhint name.key)) fun _ ht =>
      .bind (courseOfProperties_yields ps ctx hint hctx hhint) fun _ hfs =>
        .pure (List.forall_mem_cons.mpr ⟨ht.widen, hfs⟩)
termination_by structural ps => ps

theorem courseOfArgs_yields : ∀ (es : List Expr) (ctx : Context)
    (params : List (Option String × Ty)), ctx.Tidy → (∀ p ∈ params, p.2.Tidy) →
    (courseOfArgs ctx params es).Yields ctx fun _ => True
  | [], _, _, _, _ => .pure trivial
  | e :: es, ctx, _, hctx, hparams =>
    have hdemand := argumentDemand_tidy fun q hq => hparams q (List.mem_of_head? hq)
    .bind (e.course_yields ctx _ hctx hdemand) fun _ hactual =>
      .bind (Course.Yields.settle hdemand e hactual _).discard fun _ _ =>
        courseOfArgs_yields es ctx _ hctx fun q hq => hparams q (List.mem_of_mem_tail hq)
termination_by structural es => es

theorem supplyCourse_yields : ∀ (e : Option Expr) (ctx : Context) (demand : Demand) (line : Nat),
    ctx.Tidy → demand.Tidy →
    (supplyCourse ctx demand line e).Yields ctx fun given => ∀ t ∈ given, t.Tidy
  | none, _, _, _, _, _ => .pure nofun
  | some e, ctx, _, line, hctx, hdemand =>
    .bind (e.course_yields ctx _ hctx hdemand) fun _ hactual =>
      (Course.Yields.settle hdemand e hactual line).map some fun _ ht _ hu =>
        Option.some.inj hu ▸ ht
termination_by structural e => e

theorem Block.functionCourse_yields : ∀ (b : Block) (ctx : Context) (head : FunctionHead)
    (declared : Option Ty), ctx.Tidy → (∀ t ∈ declared, t.Tidy) →
    (b.functionCourse ctx head declared).Yields ctx Ty.Tidy
  | .mk _ ss, ctx, head, declared, hctx, hdeclared => by
    refine .look fun s hs => .bind (.report (planFunction_ordinary _ _ _ _).fieldFree) fun _ _ => ?_
    have hplan := planFunction_tidy hs (ctx.line head.pos) head hdeclared
    exact .ite (.bind (.function hplan (courseOfStmts_yields ss _ (hctx.inside hplan head)))
      fun _ _ => .pure hplan.type) (.pure hplan.type)
termination_by structural b => b

theorem Stmt.course_yields : ∀ (s : Stmt) (ctx : Context), ctx.Tidy →
    (s.course ctx).Yields ctx fun _ => True
  | .declaration _ l, ctx, hctx => l.course_yields ctx hctx
  | .function span n ps b, ctx, hctx => by
    refine .look fun s hs => ?_
    have hdeclared : ∀ t ∈ (if s.untyped.contains span.pos then none else s.typeOf? n.text),
        t.Tidy := by
      intro t ht
      split at ht
      · cases ht
      · obtain ⟨b, hb, rfl⟩ := Option.map_eq_some_iff.mp ht
        exact hs.lookup? hb
    refine .bind (b.functionCourse_yields ctx _ _ hctx hdeclared).discard fun _ _ => ?_
    refine .ite (.step .nil fun s hs => ?_) (.pure trivial)
    exact (s.noteDeclaration_records ctx n.text _).env.symm ▸ hs
  | .block b, ctx, hctx => b.course_yields ctx hctx
  | .empty _, _, _ => .pure trivial
  | .expression _ e, ctx, hctx => (e.course_yields ctx .free hctx Hint.tidy_free).discard
  | .ifElse _ t y n, ctx, hctx =>
    .bind (t.course_yields ctx .free hctx Hint.tidy_free).discard fun _ _ =>
      .bind (y.course_yields ctx hctx) fun _ _ => courseOfStmt?_yields n ctx hctx
  | .doWhile _ b t, ctx, hctx =>
    .bind (b.course_yields ctx hctx) fun _ _ =>
      (t.course_yields ctx .free hctx Hint.tidy_free).discard
  | .whileDo _ t b, ctx, hctx =>
    .bind (t.course_yields ctx .free hctx Hint.tidy_free).discard fun _ _ =>
      b.course_yields ctx hctx
  | .forLoop _ i t u b, ctx, hctx => .inBlock <|
    .bind (i.course_yields ctx hctx) fun _ _ =>
      .bind (supplyCourse_yields t ctx .free 0 hctx Demand.tidy_free).discard fun _ _ =>
        .bind (supplyCourse_yields u ctx .free 0 hctx Demand.tidy_free).discard fun _ _ =>
          b.course_yields ctx hctx
  | .forIn _ i o b, ctx, hctx => .inBlock <|
    .bind (i.keysCourse_yields ctx hctx) fun _ _ =>
      .bind (o.course_yields ctx .free hctx Hint.tidy_free).discard fun _ _ =>
        b.course_yields ctx hctx
  | .continueTo _ _, _, _ => .pure trivial
  | .breakTo _ _, _, _ => .pure trivial
  | .returnWith _ v, ctx, hctx => .look fun s _ =>
    .bind (supplyCourse_yields v ctx _ _ hctx (returnDemand_tidy hctx s.env)) fun _ _ =>
      .report (returnErrors_ordinary _ _ _ _).fieldFree
  | .switchOn _ e cs, ctx, hctx =>
    .bind (e.course_yields ctx .free hctx Hint.tidy_free).discard fun _ _ =>
      courseOfClauses_yields cs ctx hctx
  | .labeled _ _ b, ctx, hctx => b.course_yields ctx hctx
  | .throwing _ e, ctx, hctx => (e.course_yields ctx .free hctx Hint.tidy_free).discard
  | .tryCatch _ b h f, ctx, hctx =>
    .bind (b.course_yields ctx hctx) fun _ _ => .bind (h.course_yields ctx hctx) fun _ _ =>
      courseOfBlock?_yields f ctx hctx
  | .debugger _, _, _ => .pure trivial
termination_by structural s => s

theorem courseOfStmts_yields : ∀ (ss : List Stmt) (ctx : Context), ctx.Tidy →
    (courseOfStmts ctx ss).Yields ctx fun _ => True
  | [], _, _ => .pure trivial
  | s :: ss, ctx, hctx =>
    .bind (s.course_yields ctx hctx) fun _ _ => courseOfStmts_yields ss ctx hctx
termination_by structural ss => ss

theorem courseOfStmt?_yields : ∀ (s : Option Stmt) (ctx : Context), ctx.Tidy →
    (courseOfStmt? ctx s).Yields ctx fun _ => True
  | none, _, _ => .pure trivial
  | some s, ctx, hctx => s.course_yields ctx hctx
termination_by structural s => s

theorem Block.course_yields : ∀ (b : Block) (ctx : Context), ctx.Tidy →
    (b.course ctx).Yields ctx fun _ => True
  | .mk _ ss, ctx, hctx => .inBlock <|
    .bind (.step .nil fun _ hs => Session.hoist_tidy ctx hs ss) fun _ _ =>
      courseOfStmts_yields ss ctx hctx
termination_by structural b => b

theorem courseOfBlock?_yields : ∀ (b : Option Block) (ctx : Context), ctx.Tidy →
    (courseOfBlock? ctx b).Yields ctx fun _ => True
  | none, _, _ => .pure trivial
  | some b, ctx, hctx => b.course_yields ctx hctx
termination_by structural b => b

theorem DeclList.course_yields : ∀ (l : DeclList) (ctx : Context), ctx.Tidy →
    (l.course ctx).Yields ctx fun _ => True
  | .mk _ kind ds, ctx, hctx => courseOfDecls_yields ds ctx kind hctx
termination_by structural l => l

theorem courseOfDecls_yields : ∀ (ds : List Decl) (ctx : Context) (kind : DeclKind), ctx.Tidy →
    (courseOfDecls ctx kind ds).Yields ctx fun _ => True
  | [], _, _, _ => .pure trivial
  | .mk _ name init :: ds, ctx, kind, hctx => .look fun s hs =>
    have hdeclared := headerType?_tidy hs ctx name.text
    .bind (supplyCourse_yields init ctx _ _ hctx (initialDemand_tidy hdeclared name.text))
      fun given hgiven =>
        have htype : ∀ t ∈ given.or (ctx.headerType? s.env name.text), t.Tidy := fun t ht =>
          (Option.or_eq_some_iff.mp ht).elim (hgiven t) fun hlast => hdeclared t hlast.2
        .bind (.step .nil fun _ hs => Session.declareResult_tidy hs kind _ _ htype) fun _ _ =>
          courseOfDecls_yields ds ctx kind hctx
termination_by structural ds => ds

theorem ForInit.course_yields : ∀ (i : ForInit) (ctx : Context), ctx.Tidy →
    (i.course ctx).Yields ctx fun _ => True
  | .none, _, _ => .pure trivial
  | .decls l, ctx, hctx => l.course_yields ctx hctx
  | .expr e, ctx, hctx => (e.course_yields ctx .free hctx Hint.tidy_free).discard
termination_by structural i => i

theorem ForInit.keysCourse_yields : ∀ (i : ForInit) (ctx : Context), ctx.Tidy →
    (i.keysCourse ctx).Yields ctx fun _ => True
  | .none, _, _ => .pure trivial
  | .decls l, ctx, _ => .step .nil fun _ hs => Session.declareKeys_tidy ctx hs l
  | .expr e, ctx, hctx => (e.course_yields ctx .free hctx Hint.tidy_free).discard
termination_by structural i => i

theorem courseOfClauses_yields : ∀ (cs : List Clause) (ctx : Context), ctx.Tidy →
    (courseOfClauses ctx cs).Yields ctx fun _ => True
  | [], _, _ => .pure trivial
  | .mk _ t ss :: cs, ctx, hctx =>
    .bind (supplyCourse_yields t ctx .free 0 hctx Demand.tidy_free).discard fun _ _ =>
      .bind (.inBlock (.bind (.step .nil fun _ hs => Session.hoist_tidy ctx hs ss) fun _ _ =>
        courseOfStmts_yields ss ctx hctx)) fun _ _ => courseOfClauses_yields cs ctx hctx
termination_by structural cs => cs

theorem Handler.course_yields : ∀ (h : Handler) (ctx : Context), ctx.Tidy →
    (h.course ctx).Yields ctx fun _ => True
  | .none, _, _ => .pure trivial
  | .catching _ _ b, ctx, hctx => .inBlock <|
    .bind (.step .nil fun _ hs => Session.declare_tidy hs Ty.tidy_any) fun _ _ =>
      b.course_yields ctx hctx
termination_by structural h => h

end

end Script

/-! ### Modules -/

namespace Env.Tidy

variable {env : Env}

theorem withAlias (h : env.Tidy) (name : String) {a : Alias} (ha : a.type.Tidy) :
    (env.withAlias name a).Tidy := by
  unfold Env.withAlias
  split
  · rename_i henv
    exact h.defineAlias ha henv
  · exact h

theorem withImport (h : env.Tidy) {i : ImportedType} (hi : i.type.Tidy) :
    (env.withImport i).Tidy := by
  unfold Env.withImport
  dsimp only
  split
  · exact h.withAlias _ hi
  · exact (h.withAlias _ hi).withAlias _ (Ty.tidy_renamed _ _)

theorem foldl {α : Type} {f : Env → α → Env} {as : List α}
    (hf : ∀ (env : Env), ∀ a ∈ as, env.Tidy → (f env a).Tidy) (h : env.Tidy) :
    (as.foldl f env).Tidy := by
  induction as generalizing env with
  | nil => exact h
  | cons a as ih =>
    exact ih (fun env b hb => hf env b (List.mem_cons_of_mem a hb))
      (hf env a List.mem_cons_self h)

end Env.Tidy

namespace Verify

open Script (courseOfStmts)

section Modules

variable {header : Header} {imports : List ImportedType} (hheader : header.Tidy)
  (himports : ∀ i ∈ imports, i.type.Tidy)

include hheader himports

theorem Session.ofHeader_tidy : (Session.ofHeader header imports).env.Tidy := by
  have himported : (imports.foldl Env.withImport (Env.initial.push (.ofKind .header))).Tidy :=
    .foldl (fun _ i hi henv => henv.withImport (himports i hi))
      (Env.Tidy.initial.push (.ofKind .header))
  refine foldl_tidy (fun s v hv hs => ?_)
    (.foldl (fun _ a ha henv => henv.withAlias _ (hheader.aliases a ha)) himported)
  unfold declareValue
  split
  · rename_i henv
    exact hs.modifyScope (hheader.values v hv) henv
  · exact hs

theorem moduleContext_tidy (script : Script) (lines : LineMap) (policy : ExportPolicy) :
    (moduleContext script lines header policy (Session.ofHeader header imports).env).Tidy := by
  refine ⟨fun t ht => ?_, nofun⟩
  obtain ⟨e, he, rfl⟩ := Option.map_eq_some_iff.mp ht
  have hexport := hheader.exportDefault? e he
  unfold exportType
  split
  · split
    · exact Ty.tidy_named _
    · refine Ty.Tidy.getD (fun u hu => ?_) (Ty.tidy_named _)
      obtain ⟨b, hb, rfl⟩ := Option.map_eq_some_iff.mp hu
      exact (Session.ofHeader_tidy hheader himports).lookupIn? hb
  · exact hexport

/-- **Walks only come to tidy environments** if the types of the header and the imports are tidy. -/
theorem reached_tidy {script : Script} {lines : LineMap} {policy : ExportPolicy} {ctx : Context}
    {s : Session} (h : Reached script lines header imports policy ctx s) : s.env.Tidy := by
  have hctx := moduleContext_tidy hheader himports script lines policy
  have hstart := Session.ofHeader_tidy hheader himports
  exact (Script.courseOfStmts_yields script.statements _ hctx _
    (Session.hoist_tidy _ (hstart.push (.ofKind .module)) _)).points _ h

end Modules
end Verify

end Countersign
