/-
# Values that are accepted part by part

A conditional has the joined class of its branches, and an object literal the classes of its
properties. Where each branch or property is accepted on its own, the whole is accepted if what the
parts lose does not matter: a literal value must not be spelled out by the type it is wanted with,
unless its class fits as well, and the type of a function has to fit itself.

Key definitions: `supplied`, `Accepted`, `AcceptedAll`.
Key theorems: `Accepted.widened`, `join_fits`, `inferProperties_fits`, `accepted_by_parts`.
-/
import Countersign.Proofs.Subtype.Widening
import Countersign.Proofs.Ty.Fields
import Countersign.Proofs.Verify.Balance

namespace Countersign
namespace Verify

open Script (Expr Property)
open Countersign.Subtype (SpellsOut isSubtype_widen isSubtype_unionOf isSubtype_object
  not_spellsOut_named resolve_of_step?_none)

/-- The type that an expression is given. -/
def inferred (ctx : Context) (hint : Hint) (e : Expr) (s : Session) : Ty :=
  ((e.infer ctx hint).run s).1

/-- The session after an expression was looked at. -/
def visited (ctx : Context) (hint : Hint) (e : Expr) (s : Session) : Session :=
  ((e.infer ctx hint).run s).2

/-- The session after a value was checked against a demand. -/
def supplied (ctx : Context) (d : Demand) (line : Nat) (e : Expr) (s : Session) : Session :=
  ((Script.supply? ctx d line (some e)).run s).2

/-- The type that is demanded of a value, if there is one. -/
def Demand.wanted? : Demand → Option Ty
  | .fit t _ => some t
  | _ => none

/-- A value meets a demand without a diagnostic, and so does what is left of it in a larger value:
the class of a literal value, and the declared type of a function. -/
structure Accepted (ctx : Context) (s : Session) (d : Demand) (line : Nat) (e : Expr) : Prop where
  quiet : (supplied ctx d line e s).errors = s.errors
  literal : ∀ v, inferred ctx d.hint e s = .value v → ∀ t ∈ d.wanted?,
    (¬ SpellsOut v t ∧ s.env.step? (.named v.widen) = none) ∨
      s.env.isSubtype (.named v.widen) t = .fits
  function : isFunction e = true → ∀ t ∈ d.wanted?, s.env.isSubtype t t = .fits

/-! ### Checking one value -/

section Value

variable {ctx : Context} {s : Session} {e : Expr} {t : Ty} {name : String} {line : Nat}

theorem visited_balanced (ctx : Context) (hint : Hint) (e : Expr) (s : Session) :
    s.Balanced (visited ctx hint e s) := e.infer_balanced ctx hint s

/-- Comparisons come out the same before and after an expression was looked at. -/
theorem visited_isSubtype (ctx : Context) (hint : Hint) (e : Expr) (s : Session) (a b : Ty) :
    (visited ctx hint e s).env.isSubtype a b = s.env.isSubtype a b :=
  Env.isSubtype_congr (visited_balanced ctx hint e s).env.aliases a b

theorem mismatch?_eq_none {env : Env} {described : String} {actual expected : Ty} :
    mismatch? env described actual expected line = none ↔
      env.isSubtype actual expected = .fits := by
  unfold mismatch?
  cases env.isSubtype actual expected <;> simp

/-- What is checked against a type is looked at, and compared unless it is a function. -/
theorem supplied_fit (ctx : Context) (t : Ty) (name : String) (line : Nat) (e : Expr)
    (s : Session) : supplied ctx (.fit t name) line e s =
      let after := visited ctx ⟨some t, name⟩ e s
      let actual := inferred ctx ⟨some t, name⟩ e s
      if isFunction e then after
      else after.reportAll (mismatch? after.env (describe e actual) actual t line).toList := by
  have hsupply : supplied ctx (.fit t name) line e s =
      (((Demand.fit t name).settle e (inferred ctx ⟨some t, name⟩ e s) line).run
        (visited ctx ⟨some t, name⟩ e s)).2 := rfl
  rw [hsupply, Demand.settle]
  cases isFunction e <;> rfl

/-- A value is checked without a diagnostic where looking at it reports nothing and, unless it is a
function, it fits. -/
theorem supplied_quiet : (supplied ctx (.fit t name) line e s).errors = s.errors ↔
    (visited ctx ⟨some t, name⟩ e s).errors = s.errors ∧
      (isFunction e = false →
        s.env.isSubtype (inferred ctx ⟨some t, name⟩ e s) t = .fits) := by
  rw [supplied_fit, ← visited_isSubtype ctx ⟨some t, name⟩ e s]
  dsimp only
  cases isFunction e with
  | true => simp
  | false =>
    obtain ⟨new, hnew⟩ := (visited_balanced ctx ⟨some t, name⟩ e s).errors
    rw [if_neg (by decide), Session.reportAll, ← hnew, List.append_assoc]
    simp [mismatch?_eq_none]

/-- What fits is only looked at. -/
theorem supplied_of_fits (h : isFunction e = false →
    s.env.isSubtype (inferred ctx ⟨some t, name⟩ e s) t = .fits) :
    supplied ctx (.fit t name) line e s = visited ctx ⟨some t, name⟩ e s := by
  rw [supplied_fit]
  dsimp only
  cases hfunction : isFunction e with
  | true => rfl
  | false =>
    have hfits := h hfunction
    rw [← visited_isSubtype ctx ⟨some t, name⟩ e s] at hfits
    rw [if_neg (by decide), mismatch?_eq_none.mpr hfits]
    exact congrArg (fun es => { visited ctx ⟨some t, name⟩ e s with errors := es })
      (List.append_nil _)

/-- What is checked without a diagnostic is only looked at. -/
theorem supplied_of_quiet {d : Demand} (h : (supplied ctx d line e s).errors = s.errors) :
    supplied ctx d line e s = visited ctx d.hint e s := by
  cases d with
  | fit t name => exact supplied_of_fits (supplied_quiet.mp h).2
  | _ => rfl

end Value

/-! ### Functions -/

/-- Checking a function gives the type in its plan, and reports at least what is in the plan. -/
theorem checkFunction_plan (b : Script.Block) (ctx : Context) (head : FunctionHead)
    (declared : Option Ty) (s : Session) :
    let plan := planFunction s.env (ctx.line head.pos) head declared
    ((b.checkFunction ctx head declared).run s).1 = plan.type ∧
      s.errors ++ plan.errors <+: ((b.checkFunction ctx head declared).run s).2.errors := by
  intro plan
  obtain ⟨span, ss⟩ := b
  let body : Course Ty := do
    if plan.visits then
      .function head plan ss (Script.courseOfStmts (ctx.inside (plan.frame head)) ss)
    pure plan.type
  have hcourse : (Script.Block.mk span ss).checkFunction ctx head declared =
      ((Script.Block.mk span ss).functionCourse ctx head declared).run ctx :=
    (Script.Block.functionCourse_isOf ctx.policy (.mk span ss) ctx head declared).symm
  have hrun : ((Script.Block.mk span ss).checkFunction ctx head declared).run s =
      (body.run ctx).run (s.reportAll plan.errors) := by
    rw [hcourse]
    rfl
  rw [hrun]
  refine ⟨?_, (body.balanced ctx (s.reportAll plan.errors)).errors⟩
  dsimp only [body]
  split <;> rfl

/-- Where nothing is wrong with a function as a whole, it is known by its declared type, which is
no literal value. -/
theorem planFunction_quiet {env : Env} {line : Nat} {head : FunctionHead} {t : Ty}
    (h : (planFunction env line head (some t)).errors = []) :
    (planFunction env line head (some t)).type = t ∧ t.widen = t := by
  have hvalue : ∀ v, t ≠ .value v := by
    rintro v rfl
    have hresolve : env.resolve (.value v) = .value v := resolve_of_step?_none rfl
    rw [planFunction, hresolve] at h
    cases h
  have hwiden : t.widen = t := by
    cases t with
    | value v => exact absurd rfl (hvalue v)
    | _ => rfl
  refine ⟨?_, hwiden⟩
  unfold planFunction at h ⊢
  dsimp only at h ⊢
  split_ifs at h ⊢ with hopen
  · rfl
  · split at h
    · cases h
    · split_ifs <;> rfl

/-- Parentheses are looked through. -/
theorem infer_skipParens (ctx : Context) (hint : Hint) (e : Expr) :
    e.skipParens.infer ctx hint = e.infer ctx hint := by
  fun_induction Expr.skipParens e with
  | case1 span inner ih => exact ih
  | case2 e hparen => rfl

/-- A function that is looked at without a diagnostic is known by the type it is wanted with. -/
theorem inferred_function {ctx : Context} {t : Ty} {name : String} {s : Session} {e : Expr}
    (hfunction : isFunction e = true)
    (hquiet : (visited ctx ⟨some t, name⟩ e s).errors = s.errors) :
    inferred ctx ⟨some t, name⟩ e s = t ∧ t.widen = t := by
  unfold isFunction at hfunction
  split at hfunction
  · rename_i span n ps b hskip
    let head : FunctionHead := ⟨(n.map (·.text)).getD name, span.pos, ps⟩
    have hrun : (e.infer ctx ⟨some t, name⟩).run s =
        (b.checkFunction ctx head (some t)).run s := by
      rw [← infer_skipParens, hskip]
      rfl
    obtain ⟨htype, herrors⟩ := checkFunction_plan b ctx head (some t) s
    rw [visited, hrun] at hquiet
    rw [hquiet] at herrors
    have hnone : (planFunction s.env (ctx.line head.pos) head (some t)).errors = [] :=
      List.append_right_eq_self.mp (herrors.sublist.antisymm (List.sublist_append_left _ _))
    obtain ⟨hplan, hwiden⟩ := planFunction_quiet hnone
    rw [inferred, hrun, htype]
    exact ⟨hplan, hwiden⟩
  · cases hfunction

/-! ### What is left of a part -/

section Parts

variable {ctx : Context} {s : Session} {d : Demand} {line : Nat} {e : Expr}

theorem Accepted.visited_errors (h : Accepted ctx s d line e) :
    (visited ctx d.hint e s).errors = s.errors := by
  rw [← supplied_of_quiet h.quiet]
  exact h.quiet

/-- What is left of an accepted part fits as the part does. -/
theorem Accepted.widened {t : Ty} {name : String} (h : Accepted ctx s (.fit t name) line e) :
    s.env.isSubtype (inferred ctx ⟨some t, name⟩ e s).widen t = .fits := by
  obtain ⟨hquiet, hfits⟩ := supplied_quiet.mp h.quiet
  cases hfunction : isFunction e with
  | true =>
    obtain ⟨htype, hwiden⟩ := inferred_function hfunction hquiet
    rw [htype, hwiden]
    exact h.function hfunction t rfl
  | false =>
    specialize hfits hfunction
    cases hactual : inferred ctx ⟨some t, name⟩ e s with
    | value v =>
      rw [hactual] at hfits
      rcases h.literal v hactual t rfl with ⟨hspells, hstep⟩ | hclass
      · exact isSubtype_widen hstep hspells hfits
      · exact hclass
    | _ =>
      rw [hactual] at hfits
      exact hfits

end Parts

/-! ### Conditionals -/

/-- What several types have in common fits where the class of each does. -/
theorem join_fits {env : Env} {ts : List Ty} {t : Ty}
    (h : ∀ u ∈ ts, env.isSubtype u.widen t = .fits) : env.isSubtype (join ts) t = .fits := by
  have hmembers : ∀ members : List Ty, (∀ m ∈ members, env.isSubtype m t = .fits) →
      env.isSubtype (joinMembers members ts) t = .fits := by
    induction ts with
    | nil => exact fun members hall => isSubtype_unionOf hall
    | cons u ts ih =>
      intro members hall
      have hu := h u List.mem_cons_self
      have hts := ih fun v hv => h v (List.mem_cons_of_mem u hv)
      rw [joinMembers]
      split
      · exact hu
      · split
        · exact hts members hall
        · exact hts _ (List.forall_mem_append.mpr ⟨hall, List.forall_mem_singleton.mpr hu⟩)
  exact hmembers [] fun m hm => absurd hm List.not_mem_nil

/-- The branches of a conditional are looked at after its test, one after the other. -/
theorem conditional_run (ctx : Context) (t : Ty) (name : String) (span : Span) (c x y : Expr)
    (s : Session) :
    let branch : Hint := ⟨some t, anonymous⟩
    let s₁ := visited ctx .free c s
    let s₂ := visited ctx branch x s₁
    ((Expr.conditional span c x y).infer ctx ⟨some t, name⟩).run s =
      (join [inferred ctx branch x s₁, inferred ctx branch y s₂], visited ctx branch y s₂) := rfl

/-! ### Object literals -/

/-- What is demanded of the property `key` of a literal that is wanted with these fields. -/
def propertyDemand (fields : List (String × Ty)) (key : String) : Demand :=
  match fields.lookup key with
  | none => .free
  | some t => .fit t key

/-- The key of a property. -/
def propertyKey : Property → String
  | .mk _ name _ => name.key

/-- The values of all properties are accepted, each in the session in which it is reached. -/
def AcceptedAll (ctx : Context) (fields : List (String × Ty)) (line : Nat) :
    List Property → Session → Prop
  | [], _ => True
  | .mk _ name e :: ps, s =>
    let d := propertyDemand fields name.key
    Accepted ctx s d line e ∧ AcceptedAll ctx fields line ps (supplied ctx d line e s)

theorem propertyHint_object (env : Env) (fields : List (String × Ty)) (key : String) :
    propertyHint env (some (.object fields)) key = (propertyDemand fields key).hint := by
  have hresolve : env.resolve (.object fields) = .object fields := resolve_of_step?_none rfl
  unfold propertyHint propertyDemand
  rw [Option.map_some, hresolve]
  dsimp only [Ty.asObject?]
  cases fields.lookup key <;> rfl

section Properties

variable {ctx : Context} {fields : List (String × Ty)} {line : Nat}

/-- Of properties that are accepted nothing is reported, and each that is wanted fits. -/
theorem inferProperties_fits {hint : String → Hint}
    (hhint : ∀ key, hint key = (propertyDemand fields key).hint) (ps : List Property)
    (s : Session) (h : AcceptedAll ctx fields line ps s) :
    let r := (Script.inferProperties ctx hint ps).run s
    r.2.errors = s.errors ∧ r.1.map (·.1) = ps.map propertyKey ∧
      ∀ f ∈ r.1, ∀ t, fields.lookup f.1 = some t → s.env.isSubtype f.2 t = .fits := by
  induction ps generalizing s with
  | nil => exact ⟨rfl, rfl, fun f hf => absurd hf List.not_mem_nil⟩
  | cons p ps ih =>
    obtain ⟨span, name, e⟩ := p
    obtain ⟨hfirst, hrest⟩ := h
    have hafter := supplied_of_quiet hfirst.quiet
    rw [hafter] at hrest
    obtain ⟨herrors, hkeys, hfits⟩ := ih _ hrest
    have hrun : (Script.inferProperties ctx hint (.mk span name e :: ps)).run s =
        let d := propertyDemand fields name.key
        let r := (Script.inferProperties ctx hint ps).run (visited ctx d.hint e s)
        ((name.key, (inferred ctx d.hint e s).widen) :: r.1, r.2) := by
      dsimp only
      rw [← hhint]
      rfl
    dsimp only
    rw [hrun]
    refine ⟨herrors.trans hfirst.visited_errors, congrArg (name.key :: ·) hkeys, ?_⟩
    refine List.forall_mem_cons.mpr ⟨fun t ht => ?_, fun f hf t ht => ?_⟩
    · have hdemand : propertyDemand fields name.key = .fit t name.key := by
        rw [propertyDemand, ht]
      dsimp only
      rw [hdemand] at hfirst ⊢
      exact hfirst.widened
    · rw [← visited_isSubtype ctx (propertyDemand fields name.key).hint e s]
      exact hfits f hf t ht

end Properties

/-! ### Parts and wholes in an empty module -/

/-- An empty module. -/
def emptyContext : Context := moduleContext (Script.parse "") (.ofText "") ⟨[]⟩ {} Env.initial

/-- The session in which it starts. -/
def emptySession : Session := { env := Env.initial }

/-- What is reported of a value there. -/
def complaints (t : Ty) (e : Expr) : List Diagnostic :=
  (supplied emptyContext (.fit t anonymous) 1 e emptySession).errors

/-- The literal of a text in single quotes. -/
def textLiteral (text : String) : Expr := .string ⟨default, text, true⟩

/-- The type of that literal. -/
def textType (text : String) : Ty := stringType ⟨default, text, true⟩

/-- The type of two texts that are spelled out. -/
def methods : Ty := .unionOf [textType "GET", textType "POST"]

/-- The choice between two values by `true`. -/
def choice (x y : Expr) : Expr := .conditional default (.boolean default true) x y

/-- A property by a plain key. -/
def property (key : String) (e : Expr) : Property := .mk default (.ident ⟨default, key, false⟩) e

/-- The literal of a number. -/
def numberLiteral (digits : String) : Expr := .number ⟨default, digits, false, false, false⟩

/-- The assignment of a number to the exports of the module. -/
def exporting (digits : String) : Expr :=
  .binary default (.member default (.ident ⟨default, "module", false⟩) ⟨default, "exports", false⟩)
    (.mark .assign) (numberLiteral digits)

/-- A function of one parameter with an empty body. -/
def ignoring : Expr :=
  .function default none [⟨default, ⟨default, "a", false⟩⟩] (.mk default [])

/-- The type of a function whose parameter is of a type that does not fit itself. -/
def unfitting : Ty :=
  .function [(none, .intersection [.union [.ofName "Number", .ofName "String"], .ofName "Object"])]
    .void none

/-- A literal value is accepted where it is not spelled out. -/
theorem accepted_literal {ctx : Context} {s : Session} {t : Ty} {name : String} {line : Nat}
    {e : Expr} {v : Value} (hquiet : (supplied ctx (.fit t name) line e s).errors = s.errors)
    (hfunction : isFunction e = false) (hvalue : inferred ctx ⟨some t, name⟩ e s = .value v)
    (hspells : ¬ SpellsOut v t) (hstep : s.env.step? (.named v.widen) = none) :
    Accepted ctx s (.fit t name) line e := by
  refine ⟨hquiet, fun w hw u hu => .inl ?_, fun h => by rw [hfunction] at h; cases h⟩
  obtain rfl : v = w := Ty.value.inj (hvalue.symm.trans hw)
  obtain rfl : t = u := Option.some.inj hu
  exact ⟨hspells, hstep⟩

/-- The type of texts and numbers. -/
def textOrNumber : Ty := .unionOf [.ofName "String", .ofName "Number"]

theorem not_spellsOut_textOrNumber {v : Value} (hkind : v.kind ≠ .undefined) : ¬ SpellsOut v textOrNumber := by
  rintro (_ | _ | ⟨hm, h⟩)
  rcases List.mem_pair.mp hm with rfl | rfl
  · exact not_spellsOut_named hkind _ h
  · exact not_spellsOut_named hkind _ h

/-- **Values are accepted part by part.** A conditional reports nothing beyond what its test does
where each branch is accepted when it is reached. An object literal that supplies every wanted field
reports nothing where each of its properties is accepted when it is reached. -/
theorem accepted_by_parts (ctx : Context) (line : Nat) (s : Session) :
    (∀ (t : Ty) (name : String) (span : Span) (c x y : Expr),
      let branch : Demand := .fit t anonymous
      let s₁ := visited ctx .free c s
      let s₂ := supplied ctx branch line x s₁
      Accepted ctx s₁ branch line x → Accepted ctx s₂ branch line y →
        (supplied ctx (.fit t name) line (.conditional span c x y) s).errors = s₁.errors) ∧
    ∀ (fields : List (String × Ty)) (name : String) (span : Span) (ps : List Property),
      (fields.map (·.1)).Nodup → (∀ f ∈ fields, f.1 ∈ ps.map propertyKey) →
        AcceptedAll ctx fields line ps s →
          (supplied ctx (.fit (.object fields) name) line (.object span ps) s).errors =
            s.errors := by
  refine ⟨?_, ?_⟩
  · intro t name span c x y branch s₁ s₂ hx hy
    have hs₂ : s₂ = visited ctx branch.hint x s₁ := supplied_of_quiet hx.quiet
    have hrun := conditional_run ctx t name span c x y s
    dsimp only at hrun
    rw [← show s₂ = visited ctx ⟨some t, anonymous⟩ x s₁ from hs₂] at hrun
    have hjoin : s.env.isSubtype (inferred ctx ⟨some t, name⟩ (.conditional span c x y) s) t =
        .fits := by
      rw [inferred, hrun, ← visited_isSubtype ctx .free c s]
      refine join_fits (List.forall_mem_cons.mpr ⟨hx.widened, List.forall_mem_singleton.mpr ?_⟩)
      rw [← visited_isSubtype ctx branch.hint x s₁, ← hs₂]
      exact hy.widened
    rw [supplied_of_fits fun _ => hjoin, visited, hrun]
    exact hy.visited_errors.trans hx.quiet
  · intro fields name span ps hnodup hsupplies hall
    have hhint := propertyHint_object s.env fields
    obtain ⟨herrors, hkeys, hfits⟩ := inferProperties_fits hhint ps s hall
    refine supplied_quiet.mpr ⟨herrors, fun _ => isSubtype_object fun f hf => ?_⟩
    have hbound : f.1 ∈ _ := hkeys ▸ hsupplies f hf
    obtain ⟨t, hgiven, hlookup⟩ := Ty.collect_bound hbound
    exact ⟨t, hlookup, hfits (f.1, t) hgiven f.2 (Ty.lookup_of_mem hnodup hf)⟩

theorem accepted_by_parts_textOrNumber :
    complaints textOrNumber (choice (textLiteral "GET") (numberLiteral "1")) = [] ∧
      complaints (.object [("method", .ofName "String"), ("body", textOrNumber)]) (.object default
        [property "method" (textLiteral "GET"), property "body" (numberLiteral "1")]) = [] := by
  obtain ⟨hconditional, hobject⟩ := accepted_by_parts emptyContext 1 emptySession
  refine ⟨hconditional textOrNumber anonymous default _ _ _ ?_ ?_,
    hobject _ anonymous default _ (by decide) (by decide +kernel) ⟨?_, ?_, trivial⟩⟩
  · exact accepted_literal (by decide +kernel) rfl rfl (not_spellsOut_textOrNumber (by decide)) rfl
  · exact accepted_literal (by decide +kernel) rfl rfl (not_spellsOut_textOrNumber (by decide)) rfl
  · exact accepted_literal (by decide +kernel) rfl rfl (not_spellsOut_named (by decide) _) rfl
  · exact accepted_literal (by decide +kernel) rfl rfl (not_spellsOut_textOrNumber (by decide)) rfl

/-- Parts that are accepted in one and the same session do not always make up an accepted whole:
where the wanted type spells out a value, as a branch or as a property; where looking at the first
part changes what is reported of the second; where a function is wanted with a type that does not
fit itself; and where a property that is not wanted has something wrong with it. -/
theorem accepted_parts_refused_whole :
    (complaints methods (textLiteral "GET") = [] ∧ complaints methods (textLiteral "POST") = [] ∧
      complaints methods (choice (textLiteral "GET") (textLiteral "POST")) ≠ [] ∧
      complaints (.object [("method", methods)])
        (.object default [property "method" (textLiteral "GET")]) ≠ []) ∧
    (complaints (.ofName "Number") (exporting "1") = [] ∧
      complaints (.ofName "Number") (exporting "2") = [] ∧
      complaints (.ofName "Number") (choice (exporting "1") (exporting "2")) ≠ [] ∧
      complaints (.object [("a", .ofName "Number"), ("b", .ofName "Number")])
        (.object default [property "a" (exporting "1"), property "b" (exporting "2")]) ≠ []) ∧
    (complaints unfitting ignoring = [] ∧ complaints unfitting (choice ignoring ignoring) ≠ [] ∧
      complaints (.object [("f", unfitting)])
        (.object default [property "f" ignoring]) ≠ []) ∧
    complaints (.object [])
      (.object default [property "size" (.ident ⟨default, "missing", false⟩)]) ≠ [] := by
  decide +kernel

end Verify
end Countersign
