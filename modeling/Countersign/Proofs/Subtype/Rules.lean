/-
# The rules of subtyping

What one step of a comparison asks for, as data: nothing, the comparison of some parts, of one of
several, or of what two names stand for. A comparison carries out its rule and nothing else
(`decision_succ`), whatever it reports about a mismatch, and gives back the assumptions it was given.

Two types are compatible under a system of rules if some relation that holds between them is
consistent with the rules; this is the greatest such relation. Types that are not compatible fail
within finitely many steps.

Key definitions: `Rule`, `rule`, `decision`, `Compatible`, `FailsWithin`.
Key theorems: `decision_succ`, `compatible_iff`, `decision_mono`, `decision_ne_false`.
-/
import Countersign.Subtype
import Mathlib.Tactic

namespace Countersign

/-- Whether types fit, if that is decided. -/
def Verdict.decision : Verdict → Option Bool
  | .fits => some true
  | .differs _ => some false
  | .undecided => none

theorem Verdict.decision_eq_true {v : Verdict} : v.decision = some true ↔ v = .fits := by
  cases v <;> simp [Verdict.decision]

theorem Verdict.decision_eq_none {v : Verdict} : v.decision = none ↔ v = .undecided := by
  cases v <;> simp [Verdict.decision]

namespace Subtype

/-- What one step of a comparison asks for. -/
inductive Rule where
  /-- The types fit as they are. -/
  | fits
  /-- The types do not fit. -/
  | differs
  /-- All parts fit; a part that is missing fits nothing. -/
  | all (parts : List (Option (Ty × Ty)))
  /-- One of the choices fits. -/
  | any (choices : List (Ty × Ty))
  /-- What the types stand for fits. -/
  | expand (actual expected : Ty)

/-- One part that must fit. -/
def Rule.just (actual expected : Ty) : Rule := .all [some (actual, expected)]

/-- Receivers the other way round, where both functions declare one. -/
def receiverParts : Option Ty → Option Ty → List (Ty × Ty)
  | some a, some e => [(e, a)]
  | _, _ => []

/-- Receivers, parameters and results of functions, the first two the other way round. -/
def functionParts (actual expected : FunctionTy) : List (Ty × Ty) :=
  receiverParts actual.receiver expected.receiver ++
  (actual.params.zip expected.params).map (fun p => (p.2.2, p.1.2)) ++
  (if expected.result.isVoid then [] else [(actual.result, expected.result)])

/-- What a tuple asks for where a generic class is expected: an array fits if all its items do. -/
def itemsRule (items : List Ty) : Bool → List Ty → Rule
  | true, [item] => .all (items.map fun t => some (t, item))
  | _, _ => .differs

/-- What types ask for by their outermost nodes. -/
def structureRule (actual expected : Ty) : Rule :=
  match actual, expected with
  | .object fs, .object gs => .all (gs.map fun g => (fs.lookup g.1).map (·, g.2))
  | .function ps r t, .function qs s u =>
    if ps.length == qs.length then .all ((functionParts ⟨ps, r, t⟩ ⟨qs, s, u⟩).map some)
    else .differs
  | .generic b as, .generic c bs =>
    if b.literalName == c.literalName && as.length == bs.length then .all ((as.zip bs).map some)
    else .differs
  | .tuple ts, .tuple us =>
    if ts.length == us.length then .all ((ts.zip us).map some) else .differs
  | .tuple ts, .generic b args => itemsRule ts (b.isBuiltin "Array") args
  | .named c, .generic b _ => if sameContainer (.named c) b then .fits else .differs
  | a, .named c => if fitsClass a (.named c) then .fits else .differs
  | _, _ => .differs

/-- Names ask for what they stand for, and all other types for what their nodes say. -/
def resolvedRule (env : Env) (actual expected : Ty) : Rule :=
  if env.settled actual && env.settled expected then structureRule actual expected
  else .expand (env.resolve actual) (env.resolve expected)

/-- What the comparison of two types asks for. -/
def rule (env : Env) (actual expected : Ty) : Rule :=
  if actual.isAny || expected.isAny then .fits
  else
    match actual, expected with
    | .moduleExports t, e => .just t e
    | a, .moduleExports t => .just a t
    | .value v, .value w => if v == w then .fits else .differs
    | .union ms, e => .all (ms.map fun m => some (m, e))
    | a, .union ms => .any (ms.map (a, ·))
    | a, .intersection ms => .all (ms.map fun m => some (a, m))
    | .intersection ms, e => .any (ms.map (·, e))
    | .value v, e => if v.kind == .undefined && e.isVoid then .fits else .just (.named v.widen) e
    | .renamed _ s, e => .just (.named s) e
    | a, .renamed _ s => .just a (.named s)
    | .named c, .named d => if c == d then .fits else resolvedRule env (.named c) (.named d)
    | a, e => resolvedRule env a e

/-! ### Carrying out a rule -/

/-- All decisions in order, up to the first that is not for the types. -/
def allOf : List (Option Bool) → Option Bool
  | [] => some true
  | some true :: os => allOf os
  | o :: _ => o

/-- The decisions in order, up to the first that is not against the types. -/
def anyOf : List (Option Bool) → Option Bool
  | [] => some false
  | some false :: os => anyOf os
  | o :: _ => o

/-- Decides by the rule, where `ask` decides about the parts. -/
def Rule.decide (ask : Ty → Ty → Assumed → Option Bool) (given : Assumed) : Rule → Option Bool
  | .fits => some true
  | .differs => some false
  | .all parts => allOf (parts.map fun part => part.elim (some false) fun p => ask p.1 p.2 given)
  | .any choices => anyOf (choices.map fun p => ask p.1 p.2 given)
  | .expand a e =>
    if given.contains (a.source, e.source) then some true
    else ask a e ((a.source, e.source) :: given)

/-- The decision about two types at a depth, under assumptions. -/
def decision (env : Env) (depth : Nat) (actual expected : Ty) (given : Assumed) : Option Bool :=
  (check env depth actual expected given).1.decision

/-- Under `given` the comparison comes to this decision and gives the assumptions back. -/
def Decides (c : Comparison) (given : Assumed) (o : Option Bool) : Prop :=
  (c given).1.decision = o ∧ (c given).2 = given

section Decides

variable {c : Comparison} {given : Assumed} {o : Option Bool}

theorem decides_fits : Decides .fits given (some true) := ⟨rfl, rfl⟩

theorem decides_differs (m : Mismatch) : Decides (.differs m) given (some false) := ⟨rfl, rfl⟩

theorem Decides.mapMismatch (h : Decides c given o) (f : Mismatch → Mismatch) :
    Decides (c.mapMismatch f) given o := by
  constructor
  · rw [← h.1]
    show ((c given).1.mapMismatch f).decision = (c given).1.decision
    cases (c given).1 <;> rfl
  · exact h.2

theorem decides_all {cs : List Comparison} {os : List (Option Bool)}
    (h : List.Forall₂ (fun c o => Decides c given o) cs os) :
    Decides (Comparison.all cs) given (allOf os) := by
  induction h with
  | nil => exact ⟨rfl, rfl⟩
  | @cons c o cs os hc _ ih =>
    obtain ⟨hdecision, hgiven⟩ := hc
    unfold Decides Comparison.all
    rcases hv : c given with ⟨v, after⟩
    rw [hv] at hdecision hgiven
    obtain rfl : after = given := hgiven
    cases v with
    | fits =>
      obtain rfl : some true = o := hdecision
      exact ih
    | differs m =>
      obtain rfl : some false = o := hdecision
      exact ⟨rfl, rfl⟩
    | undecided =>
      obtain rfl : none = o := hdecision
      exact ⟨rfl, rfl⟩

theorem decides_any (m : Mismatch) {cs : List Comparison} {os : List (Option Bool)}
    (h : List.Forall₂ (fun c o => Decides c given o) cs os) :
    Decides (Comparison.any m cs) given (anyOf os) := by
  induction h with
  | nil => exact ⟨rfl, rfl⟩
  | @cons c o cs os hc _ ih =>
    obtain ⟨hdecision, hgiven⟩ := hc
    unfold Decides Comparison.any
    rcases hv : c given with ⟨v, after⟩
    rw [hv] at hdecision hgiven
    obtain rfl : after = given := hgiven
    cases v with
    | fits =>
      obtain rfl : some true = o := hdecision
      exact ⟨rfl, rfl⟩
    | differs m =>
      obtain rfl : some false = o := hdecision
      exact ih
    | undecided =>
      obtain rfl : none = o := hdecision
      exact ⟨rfl, rfl⟩

end Decides

/-- The comparison of the parts decides what `ask` says, whatever is assumed. -/
def Answers (sub : Ty → Ty → Comparison) (ask : Ty → Ty → Assumed → Option Bool) : Prop :=
  ∀ a e given, Decides (sub a e) given (ask a e given)

section Answers

variable {sub : Ty → Ty → Comparison} {ask : Ty → Ty → Assumed → Option Bool}

/-- A single part is decided as it is asked for. -/
theorem decide_just {given : Assumed} (a e : Ty) :
    (Rule.just a e).decide ask given = ask a e given := by
  simp only [Rule.just, Rule.decide, List.map_cons, List.map_nil, Option.elim]
  rcases ask a e given with _ | _ | _ <;> rfl

theorem Answers.just (h : Answers sub ask) (a e : Ty) (given : Assumed) :
    Decides (sub a e) given ((Rule.just a e).decide ask given) := by
  rw [decide_just]
  exact h a e given

theorem Answers.pairwise (h : Answers sub ask) (segment : Nat → String) (given : Assumed) :
    ∀ i ts us, List.Forall₂ (fun c o => Decides c given o) (Subtype.pairwise sub segment i ts us)
      ((ts.zip us).map fun p => ask p.1 p.2 given)
  | i, t :: ts, u :: us =>
    .cons ((h t u given).mapMismatch _) (Answers.pairwise h segment given (i + 1) ts us)
  | _, [], _ => .nil
  | _, _ :: _, [] => .nil

theorem Answers.fields (h : Answers sub ask) (m : Mismatch) (fs : List (String × Ty))
    (given : Assumed) : ∀ gs, List.Forall₂ (fun c o => Decides c given o) (compareFields sub m fs gs)
      ((gs.map fun g => (fs.lookup g.1).map (·, g.2)).map fun part =>
        part.elim (some false) fun p => ask p.1 p.2 given)
  | [] => .nil
  | (name, expected) :: gs => by
    refine .cons ?_ (Answers.fields h m fs given gs)
    show Decides _ given (((fs.lookup name).map (·, expected)).elim (some false) fun p =>
      ask p.1 p.2 given)
    cases fs.lookup name with
    | none => exact decides_differs _
    | some t => exact (h t expected given).mapMismatch _

theorem Answers.params (h : Answers sub ask) (given : Assumed) : ∀ i ps qs,
    List.Forall₂ (fun c o => Decides c given o) (compareParams sub i ps qs)
      (((ps.zip qs).map fun p => (p.2.2, p.1.2)).map fun p => ask p.1 p.2 given)
  | i, (_, a) :: ps, (_, e) :: qs =>
    .cons ((h e a given).mapMismatch _) (Answers.params h given (i + 1) ps qs)
  | _, [], _ => .nil
  | _, _ :: _, [] => .nil

theorem Answers.receivers (h : Answers sub ask) (given : Assumed) (t u : Option Ty) :
    List.Forall₂ (fun c o => Decides c given o) (compareReceivers sub t u)
      ((receiverParts t u).map fun p => ask p.1 p.2 given) := by
  rcases t with _ | a
  · exact .nil
  · rcases u with _ | e
    · exact .nil
    · exact .cons ((h e a given).mapMismatch _) .nil

theorem Answers.results (h : Answers sub ask) (given : Assumed) (r s : Ty) :
    List.Forall₂ (fun c o => Decides c given o) (compareResults sub r s)
      ((if s.isVoid then [] else [(r, s)]).map fun p => ask p.1 p.2 given) := by
  unfold compareResults
  split
  · exact .nil
  · exact .cons ((h r s given).mapMismatch _) .nil

theorem Answers.functions (h : Answers sub ask) (m : Mismatch) (f g : FunctionTy)
    (given : Assumed) : Decides (compareFunctions sub m f g) given
      ((if f.params.length == g.params.length then Rule.all ((functionParts f g).map some)
        else .differs).decide ask given) := by
  unfold compareFunctions FunctionTy.arity
  split
  · have hparts : (Rule.all ((functionParts f g).map some)).decide ask given =
        allOf ((functionParts f g).map fun p => ask p.1 p.2 given) := by
      simp only [Rule.decide, List.map_map]
      rfl
    rw [hparts, functionParts, List.map_append, List.map_append]
    exact decides_all (List.rel_append (List.rel_append (h.receivers given _ _)
      (h.params given 0 _ _)) (h.results given _ _))
  · exact decides_differs m

theorem decide_all_some (given : Assumed) (ps : List (Ty × Ty)) :
    (Rule.all (ps.map some)).decide ask given = allOf (ps.map fun p => ask p.1 p.2 given) := by
  simp only [Rule.decide, List.map_map]
  rfl

theorem zip_map_const (ts : List Ty) (item : Ty) :
    ts.zip (ts.map fun _ => item) = ts.map fun t => (t, item) := by
  induction ts with
  | nil => rfl
  | cons t ts ih => rw [List.map_cons, List.zip_cons_cons, ih, List.map_cons]

theorem structureRule_named (a : Ty) (c : ClassName) :
    structureRule a (.named c) = if fitsClass a (.named c) then .fits else .differs := by
  cases a <;> rfl

theorem Answers.structure (h : Answers sub ask) (a e : Ty) (given : Assumed) :
    Decides (compareStructure sub a e) given ((structureRule a e).decide ask given) := by
  unfold compareStructure
  dsimp only
  split
  case h_1 fs gs => exact decides_all (h.fields _ _ given _)
  case h_2 ps r t qs s u => exact (h.functions _ _ _ given).mapMismatch _
  case h_3 b as c bs =>
    rw [structureRule]
    split
    · rw [decide_all_some]
      exact decides_all (h.pairwise _ given 0 _ _)
    · exact decides_differs _
  case h_4 ts us =>
    rw [structureRule]
    split
    · rw [decide_all_some]
      exact decides_all (h.pairwise _ given 0 _ _)
    · exact decides_differs _
  case h_5 ts b args =>
    show Decides _ given ((itemsRule ts (b.isBuiltin "Array") args).decide ask given)
    cases b.isBuiltin "Array" with
    | false => exact decides_differs _
    | true =>
      rcases args with _ | ⟨item, _ | _⟩
      · exact decides_differs _
      · have hitems := decides_all
          (h.pairwise (fun i => s!"[{i}]") given 0 ts (ts.map fun _ => item))
        rw [zip_map_const, ← decide_all_some, List.map_map] at hitems
        exact hitems
      · exact decides_differs _
  case h_6 c b args =>
    rw [structureRule]
    split
    · exact decides_fits
    · exact decides_differs _
  case h_7 c _ _ =>
    rw [structureRule_named]
    split
    · exact decides_fits
    · exact decides_differs _
  case h_8 =>
    have hrule : structureRule a e = .differs := by
      unfold structureRule
      split <;> first | rfl | (exfalso; grind)
    rw [hrule]
    exact decides_differs _

theorem Answers.resolved (h : Answers sub ask) (env : Env) (a e : Ty) (given : Assumed) :
    Decides (compareResolved env sub a e) given ((resolvedRule env a e).decide ask given) := by
  unfold compareResolved resolvedRule
  split
  · exact h.structure a e given
  · refine Decides.mapMismatch ?_ _
    unfold Decides Comparison.assuming Rule.decide
    dsimp only
    split
    · exact ⟨rfl, rfl⟩
    · obtain ⟨hdecision, hgiven⟩ := h (env.resolve a) (env.resolve e)
        (((env.resolve a).source, (env.resolve e).source) :: given)
      refine ⟨hdecision, ?_⟩
      rw [hgiven, List.erase_cons_head]

theorem Answers.all_map (h : Answers sub ask) (f : Ty → Ty × Ty) (given : Assumed) (ms : List Ty) :
    Decides (Comparison.all (ms.map fun m => sub (f m).1 (f m).2)) given
      ((Rule.all (ms.map fun m => some (f m))).decide ask given) := by
  rw [Rule.decide, List.map_map]
  refine decides_all ?_
  induction ms with
  | nil => exact .nil
  | cons m ms ih => exact .cons (h _ _ given) ih

theorem Answers.any_map (h : Answers sub ask) (f : Ty → Ty × Ty) (given : Assumed) (m : Mismatch)
    (ms : List Ty) : Decides (Comparison.any m (ms.map fun m => sub (f m).1 (f m).2)) given
      ((Rule.any (ms.map f)).decide ask given) := by
  rw [Rule.decide, List.map_map]
  refine decides_any m ?_
  induction ms with
  | nil => exact .nil
  | cons m ms ih => exact .cons (h _ _ given) ih

theorem Decides.ite {c d : Comparison} {r s : Rule} {given : Assumed} (b : Bool)
    (hc : Decides c given (r.decide ask given)) (hd : Decides d given (s.decide ask given)) :
    Decides (if b then c else d) given ((if b then r else s).decide ask given) := by
  cases b with
  | true => exact hc
  | false => exact hd

/-- One step of a comparison carries out the rule for its types. -/
theorem Answers.step (h : Answers sub ask) (env : Env) (a e : Ty) (given : Assumed) :
    Decides (compareStep env sub a e) given ((rule env a e).decide ask given) := by
  unfold compareStep rule
  refine Decides.ite _ decides_fits ?_
  have hresolved := h.resolved env a e given
  have hjust := fun a e => h.just a e given
  -- Both definitions have the same arms, and every pair of constructors is in one of them.
  cases a <;> cases e <;> first
    | exact hresolved
    | exact hjust _ _
    | exact (hjust _ _).mapMismatch _
    | exact (h.all_map (·, _) given _).mapMismatch _
    | exact h.any_map (_, ·) given _ _
    | exact h.all_map (_, ·) given _
    | exact h.any_map (·, _) given _ _
    | exact Decides.ite _ decides_fits ((hjust _ _).mapMismatch _)
    | exact Decides.ite _ decides_fits (decides_differs _)
    | exact Decides.ite _ decides_fits hresolved

end Answers

theorem check_answers (env : Env) : ∀ depth, Answers (check env depth) (decision env depth)
  | 0 => fun _ _ _ => ⟨rfl, rfl⟩
  | depth + 1 => fun a e given => ⟨rfl, ((check_answers env depth).step env a e given).2⟩

/-- **A comparison carries out the rule for its types**, one level of nesting for each step. -/
theorem decision_succ (env : Env) (depth : Nat) (a e : Ty) (given : Assumed) :
    decision env (depth + 1) a e given = (rule env a e).decide (decision env depth) given :=
  ((check_answers env depth).step env a e given).1

theorem decision_zero (env : Env) (a e : Ty) (given : Assumed) : decision env 0 a e given = none :=
  rfl

/-! ### Compatible types -/

/-- What a rule asks for is so, where `R` says which parts fit. -/
def Rule.Holds (R : Ty → Ty → Prop) : Rule → Prop
  | .fits => True
  | .differs => False
  | .all parts => ∀ part ∈ parts, ∃ p, part = some p ∧ R p.1 p.2
  | .any choices => ∃ p ∈ choices, R p.1 p.2
  | .expand a e => R a e

/-- For each pair of types, what their comparison asks for. -/
abbrev System := Ty → Ty → Rule

/-- Whatever the relation says fits does so by its rule. -/
def Consistent (S : System) (R : Ty → Ty → Prop) : Prop := ∀ a e, R a e → (S a e).Holds R

/-- The greatest relation that is consistent with the rules. -/
def Compatible (S : System) (a e : Ty) : Prop := ∃ R, Consistent S R ∧ R a e

theorem Rule.Holds.mono {R R' : Ty → Ty → Prop} {r : Rule} (h : r.Holds R)
    (hR : ∀ a e, R a e → R' a e) : r.Holds R' := by
  cases r with
  | fits => trivial
  | differs => exact h
  | all parts =>
    intro part hpart
    obtain ⟨p, hp, hr⟩ := h part hpart
    exact ⟨p, hp, hR _ _ hr⟩
  | any choices =>
    obtain ⟨p, hp, hr⟩ := h
    exact ⟨p, hp, hR _ _ hr⟩
  | expand a e => exact hR a e h

theorem compatible_consistent (S : System) : Consistent S (Compatible S) := by
  rintro a e ⟨R, hR, hae⟩
  exact (hR a e hae).mono fun a e h => ⟨R, hR, h⟩

/-- The relation is a fixed point of its rules. -/
theorem compatible_iff_holds (S : System) (a e : Ty) :
    Compatible S a e ↔ (S a e).Holds (Compatible S) := by
  constructor
  · exact compatible_consistent S a e
  · intro h
    refine ⟨fun b f => Compatible S b f ∨ (b = a ∧ f = e), ?_, .inr ⟨rfl, rfl⟩⟩
    rintro b f (hbf | ⟨rfl, rfl⟩)
    · exact (compatible_consistent S b f hbf).mono fun _ _ => .inl
    · exact h.mono fun _ _ => .inl

/-- The types are found not to fit within `n` steps. -/
def FailsWithin (S : System) : Nat → Ty → Ty → Prop
  | 0, _, _ => False
  | n + 1, a, e => ¬ (S a e).Holds fun b f => ¬ FailsWithin S n b f

theorem FailsWithin.succ {S : System} {n : Nat} : ∀ {a e : Ty}, FailsWithin S n a e →
    FailsWithin S (n + 1) a e := by
  induction n with
  | zero => exact fun h => absurd h id
  | succ n ih => exact fun h hholds => h (hholds.mono fun b f hbf hfails => hbf (ih hfails))

theorem FailsWithin.mono {S : System} {m n : Nat} {a e : Ty} (h : FailsWithin S m a e)
    (hmn : m ≤ n) : FailsWithin S n a e := by
  induction hmn with
  | refl => exact h
  | step _ ih => exact ih.succ

/-- What fails at all fails at some step and not before. -/
theorem FailsWithin.first {S : System} {n : Nat} {a e : Ty} (h : FailsWithin S n a e) :
    ∃ m < n, FailsWithin S (m + 1) a e ∧ ¬ FailsWithin S m a e := by
  induction n with
  | zero => exact absurd h id
  | succ n ih =>
    by_cases hn : FailsWithin S n a e
    · obtain ⟨m, hm, hfirst⟩ := ih hn
      exact ⟨m, by omega, hfirst⟩
    · exact ⟨n, Nat.lt_succ_self n, h, hn⟩

/-- Where every number of steps leaves some choice, some choice is left by every number. -/
theorem exists_forall_of_forall_exists {α : Type} {P : Nat → α → Prop} {xs : List α}
    (hP : ∀ n x, P (n + 1) x → P n x) (h : ∀ n, ∃ x ∈ xs, P n x) : ∃ x ∈ xs, ∀ n, P n x := by
  by_contra hnone
  push Not at hnone
  have hbound : ∃ N, ∀ x ∈ xs, ¬ P N x := by
    clear h
    have hdown : ∀ {m n : Nat} {x : α}, m ≤ n → P n x → P m x := by
      intro m n x hmn hn
      induction hmn with
      | refl => exact hn
      | step _ ih => exact ih (hP _ x hn)
    induction xs with
    | nil => exact ⟨0, by simp⟩
    | cons x xs ih =>
      obtain ⟨n, hn⟩ := hnone x List.mem_cons_self
      obtain ⟨N, hN⟩ := ih fun y hy => hnone y (List.mem_cons_of_mem _ hy)
      refine ⟨max n N, fun y hy hP' => ?_⟩
      rcases List.mem_cons.mp hy with rfl | hy
      · exact hn (hdown (le_max_left n N) hP')
      · exact hN y hy (hdown (le_max_right n N) hP')
  obtain ⟨N, hN⟩ := hbound
  obtain ⟨x, hx, hPx⟩ := h N
  exact hN x hx hPx

/-- **Types are compatible if and only if they do not fail within any number of steps.** -/
theorem compatible_iff {S : System} {a e : Ty} : Compatible S a e ↔ ∀ n, ¬ FailsWithin S n a e := by
  constructor
  · rintro ⟨R, hR, hae⟩ n
    induction n generalizing a e with
    | zero => exact id
    | succ n ih => exact fun hfails => hfails ((hR a e hae).mono fun b f hbf => ih hbf)
  · intro h
    refine ⟨fun b f => ∀ n, ¬ FailsWithin S n b f, fun b f hbf => ?_, h⟩
    have hholds : ∀ n, (S b f).Holds fun b f => ¬ FailsWithin S n b f := fun n =>
      not_not.mp (hbf (n + 1))
    cases hrule : S b f with
    | fits => trivial
    | differs =>
      rw [hrule] at hholds
      exact hholds 0
    | all parts =>
      rw [hrule] at hholds
      intro part hpart
      obtain ⟨p, rfl, -⟩ := hholds 0 part hpart
      refine ⟨p, rfl, fun n => ?_⟩
      obtain ⟨q, hq, hfails⟩ := hholds n _ hpart
      cases hq
      exact hfails
    | any choices =>
      rw [hrule] at hholds
      exact exists_forall_of_forall_exists (fun n p hp hfails => hp hfails.succ) hholds
    | expand b' f' =>
      rw [hrule] at hholds
      exact hholds

/-! ### A comparison against its rules -/

theorem allOf_eq_true {os : List (Option Bool)} :
    allOf os = some true ↔ ∀ o ∈ os, o = some true := by
  induction os with
  | nil => simp [allOf]
  | cons o os ih => rcases o with _ | _ | _ <;> simp [allOf, ih]

theorem anyOf_eq_false {os : List (Option Bool)} :
    anyOf os = some false ↔ ∀ o ∈ os, o = some false := by
  induction os with
  | nil => simp [anyOf]
  | cons o os ih => rcases o with _ | _ | _ <;> simp [anyOf, ih]

theorem allOf_eq_false {os : List (Option Bool)} (h : allOf os = some false) : some false ∈ os := by
  induction os with
  | nil => simp [allOf] at h
  | cons o os ih => rcases o with _ | _ | _ <;> simp_all [allOf]

theorem anyOf_eq_true {os : List (Option Bool)} (h : anyOf os = some true) : some true ∈ os := by
  induction os with
  | nil => simp [anyOf] at h
  | cons o os ih => rcases o with _ | _ | _ <;> simp_all [anyOf]

theorem allOf_eq_none {os : List (Option Bool)} (h : allOf os = none) : none ∈ os := by
  induction os with
  | nil => simp [allOf] at h
  | cons o os ih => rcases o with _ | _ | _ <;> simp_all [allOf]

theorem anyOf_eq_none {os : List (Option Bool)} (h : anyOf os = none) : none ∈ os := by
  induction os with
  | nil => simp [anyOf] at h
  | cons o os ih => rcases o with _ | _ | _ <;> simp_all [anyOf]

/-- The texts under which a pair of types is assumed to fit. -/
def key (a e : Ty) : String × String := (a.source, e.source)

/-- The comparisons that a rule may carry out, each with the assumptions it is carried out under. -/
def Rule.Asks (given : Assumed) : Rule → Ty → Ty → Assumed → Prop
  | .fits, _, _, _ => False
  | .differs, _, _, _ => False
  | .all parts, b, f, after => some (b, f) ∈ parts ∧ after = given
  | .any choices, b, f, after => (b, f) ∈ choices ∧ after = given
  | .expand a e, b, f, after => b = a ∧ f = e ∧ key a e ∉ given ∧ after = key a e :: given

section Decide

variable {ask : Ty → Ty → Assumed → Option Bool} {given : Assumed} {r : Rule} {P : Ty → Ty → Prop}

theorem decide_expand (a e : Ty) : (Rule.expand a e).decide ask given =
    if key a e ∈ given then some true else ask a e (key a e :: given) := by
  simp only [Rule.decide, List.contains_iff_mem]
  rfl

/-- A rule that does not hold is not decided for the types, as long as no part that fails is. -/
theorem decide_ne_true (hr : ¬ r.Holds P)
    (hask : ∀ b f after, r.Asks given b f after → ¬ P b f → ask b f after ≠ some true)
    (hgiven : ∀ b f, r = .expand b f → key b f ∈ given → P b f) :
    r.decide ask given ≠ some true := by
  intro h
  cases r with
  | fits => exact hr trivial
  | differs => cases h
  | all parts =>
    refine hr fun part hpart => ?_
    have hdecided := allOf_eq_true.mp h _ (List.mem_map_of_mem hpart)
    cases part with
    | none => cases hdecided
    | some p => exact ⟨p, rfl, not_not.mp fun hp => hask p.1 p.2 given ⟨hpart, rfl⟩ hp hdecided⟩
  | any choices =>
    obtain ⟨p, hp, hdecided⟩ := List.mem_map.mp (anyOf_eq_true h)
    exact hr ⟨p, hp, not_not.mp fun hfails => hask p.1 p.2 given ⟨hp, rfl⟩ hfails hdecided⟩
  | expand a e =>
    rw [decide_expand] at h
    split at h
    · rename_i hmem
      exact hr (hgiven a e rfl hmem)
    · rename_i hmem
      exact hask a e _ ⟨rfl, rfl, hmem, rfl⟩ hr h

/-- A rule that holds is not decided against the types, as long as no part that fits is. -/
theorem decide_ne_false (hr : r.Holds P)
    (hask : ∀ b f after, r.Asks given b f after → P b f → ask b f after ≠ some false) :
    r.decide ask given ≠ some false := by
  intro h
  cases r with
  | fits => cases h
  | differs => exact hr
  | all parts =>
    obtain ⟨part, hpart, hdecided⟩ := List.mem_map.mp (allOf_eq_false h)
    obtain ⟨p, rfl, hp⟩ := hr part hpart
    exact hask p.1 p.2 given ⟨hpart, rfl⟩ hp hdecided
  | any choices =>
    obtain ⟨p, hp, hfits⟩ := hr
    exact hask p.1 p.2 given ⟨hp, rfl⟩ hfits (anyOf_eq_false.mp h _ (List.mem_map_of_mem hp))
  | expand a e =>
    rw [decide_expand] at h
    split at h
    · cases h
    · rename_i hmem
      exact hask a e _ ⟨rfl, rfl, hmem, rfl⟩ hr h

/-- A rule is decided as soon as everything it asks for is. -/
theorem decide_ne_none (hask : ∀ b f after, r.Asks given b f after → ask b f after ≠ none) :
    r.decide ask given ≠ none := by
  intro h
  cases r with
  | fits => cases h
  | differs => cases h
  | all parts =>
    obtain ⟨part, hpart, hdecided⟩ := List.mem_map.mp (allOf_eq_none h)
    cases part with
    | none => cases hdecided
    | some p => exact hask p.1 p.2 given ⟨hpart, rfl⟩ hdecided
  | any choices =>
    obtain ⟨p, hp, hdecided⟩ := List.mem_map.mp (anyOf_eq_none h)
    exact hask p.1 p.2 given ⟨hp, rfl⟩ hdecided
  | expand a e =>
    rw [decide_expand] at h
    split at h
    · cases h
    · rename_i hmem
      exact hask a e _ ⟨rfl, rfl, hmem, rfl⟩ h

/-- A rule is decided alike under assumptions that do not tell what it asks for apart. -/
theorem decide_congr {given' : Assumed}
    (hask : ∀ b f after after', r.Asks given b f after → r.Asks given' b f after' →
      ask b f after = ask b f after')
    (hkey : ∀ b f, r = .expand b f → (key b f ∈ given ↔ key b f ∈ given')) :
    r.decide ask given = r.decide ask given' := by
  cases r with
  | fits => rfl
  | differs => rfl
  | all parts =>
    refine congrArg allOf (List.map_congr_left fun part hpart => ?_)
    cases part with
    | none => rfl
    | some p => exact hask p.1 p.2 given given' ⟨hpart, rfl⟩ ⟨hpart, rfl⟩
  | any choices =>
    refine congrArg anyOf (List.map_congr_left fun p hp => ?_)
    exact hask p.1 p.2 given given' ⟨hp, rfl⟩ ⟨hp, rfl⟩
  | expand a e =>
    rw [decide_expand, decide_expand]
    by_cases hmem : key a e ∈ given
    · rw [if_pos hmem, if_pos ((hkey a e rfl).mp hmem)]
    · have hmem' : key a e ∉ given' := fun h => hmem ((hkey a e rfl).mpr h)
      rw [if_neg hmem, if_neg hmem']
      exact hask a e _ _ ⟨rfl, rfl, hmem, rfl⟩ ⟨rfl, rfl, hmem', rfl⟩

end Decide

/-! ### Deeper comparisons -/

/-- The second decision is the first, or the first was left open. -/
def Extends (o o' : Option Bool) : Prop := ∀ fits, o = some fits → o' = some fits

theorem extends_allOf {os os' : List (Option Bool)} (h : List.Forall₂ Extends os os') :
    Extends (allOf os) (allOf os') := by
  induction h with
  | nil => exact fun _ => id
  | @cons o o' os os' ho _ ih =>
    rcases o with _ | _ | _
    · exact fun fits hfits => by cases hfits
    · rw [ho false rfl]
      exact fun _ => id
    · rw [ho true rfl]
      exact ih

theorem extends_anyOf {os os' : List (Option Bool)} (h : List.Forall₂ Extends os os') :
    Extends (anyOf os) (anyOf os') := by
  induction h with
  | nil => exact fun _ => id
  | @cons o o' os os' ho _ ih =>
    rcases o with _ | _ | _
    · exact fun fits hfits => by cases hfits
    · rw [ho false rfl]
      exact ih
    · rw [ho true rfl]
      exact fun _ => id

theorem extends_decide {ask ask' : Ty → Ty → Assumed → Option Bool}
    (h : ∀ a e given, Extends (ask a e given) (ask' a e given)) (r : Rule) (given : Assumed) :
    Extends (r.decide ask given) (r.decide ask' given) := by
  cases r with
  | fits => exact fun _ => id
  | differs => exact fun _ => id
  | all parts =>
    refine extends_allOf ?_
    induction parts with
    | nil => exact .nil
    | cons part parts ih =>
      refine .cons ?_ ih
      cases part with
      | none => exact fun _ => id
      | some p => exact h p.1 p.2 given
  | any choices =>
    refine extends_anyOf ?_
    induction choices with
    | nil => exact .nil
    | cons p choices ih => exact .cons (h p.1 p.2 given) ih
  | expand a e =>
    rw [decide_expand, decide_expand]
    split
    · exact fun _ => id
    · exact h a e _

/-- What is decided at some depth is decided the same at every greater one. -/
theorem decision_mono {env : Env} {depth depth' : Nat} (hdepth : depth ≤ depth') :
    ∀ a e given, Extends (decision env depth a e given) (decision env depth' a e given) := by
  induction depth generalizing depth' with
  | zero => exact fun a e given fits hfits => by cases hfits
  | succ depth ih =>
    intro a e given
    obtain ⟨depth', rfl⟩ : ∃ m, depth' = m + 1 := Nat.exists_eq_succ_of_ne_zero (by omega)
    rw [decision_succ, decision_succ]
    exact extends_decide (ih (by omega)) _ given

/-- Types that are found to fit at some depth are subtypes. -/
theorem isSubtype_of_decision {env : Env} {depth : Nat} {a e : Ty}
    (hdepth : depth ≤ env.comparisonDepth a e) (h : decision env depth a e [] = some true) :
    env.isSubtype a e = .fits :=
  Verdict.decision_eq_true.mp (decision_mono hdepth a e [] true h)

/-- **Compatible types are never found not to fit**, whatever is assumed. -/
theorem decision_ne_false {env : Env} (depth : Nat) : ∀ {a e : Ty}, Compatible (rule env) a e →
    ∀ given, decision env depth a e given ≠ some false := by
  induction depth with
  | zero =>
    intro a e _ given h
    cases h
  | succ depth ih =>
    intro a e h given
    rw [decision_succ]
    exact decide_ne_false (compatible_consistent _ a e h) fun b f after _ hbf => ih hbf after

end Subtype
end Countersign
