/-
# Names that lead in a circle

Names that were given each other and nothing else stand for nothing. Their resolution gives up after
`Env.resolutionLimit` steps, at a name of the same circle. If the length of the circle divides the
limit it is the name it started from: the name counts as settled, and like a name that was given
nothing it fits no built-in class. Otherwise it is another name, which is resolved in turn, until a
pair of names comes up that is assumed to fit: then the circle fits every class, and every class fits
it.

Key definitions: `Circle`.
Key theorems: `decision_of_expanding`, `Circle.settled`, `circle_fits_iff`.
-/
import Countersign.Proofs.Subtype.Expansion
import Countersign.Proofs.Subtype.Shapes

namespace Countersign
namespace Subtype

/-! ### Pairs that only expand -/

/-- A comparison that does nothing but resolve names, and comes upon finitely many pairs, finds that
its types fit: it ends at a pair that it came upon before. -/
theorem decision_of_expanding {env : Env} {ι : Type} {pair : ι → Ty × Ty} {next : ι → ι}
    {keys : List (String × String)}
    (hrule : ∀ i, rule env (pair i).1 (pair i).2 = .expand (pair (next i)).1 (pair (next i)).2)
    (hkeys : ∀ i, key (pair i).1 (pair i).2 ∈ keys) (fresh : Nat) : ∀ (i : ι) (given : Assumed),
      (keys.filter (· ∉ given)).length ≤ fresh →
        decision env (fresh + 1) (pair i).1 (pair i).2 given = some true := by
  induction fresh with
  | zero =>
    intro i given hfresh
    have hnone : keys.filter (· ∉ given) = [] := List.length_eq_zero_iff.mp (Nat.le_zero.mp hfresh)
    have hmem : key (pair (next i)).1 (pair (next i)).2 ∈ given := by
      simpa using List.filter_eq_nil_iff.mp hnone _ (hkeys (next i))
    rw [decision_succ, hrule, decide_expand, if_pos hmem]
  | succ fresh ih =>
    intro i given hfresh
    rw [decision_succ, hrule, decide_expand]
    split
    · rfl
    · rename_i hmem
      -- The pair that is assumed from here on is one of those that were not.
      refine ih (next i) _ (Nat.le_of_lt_succ (Nat.lt_of_lt_of_le ?_ hfresh))
      have hrest : keys.filter (· ∉ key (pair (next i)).1 (pair (next i)).2 :: given) =
          (keys.filter (· ∉ given)).filter (· ≠ key (pair (next i)).1 (pair (next i)).2) := by
        rw [List.filter_filter]
        refine List.filter_congr fun k _ => ?_
        simp [List.mem_cons, not_or]
      rw [hrest]
      refine List.length_filter_lt_length_iff_exists.mpr
        ⟨key (pair (next i)).1 (pair (next i)).2, ?_, by simp⟩
      simpa using ⟨hkeys (next i), hmem⟩

/-! ### Circles of names -/

/-- Different names, each of which was given the next one and the last of which was given the
first. -/
structure Circle (env : Env) (names : List String) : Prop where
  distinct : names.Nodup
  leads : ∀ p ∈ names.zip (names.rotate 1), env.plainAlias? p.1 = some (.named (.user p.2))

/-- The type that stands at a place of the circle, going round it. -/
def around (names : List String) (i : Nat) : Ty :=
  .named (.user (names.getD (i % names.length) ""))

section Circle

variable {env : Env} {names : List String}

theorem around_eq (hne : names ≠ []) (i : Nat) :
    ∃ h : i % names.length < names.length, around names i = .named (.user (names.get ⟨_, h⟩)) := by
  have h : i % names.length < names.length := Nat.mod_lt i (List.length_pos_iff.mpr hne)
  exact ⟨h, by simp [around, h]⟩

/-- Every name of the circle stands somewhere. -/
theorem exists_around {name : String} (h : name ∈ names) :
    names ≠ [] ∧ ∃ i, around names i = .named (.user name) := by
  obtain ⟨i, hi, rfl⟩ := List.getElem_of_mem h
  refine ⟨List.ne_nil_of_mem h, i, ?_⟩
  simp [around, Nat.mod_eq_of_lt hi, hi]

/-- Going round, the same name stands at places a multiple of the length apart. -/
theorem around_add_eq_iff (hdistinct : names.Nodup) (hne : names ≠ []) (i k : Nat) :
    around names (i + k) = around names i ↔ names.length ∣ k := by
  obtain ⟨hi, hi'⟩ := around_eq hne i
  obtain ⟨hk, hk'⟩ := around_eq hne (i + k)
  rw [hi', hk', Ty.named.injEq, ClassName.user, ClassName.user, ClassName.mk.injEq]
  rw [and_iff_left rfl, hdistinct.get_inj_iff, Fin.mk.injEq]
  constructor
  · intro hmod
    exact (Nat.modEq_zero_iff_dvd).mp (Nat.ModEq.add_left_cancel' i hmod)
  · rintro ⟨m, rfl⟩
    exact Nat.add_mul_mod_self_left i names.length m

theorem Circle.step? (h : Circle env names) (hne : names ≠ []) (i : Nat) :
    env.step? (around names i) = some (around names (i + 1)) := by
  obtain ⟨hi, hi'⟩ := around_eq hne i
  obtain ⟨hk, hk'⟩ := around_eq hne (i + 1)
  have hrotate : i % names.length < (names.rotate 1).length := by rwa [List.length_rotate]
  have hmem : (names.get ⟨_, hi⟩, names.get ⟨_, hk⟩) ∈ names.zip (names.rotate 1) := by
    refine List.mem_iff_getElem.mpr ⟨i % names.length, by simpa using hi, ?_⟩
    simp [List.getElem_zip, List.getElem_rotate]
  rw [hi', hk']
  exact h.leads _ hmem

theorem Circle.resolveWithin (h : Circle env names) (hne : names ≠ []) (limit : Nat) : ∀ i,
    env.resolveWithin limit (around names i) = around names (i + limit) := by
  induction limit with
  | zero => exact fun i => rfl
  | succ limit ih =>
    intro i
    rw [Env.resolveWithin, h.step? hne i]
    show env.resolveWithin limit (around names (i + 1)) = _
    rw [ih, Nat.add_assoc, Nat.add_comm 1]

theorem Circle.circles (h : Circle env names) (hne : names ≠ []) (target : Ty) (limit : Nat) :
    ∀ i, env.circles target limit true (around names i) =
      (around names (i + limit) == target) := by
  induction limit with
  | zero => exact fun i => rfl
  | succ limit ih =>
    intro i
    rw [Env.circles, h.step? hne i]
    show env.circles target limit true (around names (i + 1)) = _
    rw [ih, Nat.add_assoc, Nat.add_comm 1]

theorem same_named (c d : ClassName) : (Ty.named c == Ty.named d) = decide (c = d) := rfl

/-- **A name counts as settled if and only if the length of its circle divides the limit.** -/
theorem Circle.settled (h : Circle env names) (hne : names ≠ []) (i : Nat) :
    env.settled (around names i) = decide (names.length ∣ Env.resolutionLimit) := by
  have hcircles : env.circles (around names i) Env.resolutionLimit false (around names i) =
      (around names (i + Env.resolutionLimit) == around names i) := by
    rw [Env.resolutionLimit, Env.circles, h.step? hne i]
    show env.circles (around names i) 63 true (around names (i + 1)) = _
    rw [h.circles hne, Nat.add_assoc]
  rw [Env.settled, h.step? hne, hcircles, Option.isNone_some, Bool.false_or]
  have hsame := around_add_eq_iff h.distinct hne i Env.resolutionLimit
  rw [around, around, same_named]
  refine decide_eq_decide.mpr ?_
  rw [← hsame, around, around, Ty.named.injEq]

end Circle

/-! ### Circles and classes -/

/-- A built-in class that does not fit everything. -/
structure Concrete (c : ClassName) : Prop where
  builtin : c.builtin = true
  notAny : c.name ≠ "Any"

section Concrete

variable {env : Env} {names : List String} {c : ClassName}

theorem Concrete.step? (h : Concrete c) : env.step? (.named c) = none := by
  rw [Env.step?, h.builtin, if_pos rfl]

theorem Concrete.settled (h : Concrete c) : env.settled (.named c) = true := by
  rw [Env.settled, h.step?]
  rfl

theorem Concrete.isAny (h : Concrete c) : (Ty.named c).isAny = false := by
  simp [Ty.isAny, Ty.isBuiltin, ClassName.isBuiltin, h.notAny]

theorem Concrete.ne_around (h : Concrete c) (i : Nat) : c ≠ .user (names.getD (i % names.length) "") := by
  rintro rfl
  cases h.builtin

/-- The pair of a name of the circle and a class, either way round. -/
def beside (names : List String) (c : ClassName) : Bool → Nat → Ty × Ty
  | false, i => (around names i, .named c)
  | true, i => (.named c, around names i)

theorem rule_beside (h : Concrete c) (swapped : Bool) (i : Nat) :
    rule env (beside names c swapped i).1 (beside names c swapped i).2 =
      resolvedRule env (beside names c swapped i).1 (beside names c swapped i).2 := by
  have hany : (around names i).isAny = false := rfl
  cases swapped
  all_goals
    refine rule_direct trivial (.inl trivial) (by simp [beside, hany, h.isAny]) fun d hd hd' => ?_
    cases hd
    cases hd'
    exact h.ne_around i rfl

/-- A settled circle differs from every class. -/
theorem Circle.differs (h : Circle env names) (hne : names ≠ []) (hc : Concrete c)
    (hdvd : names.length ∣ Env.resolutionLimit) (swapped : Bool) (i : Nat) :
    rule env (beside names c swapped i).1 (beside names c swapped i).2 = .differs := by
  have hsettled : env.settled (around names i) = true := by
    rw [h.settled hne, decide_eq_true hdvd]
  rw [rule_beside hc, resolvedRule]
  cases swapped
  all_goals
    rw [beside, hsettled, hc.settled, if_pos (by decide)]
    rfl

/-- A circle that is not settled leads to another of its names. -/
theorem Circle.expands (h : Circle env names) (hne : names ≠ []) (hc : Concrete c)
    (hdvd : ¬ names.length ∣ Env.resolutionLimit) (swapped : Bool) (i : Nat) :
    rule env (beside names c swapped i).1 (beside names c swapped i).2 =
      .expand (beside names c swapped (i + Env.resolutionLimit)).1
        (beside names c swapped (i + Env.resolutionLimit)).2 := by
  have hsettled : env.settled (around names i) = false := by
    rw [h.settled hne, decide_eq_false hdvd]
  have hresolve : env.resolve (around names i) = around names (i + Env.resolutionLimit) :=
    h.resolveWithin hne _ i
  have hself : env.resolve (.named c) = .named c := resolve_of_step?_none hc.step?
  rw [rule_beside hc, resolvedRule]
  cases swapped
  all_goals
    rw [beside, hsettled, hc.settled, if_neg (by decide), hresolve, hself]
    rfl

/-- The circle is no longer than the table of names. -/
theorem Circle.length_le (h : Circle env names) : names.length ≤ env.aliases.length := by
  have hsubset : names ⊆ env.aliases.map (·.1) := by
    intro name hname
    obtain ⟨hne, i, hi⟩ := exists_around hname
    have hstep := h.step? hne i
    rw [hi] at hstep
    obtain ⟨a, ha, -⟩ := Option.bind_eq_some_iff.mp (show env.plainAlias? name = some _ from hstep)
    exact List.mem_map_of_mem (f := (·.1)) (mem_of_lookup ha)
  simpa using (h.distinct.subperm hsubset).length_le

theorem length_aliases_le (env : Env) : env.aliases.length ≤ env.aliasSize := by
  have hfold : ∀ (aliases : List (String × Alias)) (start : Nat), start + aliases.length ≤
      aliases.foldl (fun nodes a => nodes + a.2.type.size + 1) start := by
    intro aliases
    induction aliases with
    | nil => simp
    | cons entry aliases ih =>
      intro start
      have hrest := ih (start + entry.2.type.size + 1)
      rw [List.length_cons, List.foldl_cons]
      omega
  simpa [Env.aliasSize] using hfold env.aliases 0

/-- The comparison may go round the whole circle. -/
theorem Circle.length_lt (h : Circle env names) (a e : Ty) :
    names.length + 1 ≤ env.comparisonDepth a e := by
  have hlength := h.length_le.trans (length_aliases_le env)
  unfold Env.comparisonDepth
  dsimp only
  nlinarith

theorem Circle.decision (h : Circle env names) (hne : names ≠ []) (hc : Concrete c)
    (swapped : Bool) (i : Nat) :
    Subtype.decision env (names.length + 1) (beside names c swapped i).1 (beside names c swapped i).2
      [] = some (decide (¬ names.length ∣ Env.resolutionLimit)) := by
  by_cases hdvd : names.length ∣ Env.resolutionLimit
  · rw [decision_succ, h.differs hne hc hdvd, decide_eq_false (not_not.mpr hdvd)]
    rfl
  · rw [decide_eq_true hdvd]
    -- The pairs that come up are those of the class and a name at one of the first places.
    have hkeys : ∀ j, key (beside names c swapped j).1 (beside names c swapped j).2 ∈
        (List.range names.length).map fun k =>
          key (beside names c swapped k).1 (beside names c swapped k).2 := by
      intro j
      have hj : j % names.length < names.length := Nat.mod_lt j (List.length_pos_iff.mpr hne)
      refine List.mem_map.mpr ⟨j % names.length, List.mem_range.mpr hj, ?_⟩
      cases swapped <;> simp [beside, around]
    refine decision_of_expanding (h.expands hne hc hdvd swapped) hkeys _ i [] ?_
    simp

end Concrete

/-- **A circle of names and a built-in class differ if the length of the circle divides the limit of
resolution, and otherwise fit each other**, whatever else the table of names holds. -/
theorem circle_fits_iff {env : Env} {names : List String} (h : Circle env names) {name : String}
    (hname : name ∈ names) {c : ClassName} (hc : Concrete c) :
    (env.isSubtype (.named (.user name)) (.named c)).decision =
        some (decide (¬ names.length ∣ Env.resolutionLimit)) ∧
      (env.isSubtype (.named c) (.named (.user name))).decision =
        some (decide (¬ names.length ∣ Env.resolutionLimit)) := by
  obtain ⟨hne, i, hi⟩ := exists_around hname
  have hactual := h.decision hne hc false i
  have hexpected := h.decision hne hc true i
  simp only [beside, hi] at hactual hexpected
  exact ⟨decision_mono (h.length_lt _ _) _ _ _ _ hactual,
    decision_mono (h.length_lt _ _) _ _ _ _ hexpected⟩

theorem eq_user_of_any {o : Option Ty} {name : String} (h : o.any (·.isUser name) = true) :
    o = some (.named (.user name)) := by
  cases o with
  | none => cases h
  | some t => rw [Ty.isUser_iff.mp h]

/-- Two names that were given each other. -/
def pairHeader : String := "type Left : Right\ntype Right : Left"

theorem circle_fits_iff_pair :
    Circle (headerEnv pairHeader) ["Left", "Right"] ∧ Concrete (.resolve "Number") ∧
      ((headerEnv pairHeader).isSubtype (.ofName "Left") (.ofName "Number")).decision = some false := by
  have hleads : ∀ p ∈ ["Left", "Right"].zip (["Left", "Right"].rotate 1),
      ((headerEnv pairHeader).plainAlias? p.1).any (·.isUser p.2) = true := by decide +kernel
  have hcircle : Circle (headerEnv pairHeader) ["Left", "Right"] :=
    ⟨by decide, fun p hp => eq_user_of_any (hleads p hp)⟩
  have hnumber : Concrete (.resolve "Number") := ⟨rfl, by decide⟩
  refine ⟨hcircle, hnumber, ?_⟩
  exact (circle_fits_iff hcircle (by simp : "Left" ∈ _) hnumber).1

/-- Three names that were given each other. -/
def ringHeader : String := "type Rock : Paper\ntype Paper : Scissors\ntype Scissors : Rock"

/-- A circle of three names fits a class, and the class fits it. -/
theorem ring_fits :
    (∀ p ∈ [("Rock", "Paper"), ("Paper", "Scissors"), ("Scissors", "Rock")],
      (headerEnv ringHeader).plainAlias? p.1 = some (.named (.user p.2))) ∧
      (headerEnv ringHeader).isSubtype (.ofName "Rock") (.ofName "Number") = .fits ∧
      (headerEnv ringHeader).isSubtype (.ofName "Number") (.ofName "Rock") = .fits := by
  have hleads : ∀ p ∈ [("Rock", "Paper"), ("Paper", "Scissors"), ("Scissors", "Rock")],
      ((headerEnv ringHeader).plainAlias? p.1).any (·.isUser p.2) = true := by decide +kernel
  have hactual : decision (headerEnv ringHeader) 5 (.ofName "Rock") (.ofName "Number") [] =
      some true := by decide +kernel
  have hexpected : decision (headerEnv ringHeader) 5 (.ofName "Number") (.ofName "Rock") [] =
      some true := by decide +kernel
  have hdepth : 5 ≤ (headerEnv ringHeader).comparisonDepth (.ofName "Rock") (.ofName "Number") ∧
      5 ≤ (headerEnv ringHeader).comparisonDepth (.ofName "Number") (.ofName "Rock") := by
    decide +kernel
  exact ⟨fun p hp => eq_user_of_any (hleads p hp), isSubtype_of_decision hdepth.1 hactual,
    isSubtype_of_decision hdepth.2 hexpected⟩

end Subtype
end Countersign
