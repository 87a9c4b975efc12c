/-
# Names with parameters

A comparison that instantiates a name with parameters meets types that stand nowhere in what it
started from, and their arguments may grow without end: then it is never decided
(`grow_undecided`). It comes to an end if the parameters can be ranked so that arguments do not
grow in a circle: where a parameter of one name stands in an argument for a parameter of another, it
ranks no higher, and lower unless it is the whole argument.

The types that come up are then made rank by rank. An argument for a parameter is a type that was
there before anything was instantiated, or the argument for a parameter that ranks no higher, or is
made from arguments for parameters that rank lower. So each rank has finitely many.

Key definitions: `Ranked`, `Made`.
Key theorems: `Made.asks`, `made_finite`, `decided_of_ranked`, `grow_undecided`.
-/
import Countersign.Proofs.Subtype.Coinductive
import Countersign.Header.Reader
import Countersign.Verify
import Mathlib.Data.List.Sections

namespace Countersign

/-- Whether this is the bare name `name`, which is not built in. -/
def Ty.isUser (name : String) : Ty → Bool
  | .named c => c == .user name
  | _ => false

theorem Ty.isUser_iff {name : String} {t : Ty} : t.isUser name = true ↔ t = .named (.user name) := by
  cases t <;> simp [Ty.isUser]

instance (name : String) (t : Ty) : Decidable (t = .named (.user name)) :=
  decidable_of_iff _ Ty.isUser_iff

instance (name : String) (ts : List Ty) : Decidable (.named (.user name) ∈ ts) :=
  decidable_of_iff (ts.any (·.isUser name) = true) (by simp [Ty.isUser_iff])

namespace Subtype

/-- A rank for each parameter of each name. -/
abbrev Ranking := String → String → Nat

/-- In the argument `u` for the parameter `q` of `callee`, the parameter `p` of `name` ranks below
`q`, or it is the whole argument and ranks like `q`. -/
def RanksBelow (rank : Ranking) (name p callee q : String) (u : Ty) : Prop :=
  rank name p < rank callee q ∨ u = .named (.user p) ∧ rank name p = rank callee q

instance (rank : Ranking) (name p callee q : String) (u : Ty) :
    Decidable (RanksBelow rank name p callee q u) :=
  inferInstanceAs (Decidable (_ ∨ _ ∧ _))

/-- None of the parameters stands in these types. -/
def FreeOf (params : List String) (us : List Ty) : Prop :=
  ∀ u ∈ us, ∀ p ∈ params, .named (.user p) ∉ u.parts

instance (params : List String) (us : List Ty) : Decidable (FreeOf params us) :=
  inferInstanceAs (Decidable (∀ u ∈ us, ∀ p ∈ params, .named (.user p) ∉ u.parts))

/-- In the type of the name `name`, every parameter in the arguments `us` of `b` ranks below the one
it is an argument for, if they instantiate a name. -/
def ArgumentsRanked (env : Env) (rank : Ranking) (name : String) (params : List String) (b : Ty)
    (us : List Ty) : Prop :=
  ∀ callee ∈ b.literalName, ∀ target ∈ env.genericAlias? b us, ∀ x ∈ target.params.zip us,
    ∀ p ∈ params, .named (.user p) ∈ x.2.parts → RanksBelow rank name p callee x.1 x.2

instance (env : Env) (rank : Ranking) (name : String) (params : List String) (b : Ty)
    (us : List Ty) : Decidable (ArgumentsRanked env rank name params b us) :=
  inferInstanceAs (Decidable (∀ callee ∈ b.literalName, ∀ target ∈ env.genericAlias? b us,
    ∀ x ∈ target.params.zip us, ∀ p ∈ params, .named (.user p) ∈ x.2.parts →
      RanksBelow rank name p callee x.1 x.2))

/-- In the type of the name `name`, the arguments in this node are ranked. A parameter that is itself
applied to arguments may come to stand for any name, so there are no parameters in these. -/
def NodeRanked (env : Env) (rank : Ranking) (name : String) (params : List String) : Ty → Prop
  | .generic b us =>
    if ∃ p ∈ params, b = .named (.user p) then FreeOf params us
    else ArgumentsRanked env rank name params b us
  | _ => True

instance (env : Env) (rank : Ranking) (name : String) (params : List String) :
    ∀ t, Decidable (NodeRanked env rank name params t)
  | .generic b us =>
    inferInstanceAs (Decidable (if ∃ p ∈ params, b = .named (.user p) then FreeOf params us
      else ArgumentsRanked env rank name params b us))
  | .named _ => .isTrue trivial
  | .value _ => .isTrue trivial
  | .renamed _ _ => .isTrue trivial
  | .function _ _ _ => .isTrue trivial
  | .object _ => .isTrue trivial
  | .union _ => .isTrue trivial
  | .intersection _ => .isTrue trivial
  | .tuple _ => .isTrue trivial
  | .moduleExports _ => .isTrue trivial

/-- The parameters are ranked so that arguments do not grow in a circle. -/
def Ranked (env : Env) (rank : Ranking) : Prop :=
  ∀ a ∈ env.aliases, ∀ t ∈ a.2.type.parts, NodeRanked env rank a.1 a.2.params t

instance (env : Env) (rank : Ranking) : Decidable (Ranked env rank) :=
  inferInstanceAs (Decidable (∀ a ∈ env.aliases, ∀ t ∈ a.2.type.parts,
    NodeRanked env rank a.1 a.2.params t))

/-! ### The types that are made -/

/-- The types that come up in comparisons of `a₀` with `e₀`, by rank: those that can be met without
instantiating a name, and the parts of named types in which parameters of lower ranks were
replaced. The arguments in their places are made at their ranks. -/
inductive Made (env : Env) (rank : Ranking) (a₀ e₀ : Ty) : Nat → Ty → Prop
  | plain {k : Nat} {t : Ty} : t ∈ met env a₀ e₀ → Made env rank a₀ e₀ k t
  | part {k : Nat} {name : String} {a : Alias} {args : List Ty} {u : Ty} :
      (name, a) ∈ env.aliases → u ∈ a.type.parts → args.length = a.params.length →
      (∀ x ∈ a.params.zip args, Made env rank a₀ e₀ (rank name x.1) x.2) →
      (∀ p ∈ a.params, .named (.user p) ∈ u.parts → rank name p < k) →
      Made env rank a₀ e₀ k (u.substitute a.params args)

section Made

variable {env : Env} {rank : Ranking} {a₀ e₀ : Ty}

theorem Made.mono {j k : Nat} {t : Ty} (h : Made env rank a₀ e₀ j t) (hjk : j ≤ k) :
    Made env rank a₀ e₀ k t := by
  cases h with
  | plain ht => exact .plain ht
  | part ha hu hlength hargs hrank =>
    exact .part ha hu hlength hargs fun p hp hmem => Nat.lt_of_lt_of_le (hrank p hp hmem) hjk

/-- The argument for a parameter is one of those given. -/
theorem argument?_mem {params : List String} {args : List Ty} {name : String} {x : Ty}
    (h : Ty.argument? params args name = some x) : (name, x) ∈ params.zip args :=
  mem_of_lookup h

/-- The whole of a named type can be met, and so can its parts. -/
theorem part_mem_met {name : String} {a : Alias} (ha : (name, a) ∈ env.aliases) {u : Ty}
    (hu : u ∈ a.type.parts) : u ∈ met env a₀ e₀ := by
  refine met_of_node (List.mem_flatMap.mpr ⟨a.type, ?_, hu⟩)
  exact List.mem_append_left _ (List.mem_map_of_mem (f := (·.2.type)) ha)

/-- What a bare name becomes is the name itself, or one of the arguments. -/
theorem substitute_named (params : List String) (args : List Ty) (c : ClassName) :
    Ty.substitute params args (.named c) = .named c ∨
      ∃ x ∈ params.zip args, x.1 = c.name ∧ Ty.substitute params args (.named c) = x.2 := by
  rw [Ty.substitute]
  split
  · exact .inl rfl
  · cases harg : Ty.argument? params args c.name with
    | none => exact .inl rfl
    | some x => exact .inr ⟨(c.name, x), argument?_mem harg, rfl, rfl⟩

/-- Every rank is below `top`. -/
def Below (env : Env) (rank : Ranking) (top : Nat) : Prop :=
  ∀ a ∈ env.aliases, ∀ p ∈ a.2.params, rank a.1 p < top

theorem exists_below (env : Env) (rank : Ranking) : ∃ top, Below env rank top := by
  let ranks := env.aliases.flatMap fun a => a.2.params.map (rank a.1)
  refine ⟨ranks.sum + 1, fun a ha p hp => Nat.lt_succ_of_le ?_⟩
  refine List.single_le_sum (fun _ _ => Nat.zero_le _) _ (List.mem_flatMap.mpr ⟨a, ha, ?_⟩)
  exact List.mem_map_of_mem hp

theorem Made.child {top : Nat} (htop : Below env rank top) {k : Nat} {t c : Ty}
    (h : Made env rank a₀ e₀ k t) (hc : c ∈ t.children) : Made env rank a₀ e₀ top c := by
  induction h with
  | plain ht => exact .plain (child_mem_met ht hc)
  | @part k name a args u ha hu hlength hargs hrank ih =>
    by_cases hname : ∃ n, u = .named n
    · obtain ⟨n, rfl⟩ := hname
      rcases substitute_named a.params args n with hsame | ⟨x, hx, -, hsame⟩
      · rw [hsame] at hc
        cases hc
      · rw [hsame] at hc
        exact ih x hx hc
    · rw [Ty.children_substitute _ _ fun n hn => hname ⟨n, hn⟩] at hc
      obtain ⟨d, hd, rfl⟩ := List.mem_map.mp hc
      have hpart : d ∈ a.type.parts :=
        Ty.parts_subset_of_mem_parts hu (Ty.parts_subset_of_mem_children hd d.mem_parts_self)
      exact .part ha hpart hlength hargs fun p hp _ => htop _ ha p hp

theorem Made.original {k : Nat} {t : Ty} (h : Made env rank a₀ e₀ k t) {n s : ClassName}
    (ht : t = .renamed n s) : .named s ∈ met env a₀ e₀ := by
  induction h with
  | plain hmet =>
    subst ht
    exact original_mem_met hmet
  | @part k name a args u ha hu hlength hargs hrank ih =>
    cases u with
    | named c =>
      rcases substitute_named a.params args c with hsame | ⟨x, hx, -, hsame⟩
      · rw [hsame] at ht
        cases ht
      · exact ih x hx (hsame ▸ ht)
    | renamed n' s' =>
      cases ht
      exact original_mem_met (part_mem_met ha hu)
    | _ => simp [Ty.substitute] at ht

/-- A base that is no parameter keeps its name. -/
theorem literalName_substitute {params : List String} {args : List Ty} {b : Ty}
    (h : ¬ ∃ p ∈ params, b = .named (.user p)) :
    (Ty.substitute params args b).literalName = b.literalName := by
  cases b with
  | named c =>
    rcases substitute_named params args c with hsame | ⟨x, hx, hname, -⟩
    · rw [hsame]
    · obtain ⟨name, _ | _⟩ := c
      · have hname' : x.1 = name := hname
        exact absurd ⟨name, hname' ▸ (List.of_mem_zip hx).1, rfl⟩ h
      · rfl
  | _ => rfl

/-- What parts of named types become is made at the rank of the parameter it is an argument for. -/
theorem Made.argument {name callee q : String} {a : Alias} {args : List Ty} {u : Ty}
    (ha : (name, a) ∈ env.aliases) (hu : u ∈ a.type.parts) (hlength : args.length = a.params.length)
    (hargs : ∀ x ∈ a.params.zip args, Made env rank a₀ e₀ (rank name x.1) x.2)
    (hbelow : ∀ p ∈ a.params, .named (.user p) ∈ u.parts → RanksBelow rank name p callee q u) :
    Made env rank a₀ e₀ (rank callee q) (u.substitute a.params args) := by
  by_cases hbare : ∃ p ∈ a.params, u = .named (.user p)
  · obtain ⟨p, hp, rfl⟩ := hbare
    have hle : rank name p ≤ rank callee q := by
      rcases hbelow p hp (Ty.mem_parts_self _) with hlt | ⟨-, heq⟩
      · exact Nat.le_of_lt hlt
      · exact Nat.le_of_eq heq
    rcases substitute_named a.params args (.user p) with hsame | ⟨x, hx, hname, hsame⟩
    · rw [hsame]
      exact .plain (part_mem_met ha hu)
    · rw [hsame]
      have hx' : x.1 = p := hname
      exact (hargs x hx).mono (hx' ▸ hle)
  · refine .part ha hu hlength hargs fun p hp hmem => ?_
    rcases hbelow p hp hmem with hlt | ⟨hwhole, -⟩
    · exact hlt
    · exact absurd ⟨p, hp, hwhole⟩ hbare

/-- **The arguments of a type that is made are made at the ranks of their parameters.** -/
theorem Made.arguments (hranked : Ranked env rank) {k : Nat} {t : Ty}
    (h : Made env rank a₀ e₀ k t) {b : Ty} {us : List Ty} (ht : t = .generic b us) {callee : String}
    (hcallee : b.literalName = some callee) {target : Alias}
    (htarget : env.genericAlias? b us = some target) :
    ∀ x ∈ target.params.zip us, Made env rank a₀ e₀ (rank callee x.1) x.2 := by
  induction h generalizing b us with
  | plain hmet =>
    subst ht
    intro x hx
    exact .plain (child_mem_met hmet (List.mem_cons_of_mem _ (List.of_mem_zip hx).2))
  | @part k name a args u ha hu hlength hargs hrank ih =>
    cases u with
    | named c =>
      rcases substitute_named a.params args c with hsame | ⟨x, hx, -, hsame⟩
      · rw [hsame] at ht
        cases ht
      · exact ih x hx (hsame ▸ ht) hcallee htarget
    | generic b' us' =>
      rw [Ty.substitute, Ty.substituteAll_eq] at ht
      cases ht
      have hnode : NodeRanked env rank name a.params (.generic b' us') := hranked _ ha _ hu
      rw [NodeRanked] at hnode
      intro x hx
      rw [List.zip_map_right] at hx
      obtain ⟨⟨q, u'⟩, hy, rfl⟩ := List.mem_map.mp hx
      have hu' : u' ∈ us' := (List.of_mem_zip hy).2
      have hpart : u' ∈ a.type.parts := Ty.parts_subset_of_mem_parts hu
        (Ty.parts_subset_of_mem_children (List.mem_cons_of_mem _ hu') u'.mem_parts_self)
      refine Made.argument ha hpart hlength hargs fun p hp hmem => ?_
      split at hnode
      · exact absurd hmem (hnode u' hu' p hp)
      · rename_i hbase
        -- The base is no parameter, so the node names the same type as before.
        rw [literalName_substitute hbase] at hcallee
        have htarget' : env.genericAlias? b' us' = some target := by
          rw [← htarget, Env.genericAlias?, Env.genericAlias?, literalName_substitute hbase,
            List.length_map]
        exact hnode callee hcallee target htarget' (q, u') hy p hp hmem
    | _ => simp [Ty.substitute] at ht

theorem Made.step? (hranked : Ranked env rank) {top : Nat} (htop : Below env rank top) {t u : Ty}
    (h : Made env rank a₀ e₀ top t) (hstep : env.step? t = some u) : Made env rank a₀ e₀ top u := by
  have hplain : ∀ {name : String}, env.plainAlias? name = some u → Made env rank a₀ e₀ top u := by
    intro name hplain
    obtain ⟨a, ha, hbody⟩ := Option.bind_eq_some_iff.mp hplain
    split at hbody
    · cases hbody
      exact .plain (part_mem_met (mem_of_lookup ha) (Ty.mem_parts_self _))
    · cases hbody
  cases t with
  | named c =>
    rw [Env.step?] at hstep
    split at hstep
    · cases hstep
    · exact hplain hstep
  | renamed n s => exact hplain hstep
  | generic b us =>
    obtain ⟨a, ha, rfl⟩ := Option.map_eq_some_iff.mp hstep
    obtain ⟨a', ha', hcount⟩ := Option.bind_eq_some_iff.mp ha
    obtain ⟨callee, hcallee, hlookup⟩ := Option.bind_eq_some_iff.mp ha'
    split at hcount
    · rename_i hlength
      cases hcount
      refine .part (mem_of_lookup hlookup) (Ty.mem_parts_self _) (beq_iff_eq.mp hlength).symm
        (h.arguments hranked rfl hcallee ha) fun p hp _ => htop _ (mem_of_lookup hlookup) p hp
    · cases hcount
  | moduleExports t =>
    cases hstep
    exact h.child htop (List.mem_singleton_self _)
  | _ => cases hstep

theorem Made.resolve (hranked : Ranked env rank) {top : Nat} (htop : Below env rank top) {t : Ty}
    (h : Made env rank a₀ e₀ top t) : Made env rank a₀ e₀ top (env.resolve t) := by
  have hwithin : ∀ (limit : Nat) {t : Ty}, Made env rank a₀ e₀ top t →
      Made env rank a₀ e₀ top (env.resolveWithin limit t) := by
    intro limit
    induction limit with
    | zero => exact id
    | succ limit ih =>
      intro t ht
      rw [Env.resolveWithin]
      split
      · exact ht
      · rename_i u hu
        exact ih (ht.step? hranked htop hu)
  exact hwithin _ h

/-- **A comparison of types that are made leads to such types only.** -/
theorem Made.asks (hranked : Ranked env rank) {top : Nat} (htop : Below env rank top)
    {a e b f : Ty} {given after : Assumed} (ha : Made env rank a₀ e₀ top a)
    (he : Made env rank a₀ e₀ top e) (hasks : (rule env a e).Asks given b f after) :
    Made env rank a₀ e₀ top b ∧ Made env rank a₀ e₀ top f := by
  rcases asks_cases hasks with ⟨hpart, -⟩ | ⟨-, rfl, rfl, -, -⟩
  · cases hpart with
    | actual hb => exact ⟨ha.child htop hb, he⟩
    | expected hf => exact ⟨ha, he.child htop hf⟩
    | both hb hf => exact ⟨ha.child htop hb, he.child htop hf⟩
    | swapped hb hf => exact ⟨he.child htop hb, ha.child htop hf⟩
    | widened _ => exact ⟨.plain (widen_mem_met _), he⟩
    | actualOriginal hrenamed => exact ⟨.plain (ha.original hrenamed), he⟩
    | expectedOriginal hrenamed => exact ⟨ha, .plain (he.original hrenamed)⟩
  · exact ⟨ha.resolve hranked htop, he.resolve hranked htop⟩

/-! ### Finitely many types are made -/

/-- All instances of the parts of named types with arguments from a list. -/
def instances (env : Env) (pool : List Ty) : List Ty :=
  env.aliases.flatMap fun a => a.2.type.parts.flatMap fun u =>
    (List.replicate a.2.params.length pool).sections.map (u.substitute a.2.params)

theorem mem_instances {pool : List Ty} {name : String} {a : Alias} (ha : (name, a) ∈ env.aliases)
    {u : Ty} (hu : u ∈ a.type.parts) {args : List Ty} (hlength : args.length = a.params.length)
    (hargs : ∀ x ∈ args, x ∈ pool) : u.substitute a.params args ∈ instances env pool := by
  refine List.mem_flatMap.mpr ⟨(name, a), ha, List.mem_flatMap.mpr ⟨u, hu, ?_⟩⟩
  refine List.mem_map_of_mem (List.mem_sections.mpr ?_)
  rw [List.forall₂_iff_get]
  refine ⟨by rw [List.length_replicate, hlength], fun i h₁ h₂ => ?_⟩
  simpa using hargs _ (List.getElem_mem h₁)

/-- The arguments with `x` in the place of those that are not for a parameter with `keep`. -/
def fillIn (keep : String → Prop) [DecidablePred keep] (x : Ty) (params : List String)
    (args : List Ty) : List Ty :=
  (params.zip args).map fun y => if keep y.1 then y.2 else x

theorem argument?_fillIn (keep : String → Prop) [DecidablePred keep] (x : Ty) {p : String}
    (hp : keep p) : ∀ (params : List String) (args : List Ty),
      Ty.argument? params (fillIn keep x params args) p = Ty.argument? params args p
  | [], _ => rfl
  | _ :: _, [] => rfl
  | q :: params, y :: args => by
    have ih := argument?_fillIn keep x hp params args
    simp only [Ty.argument?, fillIn, List.zip_cons_cons, List.map_cons, List.lookup_cons] at ih ⊢
    by_cases hq : p = q
    · subst hq
      simp [hp]
    · rw [beq_false_of_ne hq]
      exact ih

/-- **Below every rank finitely many types are made**: where only parameters of lower ranks stand in
a part, the other arguments do not matter. -/
theorem made_finite (env : Env) (rank : Ranking) (a₀ e₀ : Ty) : ∀ k, ∃ pool : List Ty,
    ∀ j < k, ∀ t, Made env rank a₀ e₀ j t → t ∈ pool
  | 0 => ⟨[], fun _ hj => absurd hj (Nat.not_lt_zero _)⟩
  | k + 1 => by
    obtain ⟨pool, hpool⟩ := made_finite env rank a₀ e₀ k
    refine ⟨pool ++ met env a₀ e₀ ++ instances env (a₀ :: pool), fun j hj t ht => ?_⟩
    rw [List.mem_append, List.mem_append]
    cases ht with
    | plain hmet => exact .inl (.inr hmet)
    | @part _ name a args u ha hu hlength hargs hrank =>
      refine .inr ?_
      let args' := fillIn (rank name · < k) a₀ a.params args
      have hsame : u.substitute a.params args = u.substitute a.params args' := by
        refine Ty.substitute_congr fun p hmem => ?_
        by_cases hp : p ∈ a.params
        · have hlow : rank name p < k := by
            have := hrank p hp hmem
            omega
          exact (argument?_fillIn (rank name · < k) a₀ hlow a.params args).symm
        · have hnone : ∀ us : List Ty, Ty.argument? a.params us p = none := by
            intro us
            rw [Ty.argument?, List.lookup_eq_none_iff]
            intro x hx
            have hne : p ≠ x.1 := fun hpx => hp (hpx ▸ (List.of_mem_zip hx).1)
            simpa using hne
          rw [hnone, hnone]
      have hlength' : args'.length = a.params.length := by
        simp [args', fillIn, hlength]
      rw [hsame]
      refine mem_instances ha hu hlength' fun x hx => ?_
      obtain ⟨y, hy, rfl⟩ := List.mem_map.mp hx
      split
      · rename_i hlow
        exact List.mem_cons_of_mem _ (hpool _ hlow _ (hargs y hy))
      · exact List.mem_cons_self

end Made

/-- **Comparisons come to an end where parameters can be ranked**: from some depth on every
comparison of the two types gives the same answer. -/
theorem decided_of_ranked {env : Env} {rank : Ranking} (h : Ranked env rank) (a e : Ty) :
    ∃ depth fits, ∀ d, depth ≤ d → decision env d a e [] = some fits := by
  obtain ⟨top, htop⟩ := exists_below env rank
  obtain ⟨pool, hpool⟩ := made_finite env rank a e (top + 1)
  let Q := fun b f => Made env rank a e top b ∧ Made env rank a e top f
  have hclosed : ∀ b f c g given after, Q b f → (rule env b f).Asks given c g after → Q c g :=
    fun b f c g given after hpair hasks => hpair.1.asks h htop hpair.2 hasks
  have hmet : ∀ b f, Q b f → b ∈ pool ∧ f ∈ pool := fun b f hpair =>
    ⟨hpool top (Nat.lt_succ_self top) b hpair.1, hpool top (Nat.lt_succ_self top) f hpair.2⟩
  have hstart : Q a e := by
    constructor
    · exact .plain (met_of_node (List.mem_flatMap.mpr ⟨a, by simp, a.mem_parts_self⟩))
    · exact .plain (met_of_node (List.mem_flatMap.mpr ⟨e, by simp, e.mem_parts_self⟩))
  -- Finitely many types have weights below some bound.
  let bound := ((pool ×ˢ pool).map fun p => weight p.1 p.2).sum + 1
  have hbound : ∀ b f, b ∈ pool → f ∈ pool → weight b f < bound := by
    intro b f hb hf
    refine Nat.lt_succ_of_le (List.single_le_sum (fun _ _ => Nat.zero_le _) _ ?_)
    exact List.mem_map.mpr ⟨(b, f), List.mem_product.mpr ⟨hb, hf⟩, rfl⟩
  let depth := pool.length * pool.length * bound + weight a e + 1
  have hdecided : decision env depth a e [] ≠ none := by
    refine decision_ne_none hclosed hmet hbound depth a e [] hstart List.nodup_nil
      (List.nil_subset _) ?_
    rw [List.length_nil, Nat.sub_zero]
    exact Nat.lt_succ_self _
  obtain ⟨fits, hfits⟩ := Option.ne_none_iff_exists'.mp hdecided
  exact ⟨depth, fits, fun d hd => decision_mono hd a e [] fits hfits⟩

/-- The environment of a header's named types, if its text is read as a header. -/
def headerEnv (text : String) : Env :=
  Env.initial.withAliases ((parseHeader text).toOption.getD .empty)

/-- Lists, and lists of lists. -/
def gridHeader : String :=
  "type List<T> : \x7b item: T, rest: List<T> | null \x7d\ntype Grid<T> : List<List<T>>"

/-- The argument of `List` in `Grid` holds more than the parameter of `Grid`. -/
def gridRank : Ranking := fun name _ => if name = "Grid" then 0 else 1

theorem decided_of_ranked_grid :
    Ranked (headerEnv gridHeader) gridRank ∧
      ∃ depth, ∀ d, depth ≤ d →
        decision (headerEnv gridHeader) d (readAs "Grid<Number>") (readAs "List<List<Any>>") [] =
          some true := by
  have hranked : Ranked (headerEnv gridHeader) gridRank := by decide +kernel
  refine ⟨hranked, ?_⟩
  obtain ⟨depth, fits, hdecided⟩ :=
    decided_of_ranked hranked (readAs "Grid<Number>") (readAs "List<List<Any>>")
  have hfits : decision (headerEnv gridHeader) 12 (readAs "Grid<Number>")
      (readAs "List<List<Any>>") [] = some true := by decide +kernel
  have hsame := decision_mono (Nat.le_max_left 12 depth) _ _ _ _ hfits
  rw [hdecided _ (Nat.le_max_right 12 depth), Option.some_inj] at hsame
  exact ⟨depth, hsame ▸ hdecided⟩

/-! ### Arguments that grow -/

/-- A type whose parameter grows each time it is instantiated. -/
def growHeader : String := "type Grow<T> : \x7b next: Grow<Array<T>> \x7d"

/-- `Grow` with an argument. -/
def grow (t : Ty) : Ty := .generic (.ofName "Grow") [t]

/-- Arrays with items of a type. -/
def arrayOf (t : Ty) : Ty := .generic (.ofName "Array") [t]

/-- What `Grow` with an argument stands for. -/
def grown (t : Ty) : Ty := .object [("next", grow (arrayOf t))]

/-- `Grow` has a type. -/
def growEnv : Env :=
  { Env.initial with aliases := [("Grow", ⟨["T"], grown (.ofName "T")⟩)] }

/-- Whether a header gives `Grow` its type, and says nothing else. -/
def isGrowHeader : Header → Bool
  | ⟨[.typeAlias ⟨name, params, .object [(field, .generic (.named c) [.generic (.named d)
      [.named p]])], _⟩]⟩ =>
    (name, params, field) == ("Grow", ["T"], "next") &&
      (c, d, p) == (.resolve "Grow", .resolve "Array", .resolve "T")
  | _ => false

theorem withAliases_of_isGrowHeader {h : Header} (hgrow : isGrowHeader h = true) :
    Env.initial.withAliases h = growEnv := by
  unfold isGrowHeader at hgrow
  split at hgrow
  · simp only [Bool.and_eq_true, beq_iff_eq, Prod.mk.injEq] at hgrow
    obtain ⟨⟨rfl, rfl, rfl⟩, rfl, rfl, rfl⟩ := hgrow
    rfl
  · cases hgrow

theorem rule_grow (t u : Ty) : rule growEnv (grow t) (grow u) = .expand (grown t) (grown u) := rfl

theorem rule_grown (t u : Ty) :
    rule growEnv (grown t) (grown u) = .just (grow (arrayOf t)) (grow (arrayOf u)) := rfl

theorem length_source_arrayOf (t : Ty) : (arrayOf t).source.length = t.source.length + 7 := by
  have hname : "Array<".length = 6 := by decide
  have hend : ">".length = 1 := by decide
  simp [arrayOf, Ty.source, Ty.sources, Ty.enclose, Ty.rank, Ty.ofName, ClassName.resolve, hname,
    hend]
  omega

theorem length_source_grown (t : Ty) : (grown t).source.length = t.source.length + 23 := by
  have hopen : "\x7b ".length = 2 := by decide
  have hfield : "next: ".length = 6 := by decide
  have hname : "Grow<".length = 5 := by decide
  have hend : ">".length = 1 := by decide
  have hclose : " \x7d".length = 2 := by decide
  have harray := length_source_arrayOf t
  simp [grown, grow, Ty.source, Ty.fieldSources, Ty.sources, Ty.enclose, Ty.rank, Ty.ofName,
    ClassName.resolve, hopen, hfield, hname, hend, hclose]
  omega

/-- Each instance of `Grow` leads to one with a longer text, so no assumption about a shorter one
decides it. -/
theorem decision_grow : ∀ (depth : Nat) (t u : Ty) (given : Assumed),
    (∀ k ∈ given, k.1.length < (grown t).source.length) →
      decision growEnv depth (grow t) (grow u) given = none
  | 0, _, _, _, _ => rfl
  | 1, t, u, given, hgiven => by
    have hnew : key (grown t) (grown u) ∉ given := fun hmem => absurd (hgiven _ hmem) (lt_irrefl _)
    rw [decision_succ, rule_grow, decide_expand, if_neg hnew, decision_zero]
  | depth + 2, t, u, given, hgiven => by
    have hnew : key (grown t) (grown u) ∉ given := fun hmem => absurd (hgiven _ hmem) (lt_irrefl _)
    rw [decision_succ, rule_grow, decide_expand, if_neg hnew, decision_succ, rule_grown, decide_just]
    refine decision_grow depth (arrayOf t) (arrayOf u) _ fun k hk => ?_
    have hlonger : (grown t).source.length < (grown (arrayOf t)).source.length := by
      rw [length_source_grown, length_source_grown, length_source_arrayOf]
      omega
    rcases List.mem_cons.mp hk with rfl | hk
    · exact hlonger
    · exact lt_trans (hgiven k hk) hlonger

/-- The header is read, but no depth is enough to compare two instances of its type. -/
theorem grow_undecided : ∃ header, parseHeader growHeader = .ok header ∧
    ∀ depth, (check (Env.initial.withAliases header) depth (grow (.ofName "Number"))
      (grow (.ofName "String")) []).1 = .undecided := by
  have hread : (parseHeader growHeader).toOption.any isGrowHeader = true := by decide +kernel
  obtain ⟨header, hheader, hgrow⟩ := ok_of_any hread
  refine ⟨header, hheader, fun depth => Verdict.decision_eq_none.mp ?_⟩
  rw [withAliases_of_isGrowHeader hgrow]
  exact decision_grow depth _ _ [] fun k hk => absurd hk List.not_mem_nil

end Subtype
end Countersign
