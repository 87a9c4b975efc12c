/-
# Comparisons decide compatibility

Where names have no parameters and types no intersections, comparing two types comes to an end, and
finds that they fit if and only if they are compatible.

A comparison only ever meets parts of the types it starts from and of the named types, originals of
renamed classes among them, and five classes that values widen to. Each resolution adds a new pair of
them to the assumptions, of which there are finitely many, and between two resolutions types get
smaller.

Key definitions: `met`, `weight`, `PlainSource`.
Key theorems: `decision_ne_none`, `isSubtype_iff_compatible`.
-/
import Countersign.Proofs.Subtype.Words

namespace Countersign
namespace Subtype

open Signature

/-! ### The types that are met -/

/-- The class that a renamed class is, and any other type itself. -/
def original : Ty → Ty
  | .renamed _ s => .named s
  | t => t

/-- The classes that values widen to. -/
def wideClasses : List Ty :=
  [ValueKind.string, .number, .trueWord, .null, .undefined].map fun k => .ofName k.className

/-- All nodes of the two types and of the named ones. -/
def nodes (env : Env) (a e : Ty) : List Ty :=
  (env.aliases.map (·.2.type) ++ [a, e]).flatMap Ty.parts

/-- The types that a comparison of `a` with `e` can meet. -/
def met (env : Env) (a e : Ty) : List Ty :=
  nodes env a e ++ (nodes env a e).map original ++ wideClasses

theorem length_nodes_le (env : Env) (a e : Ty) :
    (nodes env a e).length ≤ env.aliasSize + a.size + e.size := by
  have hfold : ∀ (aliases : List (String × Alias)) (start : Nat),
      start + ((aliases.map (·.2.type)).map Ty.size).sum ≤
        aliases.foldl (fun nodes a => nodes + a.2.type.size + 1) start := by
    intro aliases
    induction aliases with
    | nil => simp
    | cons entry aliases ih =>
      intro start
      have hrest := ih (start + entry.2.type.size + 1)
      simp only [List.map_cons, List.sum_cons, List.foldl_cons]
      omega
  have haliases := hfold env.aliases 0
  rw [nodes, List.length_flatMap, List.map_congr_left fun t _ => Ty.length_parts t]
  simp only [List.map_append, List.sum_append, List.map_cons, List.map_nil, List.sum_cons,
    List.sum_nil, Env.aliasSize]
  omega

theorem length_met_le (env : Env) (a e : Ty) :
    (met env a e).length ≤ 2 * (env.aliasSize + a.size + e.size) + 8 := by
  have hnodes := length_nodes_le env a e
  simp only [met, wideClasses, List.length_append, List.length_map, List.length_cons,
    List.length_nil]
  omega

section Met

variable {env : Env} {a₀ e₀ : Ty}

theorem child_mem_nodes {t u : Ty} (h : t ∈ nodes env a₀ e₀) (hu : u ∈ t.children) :
    u ∈ nodes env a₀ e₀ := by
  obtain ⟨root, hroot, ht⟩ := List.mem_flatMap.mp h
  refine List.mem_flatMap.mpr ⟨root, hroot, Ty.parts_subset_of_mem_parts ht ?_⟩
  exact Ty.parts_subset_of_mem_children hu u.mem_parts_self

theorem met_of_node {t : Ty} (h : t ∈ nodes env a₀ e₀) : t ∈ met env a₀ e₀ :=
  List.mem_append_left _ (List.mem_append_left _ h)

/-- A type that is met is a node or has no parts and is no renamed class. -/
theorem mem_met_cases {t : Ty} (h : t ∈ met env a₀ e₀) : t ∈ nodes env a₀ e₀ ∨ ∃ c, t = .named c := by
  rw [met, List.mem_append, List.mem_append] at h
  rcases h with (h | h) | h
  · exact .inl h
  · obtain ⟨u, hu, rfl⟩ := List.mem_map.mp h
    cases u with
    | renamed n s => exact .inr ⟨s, rfl⟩
    | _ => exact .inl hu
  · obtain ⟨k, -, rfl⟩ := List.mem_map.mp h
    exact .inr ⟨_, rfl⟩

theorem child_mem_met {t u : Ty} (h : t ∈ met env a₀ e₀) (hu : u ∈ t.children) :
    u ∈ met env a₀ e₀ := by
  rcases mem_met_cases h with ht | ⟨c, rfl⟩
  · exact met_of_node (child_mem_nodes ht hu)
  · cases hu

theorem original_mem_met {n s : ClassName} (h : .renamed n s ∈ met env a₀ e₀) :
    .named s ∈ met env a₀ e₀ := by
  rcases mem_met_cases h with ht | ⟨c, hc⟩
  · exact List.mem_append_left _ (List.mem_append_right _ (List.mem_map_of_mem (f := original) ht))
  · cases hc

theorem widen_mem_met (v : Value) : .named v.widen ∈ met env a₀ e₀ := by
  refine List.mem_append_right _ (List.mem_map.mpr ?_)
  obtain ⟨text, kind⟩ := v
  cases kind with
  | string => exact ⟨.string, by simp, rfl⟩
  | number => exact ⟨.number, by simp, rfl⟩
  | trueWord => exact ⟨.trueWord, by simp, rfl⟩
  | falseWord => exact ⟨.trueWord, by simp, rfl⟩
  | null => exact ⟨.null, by simp, rfl⟩
  | undefined => exact ⟨.undefined, by simp, rfl⟩

theorem resolve_mem_met (henv : PlainEnv env) {t : Ty} (ht : Legible t ∨ ∃ c, t = .named c)
    (h : t ∈ met env a₀ e₀) : env.resolve t ∈ met env a₀ e₀ := by
  rw [Env.resolve]
  rcases resolveWithin_stored (fun a ha => (henv a ha).1) henv.legible Env.resolutionLimit ht with
    hself | ⟨a, ha, hbody⟩
  · rw [hself]
    exact h
  · rw [← hbody]
    refine met_of_node (List.mem_flatMap.mpr ⟨a.2.type, ?_, Ty.mem_parts_self _⟩)
    exact List.mem_append_left _ (List.mem_map_of_mem (f := (·.2.type)) ha)

/-- The parts of a comparison of types that can be met can be met. -/
theorem part_met {a e b f : Ty} (ha : a ∈ met env a₀ e₀) (he : e ∈ met env a₀ e₀)
    (hpart : Part a e b f) : b ∈ met env a₀ e₀ ∧ f ∈ met env a₀ e₀ := by
  cases hpart with
  | actual hb => exact ⟨child_mem_met ha hb, he⟩
  | expected hf => exact ⟨ha, child_mem_met he hf⟩
  | both hb hf => exact ⟨child_mem_met ha hb, child_mem_met he hf⟩
  | swapped hb hf => exact ⟨child_mem_met he hb, child_mem_met ha hf⟩
  | widened _ => exact ⟨widen_mem_met _, he⟩
  | actualOriginal hrenamed =>
    subst hrenamed
    exact ⟨original_mem_met ha, he⟩
  | expectedOriginal hrenamed =>
    subst hrenamed
    exact ⟨ha, original_mem_met he⟩

/-- What a comparison leads to from types that can be met can be met. -/
theorem asks_met (henv : PlainEnv env) {a e b f : Ty} {given after : Assumed}
    (hpair : Comparable a e) (ha : a ∈ met env a₀ e₀) (he : e ∈ met env a₀ e₀)
    (hasks : (rule env a e).Asks given b f after) : b ∈ met env a₀ e₀ ∧ f ∈ met env a₀ e₀ := by
  rcases asks_cases hasks with ⟨hpart, -⟩ | ⟨-, rfl, rfl, -, -⟩
  · exact part_met ha he hpart
  · exact ⟨resolve_mem_met henv hpair.named_or_legible ha,
      resolve_mem_met henv (.inl hpair.expected) he⟩

theorem size_le_of_mem_met {t : Ty} (h : t ∈ met env a₀ e₀) :
    t.size ≤ env.aliasSize + a₀.size + e₀.size := by
  have hnodes := length_nodes_le env a₀ e₀
  rcases mem_met_cases h with ht | ⟨c, rfl⟩
  · obtain ⟨root, hroot, ht⟩ := List.mem_flatMap.mp ht
    have hpart := Ty.size_le_of_mem_parts ht
    have hroots : root.size ≤ (nodes env a₀ e₀).length := by
      rw [nodes, List.length_flatMap, List.map_congr_left fun t _ => Ty.length_parts t]
      exact List.single_le_sum (fun _ _ => Nat.zero_le _) _ (List.mem_map_of_mem hroot)
    omega
  · have hpositive := Ty.size_eq a₀
    simp only [Ty.size]
    omega

/-! ### Comparisons end -/

/-- One for a value or a renamed class, which becomes a class before it gets smaller. -/
def wrapping : Ty → Nat
  | .value _ => 1
  | .renamed _ _ => 1
  | _ => 0

/-- What decreases from one resolution to the next. -/
def weight (a e : Ty) : Nat := 2 * (a.size + e.size) + wrapping a + wrapping e

theorem wrapping_le (t : Ty) : wrapping t ≤ 1 := by
  cases t <;> simp [wrapping]

theorem weight_lt_of_part {a e b f : Ty} (h : Part a e b f) : weight b f < weight a e := by
  have hb := wrapping_le b
  have hf := wrapping_le f
  cases h with
  | actual hchild =>
    have hlt := Ty.size_lt_of_mem_children hchild
    simp only [weight]
    omega
  | expected hchild =>
    have hlt := Ty.size_lt_of_mem_children hchild
    simp only [weight]
    omega
  | both hchild hchild' =>
    have hlt := Ty.size_lt_of_mem_children hchild
    have hlt' := Ty.size_lt_of_mem_children hchild'
    simp only [weight]
    omega
  | swapped hchild hchild' =>
    have hlt := Ty.size_lt_of_mem_children hchild
    have hlt' := Ty.size_lt_of_mem_children hchild'
    simp only [weight]
    omega
  | widened ha =>
    subst ha
    simp only [weight, wrapping, Ty.size]
    omega
  | actualOriginal ha =>
    subst ha
    simp only [weight, wrapping, Ty.size]
    omega
  | expectedOriginal he =>
    subst he
    simp only [weight, wrapping, Ty.size]
    omega

end Met

/-- The pairs that can be assumed where these types are met. -/
def assumable (types : List Ty) : Assumed := (types ×ˢ types).map fun p => key p.1 p.2

theorem length_assumable (types : List Ty) :
    (assumable types).length = types.length * types.length := by
  rw [assumable, List.length_map, List.length_product]

/-- Distinct pairs that can be assumed are no more than there are. -/
theorem length_le_assumable {types : List Ty} {given : Assumed} (hnodup : given.Nodup)
    (h : given ⊆ assumable types) : given.length ≤ types.length * types.length := by
  rw [← length_assumable]
  exact (List.subperm_of_subset hnodup h).length_le

/-- **A comparison that meets finitely many types is decided** at a depth that leaves room for a
full descent after each resolution that is still possible; `Q` holds of all pairs that come up. -/
theorem decision_ne_none {env : Env} {Q : Ty → Ty → Prop} {types : List Ty}
    (hclosed : ∀ a e b f given after, Q a e → (rule env a e).Asks given b f after → Q b f)
    (hmet : ∀ a e, Q a e → a ∈ types ∧ e ∈ types) {bound : Nat}
    (hbound : ∀ b f, b ∈ types → f ∈ types → weight b f < bound) (depth : Nat) :
    ∀ (a e : Ty) (given : Assumed), Q a e → given.Nodup → given ⊆ assumable types →
      (types.length * types.length - given.length) * bound + weight a e < depth →
        decision env depth a e given ≠ none := by
  induction depth with
  | zero =>
    intro a e given _ _ _ hdepth
    exact absurd hdepth (Nat.not_lt_zero _)
  | succ depth ih =>
    intro a e given hpair hnodup hgiven hdepth
    rw [decision_succ]
    refine decide_ne_none fun b f after hasks => ?_
    have hpair' := hclosed a e b f given after hpair hasks
    obtain ⟨hb, hf⟩ := hmet b f hpair'
    rcases asks_cases hasks with ⟨hpart, rfl⟩ | ⟨-, -, -, hnew, rfl⟩
    · have hlt := weight_lt_of_part hpart
      exact ih b f after hpair' hnodup hgiven (by omega)
    · have hkey : key b f ∈ assumable types :=
        List.mem_map.mpr ⟨(b, f), List.mem_product.mpr ⟨hb, hf⟩, rfl⟩
      have hnodup' : (key b f :: given).Nodup := List.nodup_cons.mpr ⟨hnew, hnodup⟩
      have hgiven' : key b f :: given ⊆ assumable types := List.cons_subset.mpr ⟨hkey, hgiven⟩
      have hroom := length_le_assumable hnodup' hgiven'
      have hlt := hbound b f hb hf
      refine ih b f _ hpair' hnodup' hgiven' ?_
      rw [List.length_cons] at hroom ⊢
      -- One resolution fewer is possible, and it leaves room for any descent.
      obtain ⟨room, hroom'⟩ := Nat.exists_eq_add_of_le hroom
      rw [hroom'] at hdepth ⊢
      have hbefore : given.length + 1 + room - given.length = room + 1 := by omega
      have hafter : given.length + 1 + room - (given.length + 1) = room := by omega
      rw [hbefore, Nat.add_mul, Nat.one_mul] at hdepth
      rw [hafter]
      omega

/-- The depth at which types are compared is enough if the comparison meets nothing but parts of
what it starts from and of the named types; `Q` holds of all pairs that come up. -/
theorem isSubtype_ne_undecided_of_met {env : Env} {a e : Ty} {Q : Ty → Ty → Prop}
    (hclosed : ∀ b f c g given after, Q b f → (rule env b f).Asks given c g after → Q c g)
    (hmet : ∀ b f, Q b f → b ∈ met env a e ∧ f ∈ met env a e) (hstart : Q a e) :
    env.isSubtype a e ≠ .undecided := by
  have hbound : ∀ b f, b ∈ met env a e → f ∈ met env a e →
      weight b f < 2 * (2 * (env.aliasSize + a.size + e.size) + 8) := by
    intro b f hb hf
    have hb' := size_le_of_mem_met hb
    have hf' := size_le_of_mem_met hf
    have hwb := wrapping_le b
    have hwf := wrapping_le f
    simp only [weight]
    omega
  have hlength := length_met_le env a e
  have hne := decision_ne_none hclosed hmet hbound (env.comparisonDepth a e) a e [] hstart
    List.nodup_nil (List.nil_subset _) ?_
  · exact fun hundecided => hne (Verdict.decision_eq_none.mpr hundecided)
  · have hweight := hbound a e (hmet a e hstart).1 (hmet a e hstart).2
    have hsquare := Nat.mul_le_mul hlength hlength
    have hproduct := Nat.mul_le_mul_right (2 * (2 * (env.aliasSize + a.size + e.size) + 8)) hsquare
    rw [List.length_nil, Nat.sub_zero, Env.comparisonDepth, Nat.add_mul, Nat.one_mul]
    omega

theorem mem_met_start (env : Env) (a e : Ty) : a ∈ met env a e ∧ e ∈ met env a e := by
  constructor
  · exact met_of_node (List.mem_flatMap.mpr ⟨a, by simp, a.mem_parts_self⟩)
  · exact met_of_node (List.mem_flatMap.mpr ⟨e, by simp, e.mem_parts_self⟩)

/-- The depth at which legible types are compared is enough. -/
theorem isSubtype_ne_undecided {env : Env} (henv : PlainEnv env) {a e : Ty} (ha : Legible a)
    (he : Legible e) : env.isSubtype a e ≠ .undecided := by
  -- Comparable pairs of types that can be met lead to such pairs only.
  refine isSubtype_ne_undecided_of_met
    (Q := fun b f => Comparable b f ∧ b ∈ met env a e ∧ f ∈ met env a e) ?_ (fun _ _ h => h.2)
    ⟨⟨.inl ha, he⟩, mem_met_start env a e⟩
  rintro b f c g given after ⟨hpair, hb, hf⟩ hasks
  exact ⟨hpair.asks henv.legible hasks, asks_met henv hpair hb hf hasks⟩

/-! ### Comparisons are right -/

/-- A type that was read, without intersections and with fields that need no quotes. -/
structure PlainSource (t : Ty) : Prop where
  read : ∃ text, parseType text = .ok t
  intersectionFree : IntersectionFree t
  fieldsNamed : FieldsNamed t

theorem PlainSource.legible {t : Ty} (h : PlainSource t) : Legible t := by
  obtain ⟨text, htext⟩ := h.read
  exact ⟨parseType_written htext, h.fieldsNamed⟩

/-- **Comparing types that were read decides whether they are compatible**, where names have no
parameters, there are no intersections, and fields need no quotes. -/
theorem isSubtype_iff_compatible {env : Env} {actual expected : Ty}
    (henv : ∀ a ∈ env.aliases, a.2.params = [] ∧ PlainSource a.2.type)
    (hactual : PlainSource actual) (hexpected : PlainSource expected) :
    env.isSubtype actual expected ≠ .undecided ∧
      (env.isSubtype actual expected = .fits ↔ Compatible (rule env) actual expected) := by
  have hplain : PlainEnv env := fun a ha =>
    ⟨(henv a ha).1, (henv a ha).2.legible, (henv a ha).2.intersectionFree⟩
  have hdecided := isSubtype_ne_undecided hplain hactual.legible hexpected.legible
  refine ⟨hdecided, ?_⟩
  have hpair : PlainPair actual expected :=
    ⟨⟨.inl hactual.legible, hexpected.legible⟩, hactual.intersectionFree, hexpected.intersectionFree⟩
  obtain ⟨fits, hfits⟩ : ∃ fits, decision env (env.comparisonDepth actual expected) actual expected
      [] = some fits := by
    refine Option.ne_none_iff_exists'.mp fun hnone => ?_
    exact hdecided (Verdict.decision_eq_none.mp hnone)
  have hright := (rule_exact hplain).decision_iff hpair (clean_nil env)
    (fun b f _ _ hmem => absurd hmem List.not_mem_nil) hfits
  rw [← hright, ← Verdict.decision_eq_true]
  show decision env (env.comparisonDepth actual expected) actual expected [] = some true ↔ _
  rw [hfits, Option.some_inj]

/-- The type that a text is read as, if it is read as one. -/
def readAs (text : String) : Ty := (parseType text).toOption.getD default

theorem plainSource_readAs {text : String} (h : (parseType text).toOption.any (fun t =>
    decide (IntersectionFree t) && decide (FieldsNamed t)) = true) : PlainSource (readAs text) := by
  obtain ⟨t, hread, hplain⟩ := ok_of_any h
  rw [Bool.and_eq_true, decide_eq_true_eq, decide_eq_true_eq] at hplain
  unfold readAs
  rw [hread]
  exact ⟨⟨text, hread⟩, hplain.1, hplain.2⟩

/-- A list with an item in each node. -/
def nodeType : Ty := readAs "\x7b id: Number, next: Node | null \x7d"

/-- A list of which only the links are known. -/
def linkedType : Ty := readAs "\x7b next: null | Linked \x7d"

/-- Two recursive types, the second of which asks for less than the first has. -/
def linkedEnv : Env :=
  { Env.initial with aliases := [("Node", ⟨[], nodeType⟩), ("Linked", ⟨[], linkedType⟩)] }

theorem isSubtype_iff_compatible_linked :
    linkedEnv.isSubtype (readAs "Node") (readAs "Linked") ≠ .undecided ∧
      Compatible (rule linkedEnv) (readAs "Node") (readAs "Linked") := by
  have hnodeType : PlainSource nodeType := plainSource_readAs (by decide +kernel)
  have hlinkedType : PlainSource linkedType := plainSource_readAs (by decide +kernel)
  have hnode : PlainSource (readAs "Node") := plainSource_readAs (by decide +kernel)
  have hlinked : PlainSource (readAs "Linked") := plainSource_readAs (by decide +kernel)
  have henv : ∀ a ∈ linkedEnv.aliases, a.2.params = [] ∧ PlainSource a.2.type := by
    simp only [linkedEnv, List.forall_mem_cons]
    exact ⟨⟨trivial, hnodeType⟩, ⟨trivial, hlinkedType⟩, by simp⟩
  have hshallow : decision linkedEnv 12 (readAs "Node") (readAs "Linked") [] = some true := by
    decide +kernel
  have hdepth : 12 ≤ linkedEnv.comparisonDepth (readAs "Node") (readAs "Linked") := by
    decide +kernel
  obtain ⟨hdecided, hfits⟩ := isSubtype_iff_compatible henv hnode hlinked
  exact ⟨hdecided, hfits.mp (isSubtype_of_decision hdepth hshallow)⟩

end Subtype
end Countersign
