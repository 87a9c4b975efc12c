/-
# A text spells one type

Different types have different texts, as long as the texts can be read at all. A generic application
of another one is not read back by the grammar, which takes a single list of arguments; the rules
here take any number of them, and are used only to tell types apart.

Key definitions: `appliedMany`, `manyAt`.
Key theorems: `source_injective`.
-/
import Countersign.Proofs.Signature.RoundTrip

namespace Countersign
namespace Signature

/-- Applies `base` to the lists of arguments that follow; to at most `limit` of them. -/
def suffixes (sub : Reads Ty) : Nat → Ty → Reads Ty
  | 0, base, ts => .ok (base, ts)
  | limit + 1, base, ts =>
    match eat? .less ts with
    | none => .ok (base, ts)
    | some ts => do
      let (args, ts) ← sepBy .comma sub ts
      let ((), ts) ← expect .greater ts
      suffixes sub limit (.generic base args) ts

/-- A primary type, perhaps applied to arguments any number of times. -/
def appliedMany (sub : Reads Ty) : Reads Ty := fun ts => do
  let (base, rest) ← primary sub ts
  suffixes sub ts.length base rest

/-- A type nested less than `depth` levels deep. -/
def manyAt : Nat → Reads Ty
  | 0 => fun ts => .error ⟨[.type], ts⟩
  | depth + 1 => unionOver (appliedMany (manyAt depth))

/-- How many lists of arguments follow the innermost base. -/
def spine : Ty → Nat
  | .generic b _ => spine b + 1
  | _ => 0

theorem spine_le_size (t : Ty) : spine t ≤ t.size := by
  induction t using Ty.children_induction with
  | step t ih =>
    cases t with
    | generic b as =>
      have hb := ih b List.mem_cons_self
      simp only [spine, Ty.size]
      omega
    | _ => simp [spine]

variable {sub : Reads Ty} {after : List Punct}

theorem suffixes_none {rest : List Lexeme} (h : Follows after rest) (hafter : .less ∉ after)
    (limit : Nat) (t : Ty) : suffixes sub limit t rest = .ok (t, rest) := by
  cases limit with
  | zero => rfl
  | succ limit => simp only [suffixes, h.eat?_none hafter]

theorem appliedMany_of_primary {ts : List Token} {t : Ty} (hafter : .less ∉ after)
    (h : ReadsBack (primary sub) ts t after) : ReadsBack (appliedMany sub) ts t after := by
  intro ls rest hls hrest
  simp only [appliedMany, h ls rest hls hrest, suffixes_none hrest hafter, bind, Except.bind]

/-- The innermost base is read first, and then one list of arguments after the other. -/
theorem primary_suffixes {size : Nat}
    (h : ∀ t, Written t → t.size < size → ReadsBack sub (tokens t) t closers) {t : Ty}
    (hw : Written t) (hsize : t.size < size ∨ t.size ≤ size ∧ t.rank = 3) :
    ∀ ls rest limit, ls.map (·.token) = encloseTokens 3 t (tokens t) → Follows primaryEnds rest →
      (primary sub (ls ++ rest) >>= fun base => suffixes sub (spine t + limit) base.1 base.2) =
        suffixes sub limit t rest := by
  induction t using Ty.children_induction with
  | step t ih =>
    obtain ⟨hnode, hwritten⟩ := written_iff.mp hw
    have hchild : ∀ u ∈ t.children, u.size < size := by
      intro u hu
      have hlt := Ty.size_lt_of_mem_children hu
      omega
    have hback : ∀ u ∈ t.children, ReadsBack sub (tokens u) u closers := fun u hu =>
      h u (hwritten u hu) (hchild u hu)
    by_cases hgeneric : ∃ b as, t = .generic b as
    · obtain ⟨b, as, rfl⟩ := hgeneric
      intro ls rest limit hls hrest
      have hb : b ∈ (Ty.generic b as).children := List.mem_cons_self
      rw [encloseTokens, if_neg (by simp [Ty.rank]), tokens] at hls
      obtain ⟨ls₁, ls₂, rfl, hls₁, hls₂⟩ := List.map_eq_append_iff.mp hls
      obtain ⟨start, ls₃, rfl, hls₃⟩ := lexemes_cons hls₂
      obtain ⟨ls₄, ls₅, rfl, hls₄, hls₅⟩ := List.map_eq_append_iff.mp hls₃
      obtain ⟨stop, ls₆, rfl, hls₆⟩ := lexemes_cons hls₅
      obtain rfl : ls₆ = [] := by simpa using hls₆
      have hbase := ih b hb (hwritten b hb) (.inl (hchild b hb)) ls₁
        (⟨.punct .less, start⟩ :: (ls₄ ++ ⟨.punct .greater, stop⟩ :: rest)) (limit + 1) hls₁
        (Follows.cons List.mem_cons_self start)
      have htypes : ReadsBack (sepBy .comma sub) _ as [.greater] :=
        types_back hnode (by decide) (by decide) fun u hu => hback u (List.mem_cons_of_mem _ hu)
      have hargs := htypes ls₄ (⟨.punct .greater, stop⟩ :: rest) hls₄
        (Follows.cons List.mem_cons_self stop)
      have hspine : spine (.generic b as) + limit = spine b + (limit + 1) := by
        simp only [spine]
        omega
      simp only [List.append_assoc, List.cons_append, List.nil_append]
      rw [hspine, hbase]
      simp only [suffixes, eat?_punct, hargs, expect_punct, bind, Except.bind]
    · intro ls rest limit hls hrest
      have hself : ReadsBack (primary sub) (encloseTokens 3 t (tokens t)) t primaryEnds := by
        have hnot : ∀ b as, t ≠ .generic b as := fun b as ht => hgeneric ⟨b, as, ht⟩
        rcases hsize with hlt | ⟨-, hrank⟩
        · exact base_back hw hnot hback (h t hw hlt)
        · rw [encloseTokens, if_neg (by omega)]
          exact primary_back hw ⟨hrank, hnot⟩ hback
      have hspine : spine t = 0 := by
        unfold spine
        split
        · exact absurd ⟨_, _, rfl⟩ hgeneric
        · rfl
      rw [hself ls rest hls hrest, hspine, Nat.zero_add]
      rfl

theorem appliedMany_back {size : Nat}
    (h : ∀ t, Written t → t.size < size → ReadsBack sub (tokens t) t closers) :
    MembersBack Written (appliedMany sub) size := by
  constructor
  · intro t ht hsize hrank ls rest hls hrest
    have henclose : encloseTokens 3 t (tokens t) = tokens t := by
      rw [encloseTokens, if_neg (by omega)]
    have hlength : spine t ≤ (ls ++ rest).length := by
      have hspine := spine_le_size t
      have htokens := size_le_length_tokens ht
      rw [← hls, List.length_map] at htokens
      rw [List.length_append]
      omega
    obtain ⟨limit, hlimit⟩ := Nat.exists_eq_add_of_le hlength
    have hmany := primary_suffixes h ht (.inr ⟨hsize, hrank⟩) ls rest limit
      (hls.trans henclose.symm) (hrest.mono (by decide))
    rw [suffixes_none hrest (by decide)] at hmany
    rw [appliedMany, hlimit]
    exact hmany
  · intro t ht hsize hrank
    obtain ⟨hnode, hwritten⟩ := written_iff.mp ht
    cases t with
    | function ps r receiver =>
      exact appliedMany_of_primary (by decide) (function_written_back ht fun u hu =>
        h u (hwritten u hu) (by have := Ty.size_lt_of_mem_children hu; omega))
    | moduleExports t => exact absurd hnode id
    | _ => exact absurd hrank (by simp [Ty.rank])
  · intro t ht hlt
    exact appliedMany_of_primary (by decide) ((group_back ht (h t ht hlt)).mono (by decide))

theorem manyAt_back (depth : Nat) : ∀ t, Written t → t.size ≤ depth →
    ReadsBack (manyAt depth) (tokens t) t closers := by
  induction depth with
  | zero =>
    intro t _ hsize
    have hsize' := Ty.size_eq t
    omega
  | succ depth ih =>
    intro t ht hsize
    rw [manyAt]
    refine (appliedMany_back fun u hu hlt => ih u hu (by omega)).union ?_ (fun _ h => h) ht hsize
    exact fun t u ht hu => (written_iff.mp ht).2 u hu

/-- The tokens of a type tell which type it is. -/
theorem tokens_injective {t u : Ty} (ht : Written t) (hu : Written u) (h : tokens t = tokens u) :
    t = u := by
  have hread : ∀ v, Written v → v.size ≤ max t.size u.size → ∀ ls : List Lexeme,
      ls.map (·.token) = tokens v → manyAt (max t.size u.size) ls = .ok (v, []) := by
    intro v hv hsize ls hls
    have hback := manyAt_back _ v hv hsize ls [] hls follows_nil
    rwa [List.append_nil] at hback
  let ls : List Lexeme := (tokens t).map fun token => ⟨token, 0⟩
  have hls : ls.map (·.token) = tokens t := by
    rw [List.map_map]
    exact List.map_id _
  have hreadt := hread t ht (le_max_left _ _) ls hls
  have hreadu := hread u hu (le_max_right _ _) ls (hls.trans h)
  rw [hreadt] at hreadu
  injection hreadu with hpair
  exact congrArg Prod.fst hpair

/-- **Legible types with the same text are the same type.** -/
theorem source_injective {t u : Ty} (ht : Legible t) (hu : Legible u) (h : t.source = u.source) :
    t = u := by
  obtain ⟨ls, hls, htokens⟩ := tokenize_source ht
  obtain ⟨ls', hls', hutokens⟩ := tokenize_source hu
  rw [h, hls'] at hls
  cases hls
  exact tokens_injective ht.1 hu.1 (htokens.symm.trans hutokens)

end Signature
end Countersign
