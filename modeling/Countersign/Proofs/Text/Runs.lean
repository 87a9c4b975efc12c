/-
# Runs of characters

Where a text is taken apart: a run of characters that have a property ends at the first one that has
not, and what is free of a character begins a text only if it ends before that character comes.

Key theorems: `run_ends`, `prefix_of_fence`.
-/
import Mathlib.Data.List.TakeWhile
import Mathlib.Tactic

namespace Countersign

/-- A run of characters with `p` ends where a character without `p` comes. -/
theorem run_ends {α : Type} {p : α → Bool} {run rest : List α} (hrun : ∀ c ∈ run, p c = true)
    (hrest : ∀ c ∈ rest.head?, p c = false) :
    (run ++ rest).takeWhile p = run ∧ (run ++ rest).dropWhile p = rest := by
  rw [List.takeWhile_append_of_pos hrun, List.dropWhile_append_of_pos hrun]
  cases rest with
  | nil => simp
  | cons c rest => simp [hrest c rfl]

/-- What stands before the first `f` is the same however a text is taken apart at it. -/
theorem before_unique {a a' b b' : List Char} {f : Char} (ha : f ∉ a) (ha' : f ∉ a')
    (h : a ++ f :: b = a' ++ f :: b') : a = a' := by
  have hrun : ∀ {t : List Char}, f ∉ t → ∀ rest, (t ++ f :: rest).takeWhile (· != f) = t :=
    fun ht rest => (run_ends (fun c hc => by simpa using ne_of_mem_of_not_mem hc ht)
      (by simp)).1
  rw [← hrun ha b, h, hrun ha' b']

/-- What begins a text and has no `f` begins the part before an `f`. -/
theorem prefix_of_fence {p a b : List Char} {f : Char} (hf : f ∉ p) :
    p <+: a ++ f :: b ↔ p <+: a := by
  constructor
  · intro h
    by_cases hlength : p.length ≤ a.length
    · exact List.prefix_of_prefix_length_le h (List.prefix_append _ _) hlength
    · have hfence : a ++ [f] <+: a ++ f :: b :=
        (List.prefix_append_right_inj a).mpr ⟨b, rfl⟩
      have hmem : a ++ [f] <+: p := by
        refine List.prefix_of_prefix_length_le hfence h ?_
        rw [List.length_append, List.length_singleton]
        omega
      exact absurd (hmem.subset (List.mem_append_right _ (List.mem_singleton_self f))) hf
  · exact fun h => h.trans (List.prefix_append _ _)

theorem isPrefixOf_fence {p a b : List Char} {f : Char} (hf : f ∉ p) :
    p.isPrefixOf (a ++ f :: b) = p.isPrefixOf a := by
  rw [Bool.eq_iff_iff, List.isPrefixOf_iff_prefix, List.isPrefixOf_iff_prefix, prefix_of_fence hf]

end Countersign
