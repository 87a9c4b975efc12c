/-
# Fields that are collected one after the other

Where a name is given several types, its first place and its last type count.

Key definition: `Ty.collect`.
Key theorems: `Ty.collect_names`, `Ty.collect_lookup`.
-/
import Countersign.Ty.Basic
import Mathlib.Tactic

namespace Countersign
namespace Ty

/-- The fields after more were set, one after the other. -/
def collect (fields new : List (String × Ty)) : List (String × Ty) :=
  new.foldl (fun fs f => setField fs f.1 f.2) fields

theorem collect_append (fields new new' : List (String × Ty)) :
    collect fields (new ++ new') = collect (collect fields new) new' := List.foldl_append

theorem setField_names (fields : List (String × Ty)) (name : String) (t : Ty) :
    (setField fields name t).map (·.1) =
      if name ∈ fields.map (·.1) then fields.map (·.1) else fields.map (·.1) ++ [name] := by
  have hany : fields.any (·.1 == name) = true ↔ name ∈ fields.map (·.1) := by
    simp [List.any_eq_true]
  unfold setField
  by_cases h : name ∈ fields.map (·.1)
  · rw [if_pos (hany.mpr h), if_pos h, List.map_map]
    refine List.map_congr_left fun f _ => ?_
    by_cases hf : f.1 = name <;> simp [hf]
  · rw [if_neg (hany.not.mpr h), if_neg h, List.map_append]
    rfl

theorem lookup_cons (f : String × Ty) (fields : List (String × Ty)) (key : String) :
    (f :: fields).lookup key = if key = f.1 then some f.2 else fields.lookup key := by
  obtain ⟨name, t⟩ := f
  rw [List.lookup_cons]
  by_cases h : key = name
  · rw [if_pos h, beq_iff_eq.mpr h]
  · rw [if_neg h, beq_false_of_ne h]

theorem map_lookup (fields : List (String × Ty)) (name : String) (t : Ty) (key : String) :
    (fields.map fun f => if f.1 == name then (name, t) else f).lookup key =
      if key = name then (fields.lookup key).map fun _ => t else fields.lookup key := by
  induction fields with
  | nil => by_cases h : key = name <;> simp [h]
  | cons f fields ih =>
    rw [List.map_cons, lookup_cons, lookup_cons, ih]
    by_cases hf : f.1 = name <;> by_cases hkey : key = name <;> grind

theorem setField_lookup (fields : List (String × Ty)) (name : String) (t : Ty) (key : String) :
    (setField fields name t).lookup key = if key = name then some t else fields.lookup key := by
  unfold setField
  split
  · rename_i h
    obtain ⟨f, hf, hname⟩ := List.any_eq_true.mp h
    have hbound : (fields.lookup name).isSome = true :=
      List.lookup_isSome_iff.mpr ⟨f, hf, by rwa [BEq.comm] at hname⟩
    obtain ⟨u, hu⟩ := Option.isSome_iff_exists.mp hbound
    rw [map_lookup]
    by_cases hkey : key = name
    · rw [if_pos hkey, if_pos hkey, hkey, hu]
      rfl
    · rw [if_neg hkey, if_neg hkey]
  · rename_i h
    have hfree : fields.lookup name = none :=
      List.lookup_eq_none_iff.mpr fun f hf => by
        have hne : ¬ f.1 = name := fun he => h (List.any_eq_true.mpr ⟨f, hf, beq_iff_eq.mpr he⟩)
        simpa using Ne.symm hne
    rw [List.lookup_append, lookup_cons]
    by_cases hkey : key = name
    · rw [if_pos hkey, hkey, hfree, if_pos rfl]
      rfl
    · rw [if_neg hkey, if_neg hkey]
      exact Option.or_none

/-- The names in the order in which they came first. -/
theorem collect_names (new : List (String × Ty)) :
    (collect [] new).map (·.1) = (new.map (·.1)).eraseDups := by
  induction new using List.reverseRecOn with
  | nil => rfl
  | append_singleton new f ih =>
    have hlast : collect [] (new ++ [f]) = setField (collect [] new) f.1 f.2 :=
      collect_append [] new [f]
    have hdups : ([f.1].removeAll (new.map (·.1))).eraseDups =
        if f.1 ∈ new.map (·.1) then [] else [f.1] := by
      by_cases h : f.1 ∈ new.map (·.1)
      · rw [if_pos h, List.removeAll, List.filter_singleton, List.elem_eq_true_of_mem h]
        rfl
      · have hnew : (new.map (·.1)).elem f.1 = false := by simpa using h
        rw [if_neg h, List.removeAll, List.filter_singleton, hnew]
        rfl
    rw [hlast, setField_names, ih, List.map_append, List.eraseDups_append, List.map_singleton,
      hdups]
    simp only [List.mem_eraseDups]
    by_cases h : f.1 ∈ new.map (·.1)
    · rw [if_pos h, if_pos h, List.append_nil]
    · rw [if_neg h, if_neg h]

theorem collect_eq_nil {new : List (String × Ty)} : collect [] new = [] ↔ new = [] := by
  constructor
  · intro h
    cases new with
    | nil => rfl
    | cons f new =>
      have hnames := collect_names (f :: new)
      rw [h, List.map_cons, List.eraseDups_cons] at hnames
      cases hnames
  · rintro rfl
    rfl

/-- The type that each name was given last. -/
theorem collect_lookup (new : List (String × Ty)) (key : String) :
    (collect [] new).lookup key = new.reverse.lookup key := by
  induction new using List.reverseRecOn with
  | nil => rfl
  | append_singleton new f ih =>
    have hlast : collect [] (new ++ [f]) = setField (collect [] new) f.1 f.2 :=
      collect_append [] new [f]
    rw [hlast, setField_lookup, ih, List.reverse_concat, lookup_cons]

/-- A name that was given types is bound to one of them. -/
theorem collect_bound {new : List (String × Ty)} {key : String} (h : key ∈ new.map (·.1)) :
    ∃ t, (key, t) ∈ new ∧ (collect [] new).lookup key = some t := by
  obtain ⟨f, hf, rfl⟩ := List.mem_map.mp h
  have hbound : (new.reverse.lookup f.1).isSome = true :=
    List.lookup_isSome_iff.mpr ⟨f, List.mem_reverse.mpr hf, beq_self_eq_true _⟩
  obtain ⟨t, ht⟩ := Option.isSome_iff_exists.mp hbound
  obtain ⟨before, after, hsplit, -⟩ := List.lookup_eq_some_iff.mp ht
  have hmem : (f.1, t) ∈ new.reverse := hsplit ▸ List.mem_append_right _ List.mem_cons_self
  exact ⟨t, List.mem_reverse.mp hmem, (collect_lookup new f.1).trans ht⟩

end Ty
end Countersign
