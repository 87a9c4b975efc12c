/-
# Types whose objects bind each field once

An object type has at most one field of each name. That holds of every type that is read, and
whatever is made of such types has it again: parts, instances of type parameters, unions, and objects
whose fields are collected one after the other.

Key definitions: `Ty.Tidy`, `Ty.TidyFields`, `FunctionTy.Tidy`.
Key theorems: `Ty.tidy_iff`, `Ty.tidy_objectOf`, `Ty.Tidy.substitute`, `builtinGlobals_tidy`.
-/
import Countersign.Proofs.Ty.Fields
import Countersign.Proofs.Ty.Substitute
import Countersign.Ty.Builtin

namespace Countersign
namespace Ty

/-- No object in the type repeats the name of a field. -/
def Tidy (t : Ty) : Prop := ∀ fs, .object fs ∈ t.parts → (fs.map (·.1)).Nodup

/-- Fields of different names, with tidy types. -/
structure TidyFields (fs : List (String × Ty)) : Prop where
  distinct : (fs.map (·.1)).Nodup
  types : ∀ f ∈ fs, f.2.Tidy

theorem tidy_iff {t : Ty} :
    t.Tidy ↔ (∀ fs, t = .object fs → (fs.map (·.1)).Nodup) ∧ ∀ u ∈ t.children, u.Tidy := by
  constructor
  · intro h
    refine ⟨?_, fun u hu fs hfs => h fs (parts_subset_of_mem_children hu hfs)⟩
    rintro fs rfl
    exact h fs (mem_parts_self _)
  · rintro ⟨hnode, hchildren⟩ fs hfs
    rcases mem_parts_iff.mp hfs with heq | ⟨u, hu, hfs⟩
    · exact hnode fs heq.symm
    · exact hchildren u hu fs hfs

theorem Tidy.child {t u : Ty} (h : t.Tidy) (hu : u ∈ t.children) : u.Tidy := (tidy_iff.mp h).2 u hu

/-- A type that is not an object is tidy if everything below its outermost node is. -/
theorem tidy_of_children {t : Ty} (hnode : ∀ fs, t ≠ .object fs) (h : ∀ u ∈ t.children, u.Tidy) :
    t.Tidy := tidy_iff.mpr ⟨fun fs heq => absurd heq (hnode fs), h⟩

theorem tidy_object_iff {fs : List (String × Ty)} : (object fs).Tidy ↔ TidyFields fs := by
  rw [tidy_iff]
  constructor
  · rintro ⟨hnode, hchildren⟩
    exact ⟨hnode fs rfl, fun f hf => hchildren f.2 (List.mem_map_of_mem (f := (·.2)) hf)⟩
  · rintro ⟨hdistinct, htypes⟩
    refine ⟨fun gs heq => Ty.object.inj heq ▸ hdistinct, fun u hu => ?_⟩
    obtain ⟨f, hf, rfl⟩ := List.mem_map.mp hu
    exact htypes f hf

theorem tidy_named (c : ClassName) : (named c).Tidy := tidy_of_children nofun nofun

theorem tidy_value (v : Value) : (value v).Tidy := tidy_of_children nofun nofun

theorem tidy_renamed (n s : ClassName) : (renamed n s).Tidy := tidy_of_children nofun nofun

theorem tidy_ofName (name : String) : (ofName name).Tidy := tidy_named _

theorem tidy_any : any.Tidy := tidy_named _

theorem Tidy.widen {t : Ty} (h : t.Tidy) : t.widen.Tidy := by
  cases t with
  | value v => exact tidy_named _
  | _ => exact h

theorem Tidy.getD {t : Option Ty} (h : ∀ u ∈ t, u.Tidy) {d : Ty} (hd : d.Tidy) :
    (t.getD d).Tidy := by
  cases t with
  | none => exact hd
  | some u => exact h u rfl

theorem tidy_unionOf {ts : List Ty} (h : ∀ t ∈ ts, t.Tidy) : (unionOf ts).Tidy := by
  unfold unionOf
  split
  · exact h _ (List.mem_singleton_self _)
  · exact tidy_of_children nofun h

theorem tidy_array {t : Ty} (h : t.Tidy) : (generic (ofName "Array") [t]).Tidy := by
  refine tidy_of_children nofun fun u hu => ?_
  rcases List.mem_cons.mp hu with rfl | hu
  · exact tidy_ofName _
  · rwa [List.mem_singleton.mp hu]

/-! ### Fields -/

namespace TidyFields

variable {fs : List (String × Ty)}

theorem nil : TidyFields [] := ⟨List.nodup_nil, nofun⟩

theorem lookup (h : TidyFields fs) {name : String} {t : Ty} (ht : fs.lookup name = some t) :
    t.Tidy := by
  obtain ⟨before, after, rfl, -⟩ := List.lookup_eq_some_iff.mp ht
  exact h.types (name, t) (List.mem_append_right _ List.mem_cons_self)

theorem setField (h : TidyFields fs) (name : String) {t : Ty} (ht : t.Tidy) :
    TidyFields (setField fs name t) := by
  constructor
  · rw [setField_names]
    split
    · exact h.distinct
    · rename_i hnew
      exact (List.nodup_append_comm.mp (List.nodup_cons.mpr ⟨hnew, h.distinct⟩))
  · intro f hf
    unfold Ty.setField at hf
    split at hf
    · obtain ⟨g, hg, rfl⟩ := List.mem_map.mp hf
      split
      · exact ht
      · exact h.types g hg
    · rcases List.mem_append.mp hf with hf | hf
      · exact h.types f hf
      · rwa [List.mem_singleton.mp hf]

theorem collect {new : List (String × Ty)} (h : TidyFields fs) (hnew : ∀ f ∈ new, f.2.Tidy) :
    TidyFields (collect fs new) := by
  induction new generalizing fs with
  | nil => exact h
  | cons f new ih =>
    exact ih (h.setField f.1 (hnew f List.mem_cons_self))
      fun g hg => hnew g (List.mem_cons_of_mem f hg)

end TidyFields

/-- An object whose fields are collected is tidy, even if names were repeated. -/
theorem tidy_objectOf {fields : List (String × Ty)} (h : ∀ f ∈ fields, f.2.Tidy) :
    (objectOf fields).Tidy := tidy_object_iff.mpr (TidyFields.nil.collect h)

theorem Tidy.asObject? {t : Ty} (h : t.Tidy) {fs : List (String × Ty)}
    (hfs : t.asObject? = some fs) : TidyFields fs := by
  induction t using children_induction with
  | step t ih =>
    cases t with
    | object gs =>
      cases hfs
      exact tidy_object_iff.mp h
    | moduleExports u =>
      have hu : u ∈ (moduleExports u).children := List.mem_singleton_self u
      exact ih u hu (h.child hu) hfs
    | _ => cases hfs

end Ty

/-! ### Functions -/

/-- The types of the parameters, the result and the receiver are tidy. -/
structure FunctionTy.Tidy (f : FunctionTy) : Prop where
  params : ∀ p ∈ f.params, p.2.Tidy
  result : f.result.Tidy
  receiver : ∀ t ∈ f.receiver, t.Tidy

namespace FunctionTy

variable {f : Option FunctionTy}

theorem tidy_params (h : ∀ g ∈ f, g.Tidy) : ∀ p ∈ (f.map (·.params)).getD [], p.2.Tidy := by
  cases f with
  | none => exact nofun
  | some g => exact (h g rfl).params

theorem tidy_result (h : ∀ g ∈ f, g.Tidy) : Ty.Tidy ((f.map (·.result)).getD .any) := by
  cases f with
  | none => exact Ty.tidy_any
  | some g => exact (h g rfl).result

end FunctionTy

namespace Ty

theorem Tidy.asFunction? {t : Ty} (h : t.Tidy) {f : FunctionTy} (hf : t.asFunction? = some f) :
    f.Tidy := by
  induction t using children_induction with
  | step t ih =>
    cases t with
    | function ps r receiver =>
      cases hf
      refine ⟨fun p hp => h.child ?_, h.child ?_, fun u hu => h.child ?_⟩
      · exact List.mem_append_left _ (List.mem_map_of_mem (f := (·.2)) hp)
      · exact List.mem_append_right _ List.mem_cons_self
      · exact List.mem_append_right _ (List.mem_cons_of_mem _ (Option.mem_toList.mpr hu))
    | moduleExports u =>
      have hu : u ∈ (moduleExports u).children := List.mem_singleton_self u
      exact ih u hu (h.child hu) hf
    | _ => cases hf

/-! ### Substitution -/

theorem Tidy.substitute {t : Ty} (h : t.Tidy) (params : List String) {args : List Ty}
    (hargs : ∀ a ∈ args, a.Tidy) : (t.substitute params args).Tidy := by
  induction t using children_induction with
  | step t ih =>
    have hchildren : ∀ u ∈ t.children.map (Ty.substitute params args), u.Tidy := by
      intro u hu
      obtain ⟨v, hv, rfl⟩ := List.mem_map.mp hu
      exact ih v hv (h.child hv)
    cases t with
    | named c =>
      unfold Ty.substitute
      split
      · exact tidy_named c
      · refine Tidy.getD (fun u hu => ?_) (tidy_named c)
        obtain ⟨before, after, hzip, -⟩ := List.lookup_eq_some_iff.mp hu
        have hpair : (c.name, u) ∈ params.zip args :=
          hzip ▸ List.mem_append_right _ List.mem_cons_self
        exact hargs u (List.of_mem_zip hpair).2
    | object fs =>
      rw [substitute_object]
      refine tidy_object_iff.mpr ⟨?_, fun f hf => hchildren f.2 ?_⟩
      · rw [List.map_map]
        exact (tidy_object_iff.mp h).distinct
      · obtain ⟨g, hg, rfl⟩ := List.mem_map.mp hf
        exact List.mem_map_of_mem (List.mem_map_of_mem (f := (·.2)) hg)
    | value v => exact tidy_value v
    | renamed n s => exact tidy_renamed n s
    | _ =>
      rw [← children_substitute params args (by simp)] at hchildren
      exact tidy_of_children (by simp [Ty.substitute]) hchildren

end Ty

theorem builtinGlobals_tidy : ∀ g ∈ builtinGlobals, g.2.Tidy := by
  have hdistinct : ∀ g ∈ builtinGlobals, ∀ u ∈ g.2.parts,
      ((u.asObject?.getD []).map (·.1)).Nodup := by decide +kernel
  exact fun g hg fs hfs => hdistinct g hg (.object fs) hfs

end Countersign
