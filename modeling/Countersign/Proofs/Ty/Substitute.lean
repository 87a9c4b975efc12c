/-
# Substitution by parts

Substitution changes what stands below the outermost node part by part, and the node itself only
where it is the name of a parameter.

Key theorems: `Ty.substitute_function`, `Ty.substitute_object`, `Ty.children_substitute`,
`Ty.substitute_congr`.
-/
import Countersign.Ty.Substitute
import Countersign.Proofs.Ty.Parts

namespace Countersign
namespace Ty

variable (params : List String) (args : List Ty)

theorem substituteAll_eq : ∀ ts : List Ty,
    substituteAll params args ts = ts.map (substitute params args)
  | [] => rfl
  | t :: ts => by rw [substituteAll, substituteAll_eq ts, List.map_cons]

theorem substituteReceiver_eq : ∀ t : Option Ty,
    substituteReceiver params args t = t.map (substitute params args)
  | none => rfl
  | some _ => rfl

theorem substituteParams_eq : ∀ ps : List (Option String × Ty),
    substituteParams params args ps = ps.map fun p => (p.1, substitute params args p.2)
  | [] => rfl
  | (n, t) :: ps => by rw [substituteParams, substituteParams_eq ps, List.map_cons]

theorem substituteFields_eq : ∀ fs : List (String × Ty),
    substituteFields params args fs = fs.map fun f => (f.1, substitute params args f.2)
  | [] => rfl
  | (n, t) :: fs => by rw [substituteFields, substituteFields_eq fs, List.map_cons]

theorem substitute_function (ps : List (Option String × Ty)) (r : Ty) (t : Option Ty) :
    substitute params args (.function ps r t) =
      .function (ps.map fun p => (p.1, substitute params args p.2)) (substitute params args r)
        (t.map (substitute params args)) := by
  rw [substitute, substituteParams_eq, substituteReceiver_eq]

theorem substitute_object (fs : List (String × Ty)) : substitute params args (.object fs) =
    .object (fs.map fun f => (f.1, substitute params args f.2)) := by
  rw [substitute, substituteFields_eq]

/-- Below the outermost node substitution goes part by part, except that a name has no parts. -/
theorem children_substitute {t : Ty} (h : ∀ c, t ≠ .named c) :
    (substitute params args t).children = t.children.map (substitute params args) := by
  cases t with
  | named c => exact absurd rfl (h c)
  | value v => rfl
  | renamed n s => rfl
  | function ps r receiver =>
    rw [substitute_function]
    cases receiver <;> simp [children]
  | object fs =>
    rw [substitute_object]
    simp [children]
  | union ms => simp [substitute, children, substituteAll_eq]
  | intersection ms => simp [substitute, children, substituteAll_eq]
  | generic b as => simp [substitute, children, substituteAll_eq]
  | tuple is => simp [substitute, children, substituteAll_eq]
  | moduleExports t => rfl

/-- A type is instantiated alike by arguments that agree on the parameters that stand in it. -/
theorem substitute_congr {params : List String} {args args' : List Ty} {t : Ty}
    (h : ∀ p, .named (.user p) ∈ t.parts → argument? params args p = argument? params args' p) :
    substitute params args t = substitute params args' t := by
  induction t using children_induction with
  | step t ih =>
    have hchild : ∀ u ∈ t.children, substitute params args u = substitute params args' u :=
      fun u hu => ih u hu fun p hp => h p (parts_subset_of_mem_children hu hp)
    have hmap : ∀ us : List Ty, us ⊆ t.children →
        us.map (substitute params args) = us.map (substitute params args') :=
      fun us hus => List.map_congr_left fun u hu => hchild u (hus hu)
    cases t with
    | named c =>
      obtain ⟨name, _ | _⟩ := c
      · simp only [substitute, Bool.false_eq_true, ↓reduceIte]
        rw [h name (mem_parts_self _)]
      · rfl
    | value v => rfl
    | renamed n s => rfl
    | function ps r receiver =>
      have hparams : ∀ q ∈ ps, substitute params args q.2 = substitute params args' q.2 :=
        fun q hq => hchild q.2 (List.mem_append_left _ (List.mem_map_of_mem (f := (·.2)) hq))
      have hresult := hchild r (List.mem_append_right _ List.mem_cons_self)
      have hreceiver : ∀ u ∈ receiver, substitute params args u = substitute params args' u :=
        fun u hu => hchild u (List.mem_append_right _
          (List.mem_cons_of_mem _ (Option.mem_toList.mpr hu)))
      rw [substitute_function, substitute_function, hresult, Option.map_congr hreceiver,
        List.map_congr_left fun q hq => by rw [hparams q hq]]
    | object fs =>
      rw [substitute_object, substitute_object]
      refine congrArg Ty.object (List.map_congr_left fun f hf => ?_)
      rw [hchild f.2 (List.mem_map_of_mem (f := (·.2)) hf)]
    | union ms => simp only [substitute, substituteAll_eq, hmap ms (List.Subset.refl ms)]
    | intersection ms => simp only [substitute, substituteAll_eq, hmap ms (List.Subset.refl ms)]
    | generic b as =>
      simp only [substitute, substituteAll_eq, hchild b List.mem_cons_self,
        hmap as (List.subset_cons_self b as)]
    | tuple is => simp only [substitute, substituteAll_eq, hmap is (List.Subset.refl is)]
    | moduleExports u => simp only [substitute, hchild u (List.mem_singleton_self u)]

end Ty
end Countersign
