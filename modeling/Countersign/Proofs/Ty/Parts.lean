/-
# The parts of a type

Every node of a type is one of its parts, and a type has as many parts as it has nodes. Proofs
about all types go by induction over the parts that stand directly below the outermost node.

Key definitions: `Ty.children`, `Ty.parts`.
Key theorems: `Ty.children_induction`, `Ty.parts_eq`, `Ty.length_parts`, `Ty.same_refl`.
-/
import Countersign.Ty.Basic
import Mathlib.Tactic

namespace Countersign
namespace Ty

/-- The types that stand directly below the outermost node. -/
def children : Ty → List Ty
  | .named _ => []
  | .value _ => []
  | .renamed _ _ => []
  | .function ps r t => ps.map (·.2) ++ r :: t.toList
  | .object fs => fs.map (·.2)
  | .union ms => ms
  | .intersection ms => ms
  | .generic b as => b :: as
  | .tuple is => is
  | .moduleExports t => [t]

theorem sizeAll_eq : ∀ ts : List Ty, sizeAll ts = (ts.map size).sum
  | [] => rfl
  | t :: ts => by simp [sizeAll, sizeAll_eq ts]

theorem sizeParams_eq : ∀ ps : List (Option String × Ty),
    sizeParams ps = ((ps.map (·.2)).map size).sum
  | [] => rfl
  | (_, t) :: ps => by simp [sizeParams, sizeParams_eq ps]

theorem sizeFields_eq : ∀ fs : List (String × Ty), sizeFields fs = ((fs.map (·.2)).map size).sum
  | [] => rfl
  | (_, t) :: fs => by simp [sizeFields, sizeFields_eq fs]

/-- The outermost node and those below it. -/
theorem size_eq (t : Ty) : t.size = 1 + (t.children.map size).sum := by
  cases t with
  | function ps r receiver =>
    cases receiver <;>
      simp [size, children, sizeParams_eq, sizeReceiver] <;> omega
  | _ => simp [size, children, sizeAll_eq, sizeFields_eq, Nat.add_assoc]

theorem size_lt_of_mem_children {t u : Ty} (h : u ∈ t.children) : u.size < t.size := by
  have := List.single_le_sum (fun _ _ => Nat.zero_le _) _ (List.mem_map_of_mem (f := size) h)
  rw [size_eq t]
  omega

/-- What holds of a type whenever it holds of everything directly below its outermost node holds of
every type. -/
theorem children_induction {P : Ty → Prop} (step : ∀ t, (∀ u ∈ t.children, P u) → P t) (t : Ty) :
    P t := by
  induction hn : t.size using Nat.strong_induction_on generalizing t with
  | _ n ih => exact step t fun u hu => ih u.size (hn ▸ size_lt_of_mem_children hu) u rfl

mutual

/-- All nodes of a type, as types, the outermost first. -/
def parts : Ty → List Ty
  | .named c => [.named c]
  | .value v => [.value v]
  | .renamed n s => [.renamed n s]
  | .function ps r t =>
    .function ps r t :: (partsOfParams ps ++ (parts r ++ partsOfReceiver t))
  | .object fs => .object fs :: partsOfFields fs
  | .union ms => .union ms :: partsOfAll ms
  | .intersection ms => .intersection ms :: partsOfAll ms
  | .generic b as => .generic b as :: (parts b ++ partsOfAll as)
  | .tuple is => .tuple is :: partsOfAll is
  | .moduleExports t => .moduleExports t :: parts t
termination_by structural t => t

/-- The nodes of all the types. -/
def partsOfAll : List Ty → List Ty
  | [] => []
  | t :: ts => parts t ++ partsOfAll ts
termination_by structural t => t

/-- The nodes of a receiver, if there is one. -/
def partsOfReceiver : Option Ty → List Ty
  | none => []
  | some t => parts t
termination_by structural t => t

/-- The nodes of all the parameters. -/
def partsOfParams : List (Option String × Ty) → List Ty
  | [] => []
  | (_, t) :: ps => parts t ++ partsOfParams ps
termination_by structural t => t

/-- The nodes of all the fields. -/
def partsOfFields : List (String × Ty) → List Ty
  | [] => []
  | (_, t) :: fs => parts t ++ partsOfFields fs
termination_by structural t => t

end

theorem partsOfAll_eq : ∀ ts : List Ty, partsOfAll ts = ts.flatMap parts
  | [] => rfl
  | t :: ts => by simp [partsOfAll, partsOfAll_eq ts]

theorem partsOfParams_eq : ∀ ps : List (Option String × Ty),
    partsOfParams ps = (ps.map (·.2)).flatMap parts
  | [] => rfl
  | (_, t) :: ps => by simp [partsOfParams, partsOfParams_eq ps]

theorem partsOfFields_eq : ∀ fs : List (String × Ty),
    partsOfFields fs = (fs.map (·.2)).flatMap parts
  | [] => rfl
  | (_, t) :: fs => by simp [partsOfFields, partsOfFields_eq fs]

/-- The outermost node and the parts of what stands below it. -/
theorem parts_eq (t : Ty) : t.parts = t :: t.children.flatMap parts := by
  cases t with
  | function ps r receiver =>
    cases receiver <;> simp [parts, children, partsOfParams_eq, partsOfReceiver]
  | _ => simp [parts, children, partsOfAll_eq, partsOfFields_eq]

theorem mem_parts_self (t : Ty) : t ∈ t.parts := by
  rw [parts_eq]
  exact List.mem_cons_self

theorem parts_subset_of_mem_children {t u : Ty} (h : u ∈ t.children) : u.parts ⊆ t.parts := by
  intro v hv
  rw [parts_eq t]
  exact List.mem_cons_of_mem _ (List.mem_flatMap.mpr ⟨u, h, hv⟩)

theorem mem_parts_iff {t v : Ty} : v ∈ t.parts ↔ v = t ∨ ∃ u ∈ t.children, v ∈ u.parts := by
  rw [parts_eq t, List.mem_cons, List.mem_flatMap]

/-- The parts of a part are parts. -/
theorem parts_subset_of_mem_parts {t u : Ty} (h : u ∈ t.parts) : u.parts ⊆ t.parts := by
  induction t using children_induction with
  | step t ih =>
    rcases mem_parts_iff.mp h with rfl | ⟨c, hc, hu⟩
    · exact List.Subset.refl _
    · exact List.Subset.trans (ih c hc hu) (parts_subset_of_mem_children hc)

theorem size_le_of_mem_parts {t u : Ty} (h : u ∈ t.parts) : u.size ≤ t.size := by
  induction t using children_induction with
  | step t ih =>
    rcases mem_parts_iff.mp h with rfl | ⟨c, hc, hu⟩
    · exact Nat.le_refl _
    · exact Nat.le_trans (ih c hc hu) (Nat.le_of_lt (size_lt_of_mem_children hc))

theorem length_parts (t : Ty) : t.parts.length = t.size := by
  induction t using children_induction with
  | step t ih =>
    rw [parts_eq, size_eq, List.length_cons, List.length_flatMap, Nat.add_comm,
      List.map_congr_left ih]

/-! ### Equality of types -/

/-- A field is found by its name where no name is repeated. -/
theorem lookup_of_mem {fs : List (String × Ty)} (hnd : (fs.map (·.1)).Nodup) {name : String}
    {t : Ty} (h : (name, t) ∈ fs) : fs.lookup name = some t := by
  induction fs with
  | nil => simp at h
  | cons f fs ih =>
    rw [List.map_cons, List.nodup_cons] at hnd
    rcases List.mem_cons.mp h with rfl | h
    · simp
    · have hne : name ≠ f.1 := by
        rintro rfl
        exact hnd.1 (List.mem_map_of_mem (f := (·.1)) h)
      rw [List.lookup_cons, beq_false_of_ne hne]
      exact ih hnd.2 h

theorem sameAll_refl : ∀ ts : List Ty, (∀ t ∈ ts, same t t = true) → sameAll ts ts = true
  | [], _ => rfl
  | t :: ts, h => by
    simp only [sameAll, Bool.and_eq_true]
    exact ⟨h t (by simp), sameAll_refl ts fun u hu => h u (by simp [hu])⟩

theorem sameParams_refl : ∀ ps : List (Option String × Ty),
    (∀ t ∈ ps.map (·.2), same t t = true) → sameParams ps ps = true
  | [], _ => rfl
  | (n, t) :: ps, h => by
    simp only [sameParams, beq_self_eq_true, Bool.true_and, Bool.and_eq_true]
    exact ⟨h t (by simp), sameParams_refl ps fun u hu => h u (List.mem_cons_of_mem _ hu)⟩

theorem sameFields_of_lookup {gs : List (String × Ty)} : ∀ fs : List (String × Ty),
    (∀ f ∈ fs, gs.lookup f.1 = some f.2 ∧ same f.2 f.2 = true) → sameFields fs gs = true
  | [], _ => rfl
  | (n, t) :: fs, h => by
    obtain ⟨hlookup, hsame⟩ := h (n, t) (by simp)
    simp only [sameFields, hlookup, hsame, Bool.true_and]
    exact sameFields_of_lookup fs fun f hf => h f (List.mem_cons_of_mem _ hf)

/-- A type equals itself if no object in it repeats the name of a field. -/
theorem same_refl {t : Ty} (h : ∀ fs, .object fs ∈ t.parts → (fs.map (·.1)).Nodup) :
    same t t = true := by
  induction t using children_induction with
  | step t ih =>
    have hchild : ∀ u ∈ t.children, same u u = true := fun u hu =>
      ih u hu fun fs hfs => h fs (parts_subset_of_mem_children hu hfs)
    cases t with
    | named c => simp [same]
    | value v => simp [same]
    | renamed n s => simp [same]
    | function ps r receiver =>
      simp only [children, List.mem_append, List.mem_cons, Option.mem_toList] at hchild
      have hreceiver : sameReceiver receiver receiver = true := by
        cases receiver with
        | none => rfl
        | some t => exact hchild t (.inr (.inr rfl))
      simp only [same, Bool.and_eq_true]
      exact ⟨⟨sameParams_refl ps fun u hu => hchild u (.inl hu), hchild r (.inr (.inl rfl))⟩,
        hreceiver⟩
    | object fs =>
      have hnd := h fs (mem_parts_self _)
      simp only [same, beq_self_eq_true, Bool.true_and]
      exact sameFields_of_lookup fs fun f hf =>
        ⟨lookup_of_mem hnd hf, hchild f.2 (List.mem_map_of_mem (f := (·.2)) hf)⟩
    | union ms => exact sameAll_refl ms hchild
    | intersection ms => exact sameAll_refl ms hchild
    | generic b as =>
      simp only [same, Bool.and_eq_true]
      exact ⟨hchild b List.mem_cons_self,
        sameAll_refl as fun u hu => hchild u (List.mem_cons_of_mem _ hu)⟩
    | tuple is => exact sameAll_refl is hchild
    | moduleExports t => exact hchild t (List.mem_singleton_self t)

end Ty
end Countersign
