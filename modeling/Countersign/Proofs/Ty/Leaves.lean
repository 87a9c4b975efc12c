/-
# Functions that only change leaves

A name, a value and a renamed class are the leaves of a type. A function on types that goes part by
part wherever there are parts is known once it is known on leaves. Substitution is such a function,
and so is one substitution after another: it puts the arguments of the second into those of the first.

What is done to a type is therefore done at every place in it: the objects keep their fields in
order, built-in classes stay, and a name that is a parameter becomes the argument for it.

Key definitions: `Ty.Leafwise`, `Ty.part?`, `Ty.Instantiated`.
Key theorems: `Ty.Leafwise.ext`, `Ty.Leafwise.part?`, `Ty.substitute_composes`.
-/
import Countersign.Proofs.Ty.Substitute

namespace Countersign
namespace Ty

/-- The function changes leaves only: any other type it changes part by part. -/
structure Leafwise (f : Ty → Ty) : Prop where
  function : ∀ ps r receiver, f (.function ps r receiver) =
    .function (ps.map fun p => (p.1, f p.2)) (f r) (receiver.map f)
  object : ∀ fs, f (.object fs) = .object (fs.map fun x => (x.1, f x.2))
  union : ∀ ms, f (.union ms) = .union (ms.map f)
  intersection : ∀ ms, f (.intersection ms) = .intersection (ms.map f)
  generic : ∀ b as, f (.generic b as) = .generic (f b) (as.map f)
  tuple : ∀ is, f (.tuple is) = .tuple (is.map f)
  moduleExports : ∀ t, f (.moduleExports t) = .moduleExports (f t)

namespace Leafwise

variable {f g : Ty → Ty}

theorem ofId : Leafwise id := by
  constructor <;> intros <;> simp

theorem comp (hg : Leafwise g) (hf : Leafwise f) : Leafwise (g ∘ f) := by
  constructor
  · intro ps r receiver
    simp [hf.function, hg.function]
  · intro fs
    simp [hf.object, hg.object]
  · intro ms
    simp [hf.union, hg.union]
  · intro ms
    simp [hf.intersection, hg.intersection]
  · intro b as
    simp [hf.generic, hg.generic]
  · intro is
    simp [hf.tuple, hg.tuple]
  · intro t
    simp [hf.moduleExports, hg.moduleExports]

/-- Functions that do the same to leaves do the same to all types. -/
theorem ext (hf : Leafwise f) (hg : Leafwise g) (hnamed : ∀ c, f (.named c) = g (.named c))
    (hvalue : ∀ v, f (.value v) = g (.value v))
    (hrenamed : ∀ n s, f (.renamed n s) = g (.renamed n s)) (t : Ty) : f t = g t := by
  induction t using children_induction with
  | step t ih =>
    cases t with
    | named c => exact hnamed c
    | value v => exact hvalue v
    | renamed n s => exact hrenamed n s
    | function ps r receiver =>
      have hparams : ∀ p ∈ ps, f p.2 = g p.2 := fun p hp =>
        ih p.2 (List.mem_append_left _ (List.mem_map_of_mem (f := (·.2)) hp))
      have hresult : f r = g r := ih r (List.mem_append_right _ List.mem_cons_self)
      have hreceiver : ∀ u ∈ receiver, f u = g u := fun u hu =>
        ih u (List.mem_append_right _ (List.mem_cons_of_mem _ (Option.mem_toList.mpr hu)))
      rw [hf.function, hg.function, hresult, Option.map_congr hreceiver,
        List.map_congr_left fun p hp => by rw [hparams p hp]]
    | object fs =>
      rw [hf.object, hg.object]
      refine congrArg Ty.object (List.map_congr_left fun x hx => ?_)
      rw [ih x.2 (List.mem_map_of_mem (f := (·.2)) hx)]
    | union ms => rw [hf.union, hg.union, List.map_congr_left (l := ms) ih]
    | intersection ms => rw [hf.intersection, hg.intersection, List.map_congr_left (l := ms) ih]
    | generic b as =>
      rw [hf.generic, hg.generic, ih b List.mem_cons_self,
        List.map_congr_left fun u hu => ih u (List.mem_cons_of_mem b hu)]
    | tuple is => rw [hf.tuple, hg.tuple, List.map_congr_left (l := is) ih]
    | moduleExports u => rw [hf.moduleExports, hg.moduleExports, ih u (List.mem_singleton_self u)]

/-- What stands below the outermost node is changed part by part. -/
theorem children (hf : Leafwise f) {t : Ty} (ht : t.children ≠ []) :
    (f t).children = t.children.map f := by
  cases t with
  | named c => exact absurd rfl ht
  | value v => exact absurd rfl ht
  | renamed n s => exact absurd rfl ht
  | function ps r receiver =>
    rw [hf.function]
    cases receiver <;> simp [Ty.children]
  | object fs =>
    rw [hf.object]
    simp [Ty.children]
  | union ms => rw [hf.union, Ty.children, Ty.children]
  | intersection ms => rw [hf.intersection, Ty.children, Ty.children]
  | generic b as => rw [hf.generic, Ty.children, Ty.children, List.map_cons]
  | tuple is => rw [hf.tuple, Ty.children, Ty.children]
  | moduleExports u => rw [hf.moduleExports, Ty.children, Ty.children, List.map_singleton]

end Leafwise

/-! ### Places -/

/-- The part at a place: at each level, which of the types below the outermost node leads there. -/
def part? : List Nat → Ty → Option Ty
  | [], t => some t
  | i :: place, t => t.children[i]?.bind (part? place)

/-- What stands at a place is changed like a type on its own. -/
theorem Leafwise.part? {f : Ty → Ty} (hf : Leafwise f) {place : List Nat} {t u : Ty}
    (h : t.part? place = some u) : (f t).part? place = some (f u) := by
  induction place generalizing t with
  | nil =>
    obtain rfl : t = u := Option.some.inj h
    rfl
  | cons i place ih =>
    obtain ⟨c, hc, hu⟩ := Option.bind_eq_some_iff.mp h
    have hne : t.children ≠ [] := List.ne_nil_of_mem (List.mem_of_getElem? hc)
    rw [Ty.part?, hf.children hne, List.getElem?_map, hc]
    exact ih hu

/-! ### Substitution -/

section Substitution

variable (params : List String) (args : List Ty)

theorem substitute_leafwise : Leafwise (substitute params args) := by
  constructor
  · exact substitute_function params args
  · exact substitute_object params args
  · intro ms
    rw [substitute, substituteAll_eq]
  · intro ms
    rw [substitute, substituteAll_eq]
  · intro b as
    rw [substitute, substituteAll_eq]
  · intro is
    rw [substitute, substituteAll_eq]
  · exact fun _ => rfl

theorem substitute_user (name : String) :
    substitute params args (.named (.user name)) =
      (argument? params args name).getD (.named (.user name)) := rfl

theorem substitute_builtin {c : ClassName} (h : c.builtin = true) :
    substitute params args (.named c) = .named c := if_pos h

end Substitution

/-- Without parameters nothing is put in. -/
theorem substitute_nil (args : List Ty) (t : Ty) : t.substitute [] args = t := by
  refine (substitute_leafwise [] args).ext .ofId (fun c => ?_) (fun _ => rfl) (fun _ _ => rfl) t
  unfold substitute
  split
  · rfl
  · rfl

theorem lookup_map_snd (ps : List (String × Ty)) (f : Ty → Ty) (name : String) :
    (ps.map fun p => (p.1, f p.2)).lookup name = (ps.lookup name).map f := by
  induction ps with
  | nil => rfl
  | cons p ps ih =>
    obtain ⟨n, t⟩ := p
    rw [List.map_cons, List.lookup_cons, List.lookup_cons]
    cases name == n with
    | true => rfl
    | false => exact ih

/-- The parameters of the first list come first, and the arguments for them are changed by `f`. -/
theorem argument?_append {ps : List String} {as : List Ty} (h : as.length = ps.length)
    (qs : List String) (bs : List Ty) (f : Ty → Ty) (name : String) :
    argument? (ps ++ qs) (as.map f ++ bs) name =
      ((argument? ps as name).map f).or (argument? qs bs name) := by
  have hlength : ps.length = (as.map f).length := by rw [List.length_map, h]
  have hzip : ps.zip (as.map f) = (ps.zip as).map fun p => (p.1, f p.2) := List.zip_map_right ..
  unfold argument?
  rw [List.zip_append hlength, List.lookup_append, hzip, lookup_map_snd]

/-- A parameter stands for the argument at its first place. -/
theorem argument?_first {params : List String} {args : List Ty} {name : String} {i : Nat} {a : Ty}
    (hname : params[i]? = some name) (hfirst : ∀ j < i, params[j]? ≠ some name)
    (ha : args[i]? = some a) : argument? params args name = some a := by
  unfold argument?
  induction params generalizing args i with
  | nil => cases hname
  | cons p params ih =>
    cases args with
    | nil => cases ha
    | cons b args =>
      rw [List.zip_cons_cons, List.lookup_cons]
      cases i with
      | zero =>
        obtain rfl : p = name := Option.some.inj hname
        obtain rfl : b = a := Option.some.inj ha
        simp
      | succ i =>
        have hp : p ≠ name := fun hp => hfirst 0 (Nat.succ_pos i) (congrArg some hp)
        rw [beq_false_of_ne hp.symm]
        exact ih hname (fun j hj => hfirst (j + 1) (Nat.succ_lt_succ hj)) ha

/-- What a part `u` of a type becomes where `args` are put in the place of `params`. -/
structure Instantiated (params : List String) (args : List Ty) (u v : Ty) : Prop where
  /-- The fields of an object keep their names and their order. -/
  fields : ∀ fs, u = .object fs → ∃ gs, v = .object gs ∧ gs.map (·.1) = fs.map (·.1)
  builtin : ∀ c : ClassName, u = .named c → c.builtin = true → v = u
  /-- Of a repeated parameter the first place counts. -/
  parameter : ∀ (name : String) (i : Nat) (a : Ty), u = .named (.user name) → params[i]? = some name →
    (∀ j < i, params[j]? ≠ some name) → args[i]? = some a → v = a

theorem substitute_instantiated (params : List String) (args : List Ty) (u : Ty) :
    Instantiated params args u (u.substitute params args) := by
  constructor
  · rintro fs rfl
    rw [substitute_object]
    exact ⟨_, rfl, by simp⟩
  · rintro c rfl hc
    exact substitute_builtin params args hc
  · rintro name i a rfl hname hfirst ha
    rw [substitute_user, argument?_first hname hfirst ha]
    rfl

/-- **One substitution after another is a single one**, of the parameters of both, whose arguments
for the first parameters have the second substitution carried out in them. Without parameters
nothing changes. Every substitution acts alike at all places of a type. -/
theorem substitute_composes {ps : List String} {as : List Ty} (h : as.length = ps.length)
    (qs : List String) (bs : List Ty) (t : Ty) :
    (t.substitute ps as).substitute qs bs =
        t.substitute (ps ++ qs) (as.map (substitute qs bs) ++ bs) ∧
      t.substitute [] [] = t ∧
      ∀ place u, t.part? place = some u →
        ∃ v, (t.substitute ps as).part? place = some v ∧ Instantiated ps as u v := by
  refine ⟨?_, substitute_nil [] t, fun place u hu => ?_⟩
  · have htwice := (substitute_leafwise qs bs).comp (substitute_leafwise ps as)
    have honce := substitute_leafwise (ps ++ qs) (as.map (substitute qs bs) ++ bs)
    refine htwice.ext honce (fun c => ?_) (fun _ => rfl) (fun _ _ => rfl) t
    obtain ⟨name, _ | _⟩ := c
    · show substitute qs bs (substitute ps as (.named (.user name))) =
        substitute _ _ (.named (.user name))
      rw [substitute_user, substitute_user, argument?_append h]
      cases argument? ps as name with
      | none => rfl
      | some a => rfl
    · rfl
  · exact ⟨_, (substitute_leafwise ps as).part? hu, substitute_instantiated ps as u⟩

/-- A parameter `B` of the second list stands in an argument for the first one. -/
theorem substitute_composes_nested :
    [ofName "B"].length = ["A"].length ∧
      ((Ty.object [("a", ofName "A"), ("b", ofName "B")]).substitute ["A"] [ofName "B"]).substitute
          ["B"] [ofName "Number"] =
        (Ty.object [("a", ofName "A"), ("b", ofName "B")]).substitute ["A", "B"]
          [ofName "Number", ofName "Number"] :=
  ⟨rfl, (@substitute_composes ["A"] [ofName "B"] rfl ["B"] [ofName "Number"]
    (Ty.object [("a", ofName "A"), ("b", ofName "B")])).1⟩

end Ty
end Countersign
