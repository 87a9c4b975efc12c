/-
# Imports under another name

A type that is called differently here than where it comes from is named twice: its own name means
the type, and its name here, which takes no arguments, means its own name under another one. So the
name here leads to whatever the own name leads to, one step later.

An import with parameters is of use under its own name only. Applied under its name here it has
arguments for a name that takes none, and stands for itself.

Key definitions: `Ty.applied`, `ImportedType.Renamed`.
Key theorems: `ImportedType.Renamed.aliases`, `renamed_import_resolves`.
-/
import Countersign.Proofs.Subtype.Shapes
import Countersign.Proofs.Verify.HeaderOrder
import Countersign.Proofs.Verify.Returns

namespace Countersign

/-- A name applied to arguments; without any it is the bare name. -/
def Ty.applied (name : String) : List Ty → Ty
  | [] => .ofName name
  | a :: as => .generic (.ofName name) (a :: as)

/-! ### Naming types one after the other -/

namespace Env

variable {env : Env} {name : String} {a : Alias}

/-- A type is named where its name was free; all other names mean what they meant. -/
theorem alias?_withAlias (env : Env) (name : String) (a : Alias) (other : String) :
    (env.withAlias name a).alias? other =
      (env.alias? other).or (if other = name then some a else none) := by
  rw [withAlias_eq]
  cases hname : env.alias? name with
  | none =>
    unfold alias?
    rw [List.lookup_append, List.lookup_cons, List.lookup_nil]
    by_cases h : other = name
    · rw [beq_iff_eq.mpr h, if_pos h]
    · rw [beq_false_of_ne h, if_neg h]
  | some old =>
    by_cases h : other = name
    · rw [h, hname]
      rfl
    · rw [if_neg h, Option.or_none]

/-- A name that has a meaning keeps it. -/
theorem alias?_withAlias_of_some (h : env.alias? name = some a) (other : String) (b : Alias) :
    (env.withAlias other b).alias? name = some a := by
  rw [alias?_withAlias, h, Option.some_or]

theorem alias?_withAlias_of_ne {other : String} (h : other ≠ name) (b : Alias) :
    (env.withAlias name b).alias? other = env.alias? other := by
  rw [alias?_withAlias, if_neg h, Option.or_none]

theorem alias?_withImport_of_some (h : env.alias? name = some a) (i : ImportedType) :
    (env.withImport i).alias? name = some a := by
  unfold withImport
  dsimp only
  split
  · exact alias?_withAlias_of_some h _ _
  · exact alias?_withAlias_of_some (alias?_withAlias_of_some h _ _) _ _

theorem alias?_withImport_of_ne {i : ImportedType} (hname : name ≠ i.name)
    (hlocal : name ≠ i.localName) : (env.withImport i).alias? name = env.alias? name := by
  unfold withImport
  dsimp only
  split
  · exact alias?_withAlias_of_ne hname _
  · rw [alias?_withAlias_of_ne hlocal, alias?_withAlias_of_ne hname]

end Env

/-! ### The two names of an import -/

namespace ImportedType

/-- What the name of a renamed import means here: its own name under another one. -/
def here (i : ImportedType) : Alias := ⟨[], .renamed (.user i.localName) (.resolve i.name)⟩

/-- The import goes by another name here, and neither of its names is a built-in class or a name of
an import before it. -/
structure Renamed (i : ImportedType) (before : List ImportedType) : Prop where
  differs : i.localName ≠ i.name
  name_free : isBuiltinClass i.name = false
  local_free : isBuiltinClass i.localName = false
  name_new : ∀ j ∈ before, i.name ≠ j.name ∧ i.name ≠ j.localName
  local_new : ∀ j ∈ before, i.localName ≠ j.name ∧ i.localName ≠ j.localName

end ImportedType

namespace Verify

open ImportedType

/-- Declaring the values of a header names no types. -/
theorem Session.ofHeader_aliases (header : Header) (imports : List ImportedType) :
    (Session.ofHeader header imports).env.aliases =
      ((imports.foldl Env.withImport (Env.initial.push (.ofKind .header))).withAliases
        header).aliases :=
  (ofHeader_binds header imports).grows.aliases

/-- A name that the imports gave a meaning has it in the program. -/
theorem Session.ofHeader_alias? {imports : List ImportedType} {name : String} {a : Alias}
    (h : (imports.foldl Env.withImport (Env.initial.push (.ofKind .header))).alias? name = some a)
    (header : Header) : (Session.ofHeader header imports).env.alias? name = some a := by
  rw [Env.alias?_congr (Session.ofHeader_aliases header imports)]
  unfold Env.withAliases
  generalize imports.foldl Env.withImport _ = env at h
  induction header.aliases generalizing env with
  | nil => exact h
  | cons b bs ih => exact ih _ (Env.alias?_withAlias_of_some h _ _)

section Import

variable {i : ImportedType} {before : List ImportedType}

/-- Imports that use neither name leave both of them free. -/
theorem foldl_withImport_free {name : String}
    (h : ∀ j ∈ before, name ≠ j.name ∧ name ≠ j.localName) :
    (before.foldl Env.withImport (Env.initial.push (.ofKind .header))).alias? name = none := by
  suffices hfold : ∀ env : Env, env.alias? name = none →
      (before.foldl Env.withImport env).alias? name = none from hfold _ rfl
  induction before with
  | nil => exact fun env henv => henv
  | cons j before ih =>
    obtain ⟨hname, hlocal⟩ := h j List.mem_cons_self
    exact fun env henv => ih (fun k hk => h k (List.mem_cons_of_mem j hk)) _
      ((Env.alias?_withImport_of_ne hname hlocal).trans henv)

theorem foldl_withImport_of_some {name : String} {a : Alias} (after : List ImportedType) {env : Env}
    (h : env.alias? name = some a) : (after.foldl Env.withImport env).alias? name = some a := by
  induction after generalizing env with
  | nil => exact h
  | cons j after ih => exact ih (Env.alias?_withImport_of_some h j)

/-- Both names of a renamed import are named types, whatever is imported after it and whatever
types the header names. -/
theorem ofHeader_renamed (h : i.Renamed before) (header : Header) (after : List ImportedType) :
    (Session.ofHeader header (before ++ i :: after)).env.alias? i.name =
        some ⟨i.params, i.type⟩ ∧
      (Session.ofHeader header (before ++ i :: after)).env.alias? i.localName = some i.here := by
  have hname := foldl_withImport_free h.name_new
  have hlocal := foldl_withImport_free h.local_new
  have hdiffers : (i.localName == i.name) = false := beq_false_of_ne h.differs
  have himport : ∀ name a, (Env.withImport (before.foldl Env.withImport
      (Env.initial.push (.ofKind .header))) i).alias? name = some a →
      (Session.ofHeader header (before ++ i :: after)).env.alias? name = some a := by
    intro name a ha
    refine Session.ofHeader_alias? ?_ header
    rw [List.foldl_append, List.foldl_cons]
    exact foldl_withImport_of_some after ha
  generalize before.foldl Env.withImport _ = env at hname hlocal himport
  constructor
  · refine himport _ _ ?_
    unfold Env.withImport
    rw [hdiffers]
    refine Env.alias?_withAlias_of_some ?_ _ _
    rw [Env.alias?_withAlias, hname, if_pos rfl, Option.none_or]
  · refine himport _ _ ?_
    unfold Env.withImport
    rw [hdiffers]
    dsimp only
    rw [if_neg Bool.false_ne_true, Env.alias?_withAlias, Env.alias?_withAlias_of_ne h.differs, hlocal,
      if_pos rfl, Option.none_or]
    rfl

/-! ### What the two names lead to -/

variable {env : Env}

/-- The name here leads to its own name under another one. -/
theorem step?_local (h : i.Renamed before) (hlocal : env.alias? i.localName = some i.here) :
    env.step? (.ofName i.localName) =
      some (.renamed (.user i.localName) (.resolve i.name)) := by
  have huser : (ClassName.resolve i.localName).builtin = false := h.local_free
  rw [Ty.ofName, Env.step?, huser, if_neg Bool.false_ne_true, Env.plainAlias?]
  show (env.alias? i.localName).bind _ = _
  rw [hlocal]
  rfl

/-- Without parameters its own name leads to the type, and so does the renaming. -/
theorem step?_own (h : i.Renamed before) (hname : env.alias? i.name = some ⟨i.params, i.type⟩)
    (hparams : i.params = []) :
    env.step? (.ofName i.name) = some i.type ∧
      env.step? (.renamed (.user i.localName) (.resolve i.name)) = some i.type := by
  have hplain : env.plainAlias? i.name = some i.type := by
    rw [Env.plainAlias?, hname, hparams]
    rfl
  have huser : (ClassName.resolve i.name).builtin = false := h.name_free
  refine ⟨?_, hplain⟩
  rw [Ty.ofName, Env.step?, huser, if_neg Bool.false_ne_true]
  exact hplain

/-- With parameters the name here leads nowhere once it is applied, and its own name leads to the
instance. -/
theorem step?_instance (hname : env.alias? i.name = some ⟨i.params, i.type⟩)
    (hlocal : env.alias? i.localName = some i.here) {args : List Ty}
    (hargs : args.length = i.params.length) (hparams : i.params ≠ []) :
    env.step? (.applied i.localName args) = none ∧
      env.step? (.applied i.name args) = some (i.type.substitute i.params args) := by
  cases args with
  | nil => exact absurd (List.eq_nil_of_length_eq_zero hargs.symm) hparams
  | cons a as =>
    constructor
    · show ((env.alias? i.localName).bind _).map _ = none
      rw [hlocal]
      rfl
    · show ((env.alias? i.name).bind _).map _ = _
      rw [hname, Option.bind_some, if_pos (beq_iff_eq.mpr hargs.symm)]
      rfl

end Import

/-- **What the two names of an import lead to.** Without parameters both lead to the same type, if
its own name gets there one step before resolution is given up. With parameters its own name,
applied to as many arguments, leads to the instance, but the name here, applied to them, stands for
itself. -/
theorem renamed_import_resolves {i : ImportedType} {before : List ImportedType}
    (h : i.Renamed before) (header : Header) (after : List ImportedType) {args : List Ty}
    (hargs : args.length = i.params.length) :
    let env := (Session.ofHeader header (before ++ i :: after)).env
    (i.params = [] →
      env.step? (env.resolveWithin (Env.resolutionLimit - 1) (.applied i.name args)) = none →
        env.resolve (.applied i.localName args) = env.resolve (.applied i.name args)) ∧
      (i.params ≠ [] → env.resolve (.applied i.localName args) = .applied i.localName args ∧
        env.step? (.applied i.name args) = some (i.type.substitute i.params args)) := by
  intro env
  obtain ⟨hname, hlocal⟩ := ofHeader_renamed h header after
  refine ⟨fun hparams hends => ?_, fun hparams => ?_⟩
  · obtain rfl : args = [] := List.eq_nil_of_length_eq_zero (by rw [hargs, hparams]; rfl)
    obtain ⟨hown, hrenaming⟩ := step?_own h hname hparams
    have hfirst := step?_local h hlocal
    have hsame : env.resolveWithin 63 (.renamed (.user i.localName) (.resolve i.name)) =
        env.resolveWithin 63 (.ofName i.name) := by
      rw [Env.resolveWithin, Env.resolveWithin, hrenaming, hown]
    have hlast : env.resolve (.ofName i.localName) = env.resolveWithin 63 (.ofName i.name) := by
      rw [Env.resolve, Env.resolutionLimit, Env.resolveWithin, hfirst]
      exact hsame
    calc env.resolve (.ofName i.localName)
        = env.resolve (.renamed (.user i.localName) (.resolve i.name)) :=
          (Subtype.resolve_step hfirst (by rw [hlast]; exact hends)).symm
      _ = env.resolve (.ofName i.name) := Subtype.resolve_of_step? hrenaming hown
  · obtain ⟨hhere, hown⟩ := step?_instance hname hlocal hargs hparams
    exact ⟨Subtype.resolve_of_step?_none hhere, hown⟩

/-- Two imports that are called differently here, `Entry` without parameters and `Box` with one. -/
def entryImport : ImportedType := ⟨"Entry", "Item", [], .ofName "Number"⟩

/-- A box of something: `type Box<T> : { value: T }`. -/
def boxImport : ImportedType := ⟨"Box", "B", ["T"], .object [("value", .ofName "T")]⟩

theorem entryImport_renamed : entryImport.Renamed [] :=
  ⟨by decide, by decide, by decide, by simp, by simp⟩

theorem boxImport_renamed : boxImport.Renamed [entryImport] :=
  ⟨by decide, by decide, by decide, by decide, by decide⟩

theorem renamed_import_resolves_both :
    let env := (Session.ofHeader ⟨[]⟩ [entryImport, boxImport]).env
    env.resolve (.ofName "Item") = env.resolve (.ofName "Entry") ∧
      env.resolve (.generic (.ofName "B") [.ofName "Number"]) =
        .generic (.ofName "B") [.ofName "Number"] :=
  ⟨(@renamed_import_resolves _ _ entryImport_renamed ⟨[]⟩ [boxImport] [] rfl).1 rfl
      (by decide +kernel),
    ((@renamed_import_resolves _ _ boxImport_renamed ⟨[]⟩ [] [.ofName "Number"] rfl).2
      (by decide)).1⟩

/-- A box of numbers is not a box of numbers under the other name. -/
theorem renamed_generic_unresolved :
    let env := (Session.ofHeader ⟨[]⟩ [boxImport]).env
    let number : List Ty := [.ofName "Number"]
    boxImport.Renamed [] ∧ number.length = boxImport.params.length ∧
      (env.resolve (.applied "B" number) == env.resolve (.applied "Box" number)) = false :=
  ⟨⟨by decide, by decide, by decide, by simp, by simp⟩, rfl, by decide +kernel⟩

end Verify
end Countersign
