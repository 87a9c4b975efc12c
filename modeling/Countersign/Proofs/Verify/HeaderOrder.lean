/-
# The order of a header does not matter

A header in which no two named types and no two declared values share a name may be written in any
order. Its types end up in the table of names beside the imported ones, whose names are taken first,
and its values in one scope, without a conflict. So the environments of two such orders are alike,
and a program is checked in the same way against both.

Only the order of the export statements among themselves counts, since the last one is in force.

Key definitions: `Header.exportStatements`, `Header.Reordered`.
Key theorems: `Session.ofHeader_eq`, `Session.ofHeader_alike`, `verify_reordered`.
-/
import Countersign.Proofs.Verify.Alike
import Countersign.Proofs.Verify.Balance

namespace Countersign

namespace Header

/-- The export statements in order. -/
def exportStatements (h : Header) : List ExportStatement :=
  h.statements.filterMap fun
    | .exportDefault s => some s
    | _ => none

/-- The same statements in another order, but for the export statements among themselves. -/
structure Reordered (h h' : Header) : Prop where
  statements : h.statements.Perm h'.statements
  exports : h.exportStatements = h'.exportStatements

namespace Reordered

variable {h h' : Header}

theorem aliases (hr : Reordered h h') : h.aliases.Perm h'.aliases := hr.statements.filterMap _

theorem values (hr : Reordered h h') : h.values.Perm h'.values := hr.statements.filterMap _

theorem exportDefault? (hr : Reordered h h') : h.exportDefault? = h'.exportDefault? :=
  congrArg List.getLast? hr.exports

end Reordered
end Header

/-! ### Finding by a name -/

/-- Where no two members share a key, the order plays no part in finding one by its key. -/
theorem find?_perm {α : Type} (key : α → String) {xs ys : List α} (hperm : xs.Perm ys)
    (hnodup : (xs.map key).Nodup) (name : String) :
    xs.find? (key · == name) = ys.find? (key · == name) := by
  induction hperm with
  | nil => rfl
  | cons x _ ih =>
    rw [List.map_cons, List.nodup_cons] at hnodup
    rw [List.find?_cons, List.find?_cons, ih hnodup.2]
  | swap x y xs =>
    have hne : key y ≠ key x := by
      rw [List.map_cons, List.map_cons, List.nodup_cons] at hnodup
      exact fun h => hnodup.1 (h ▸ List.mem_cons_self)
    rw [List.find?_cons, List.find?_cons, List.find?_cons, List.find?_cons]
    by_cases hx : key x = name
    · have hy : key y ≠ name := fun h => hne (h.trans hx.symm)
      rw [beq_iff_eq.mpr hx, beq_eq_false_iff_ne.mpr hy]
    · rw [beq_eq_false_iff_ne.mpr hx]
  | trans hfirst _ ih ih' =>
    exact (ih hnodup).trans (ih' ((hfirst.map key).nodup hnodup))

theorem lookup_eq_find? {α : Type} (xs : List (String × α)) (name : String) :
    xs.lookup name = (xs.find? (·.1 == name)).map (·.2) := by
  induction xs with
  | nil => rfl
  | cons x xs ih =>
    rw [List.lookup_cons, List.find?_cons]
    by_cases hname : x.1 = name
    · rw [beq_iff_eq.mpr hname, beq_iff_eq.mpr hname.symm]
      rfl
    · rw [beq_eq_false_iff_ne.mpr hname, beq_eq_false_iff_ne.mpr (Ne.symm hname), ih]

/-! ### Naming types -/

namespace AliasStatement

/-- The entry of a named type in the table of names. -/
def entry (a : AliasStatement) : String × Alias := (a.name, ⟨a.params, a.type⟩)

end AliasStatement

namespace Env

/-- Naming a type changes the table of names only. -/
theorem withAlias_eq (env : Env) (name : String) (a : Alias) :
    env.withAlias name a =
      match env.alias? name with
      | none => { env with aliases := env.aliases ++ [(name, a)] }
      | some _ => env := by
  unfold withAlias defineAlias
  cases env.alias? name with
  | none => rfl
  | some old =>
    dsimp only
    by_cases hsame : (old == a) = true
    · rw [if_pos hsame]
    · rw [if_neg hsame]

/-- The named types that are new to the environment. -/
def fresh (env : Env) (as : List AliasStatement) : List AliasStatement :=
  as.filter fun a => (env.alias? a.name).isNone

/-- Types with different names are added to the table where their names are new. -/
theorem foldl_withAlias (as : List AliasStatement) (env : Env)
    (hnodup : (as.map (·.name)).Nodup) :
    as.foldl (fun env a => env.withAlias a.name ⟨a.params, a.type⟩) env =
      { env with aliases := env.aliases ++ (env.fresh as).map (·.entry) } := by
  induction as generalizing env with
  | nil => simp [fresh]
  | cons a as ih =>
    rw [List.map_cons, List.nodup_cons] at hnodup
    obtain ⟨hnew, hrest⟩ := hnodup
    rw [List.foldl_cons, ih _ hrest, withAlias_eq]
    cases ha : env.alias? a.name with
    | some old => simp [fresh, ha]
    | none =>
      have hothers : ∀ b ∈ as,
          (alias? { env with aliases := env.aliases ++ [a.entry] } b.name).isNone =
            (env.alias? b.name).isNone := by
        intro b hb
        have hne : b.name ≠ a.name := fun h => hnew (h ▸ List.mem_map_of_mem hb)
        unfold alias?
        simp [List.lookup_append, List.lookup_cons, AliasStatement.entry,
          beq_eq_false_iff_ne.mpr hne]
      have hfresh : fresh { env with aliases := env.aliases ++ [a.entry] } as = env.fresh as :=
        List.filter_congr hothers
      have hcons : env.fresh (a :: as) = a :: env.fresh as := by simp [fresh, ha]
      show Env.mk env.inner env.bottom ((env.aliases ++ [a.entry]) ++
        (fresh { env with aliases := env.aliases ++ [a.entry] } as).map (·.entry)) = _
      rw [hfresh, hcons, List.append_assoc]
      rfl

/-- The order of types with different names plays no part in what the names stand for. -/
theorem withAliases_alike (env : Env) {h h' : Header} (hperm : h.aliases.Perm h'.aliases)
    (hnodup : (h.aliases.map (·.name)).Nodup) :
    (env.withAliases h).alias? = (env.withAliases h').alias? ∧
      (env.withAliases h).aliasSize = (env.withAliases h').aliasSize := by
  have hnodup' : (h'.aliases.map (·.name)).Nodup := (hperm.map _).nodup hnodup
  have hfresh : ((env.fresh h.aliases).map (·.entry)).Perm ((env.fresh h'.aliases).map (·.entry)) :=
    (hperm.filter _).map _
  have hkeys : (((env.fresh h.aliases).map (·.entry)).map (·.1)).Nodup := by
    have hnames : ((env.fresh h.aliases).map (·.entry)).map (·.1) =
        (env.fresh h.aliases).map (·.name) := by
      rw [List.map_map]
      rfl
    rw [hnames]
    exact hnodup.sublist (List.filter_sublist.map _)
  unfold withAliases
  rw [foldl_withAlias _ env hnodup, foldl_withAlias _ env hnodup']
  refine ⟨funext fun name => ?_, ?_⟩
  · have hlookup : ((env.fresh h.aliases).map (·.entry)).lookup name =
        ((env.fresh h'.aliases).map (·.entry)).lookup name := by
      rw [lookup_eq_find?, lookup_eq_find?, find?_perm (·.1) hfresh hkeys]
    unfold alias?
    rw [List.lookup_append, List.lookup_append, hlookup]
  · unfold aliasSize
    rw [List.foldl_append, List.foldl_append]
    refine hfresh.foldl_eq' (fun x _ y _ nodes => ?_) _
    omega

end Env

/-! ### Declaring values -/

namespace ValueStatement

/-- The binding of a declared value. -/
def binding (v : ValueStatement) : Binding := ⟨v.name, v.type, v.line⟩

end ValueStatement

/-- A name that is free is bound behind the others. -/
theorem Scope.declare_free {scope : Scope} {b : Binding} (h : scope.get? b.name = none) :
    scope.declare b = .ok { scope with bindings := scope.bindings ++ [b] } := by
  have hhas : scope.has b.name = false := by
    unfold has
    rw [h]
    rfl
  unfold declare
  rw [h]
  dsimp only
  unfold set
  rw [hhas]
  rfl

namespace Verify

/-- A value whose name is free is bound in the innermost scope, without a conflict. -/
theorem Session.declareValue_free {s : Session} {v : ValueStatement} {scope : Scope}
    {rest : List Scope} (hinner : s.env.inner = scope :: rest)
    (hfree : scope.get? v.name = none) : s.declareValue v = { s with env := { s.env with
      inner := { scope with bindings := scope.bindings ++ [v.binding] } :: rest } } := by
  have hdeclare := Scope.declare_free (b := v.binding) hfree
  unfold declareValue Env.declare Env.modifyScope
  rw [hinner]
  unfold Env.modifyFirst
  rw [if_pos rfl, show scope.declare ⟨v.name, v.type, v.line⟩ = _ from hdeclare]
  rfl

/-- Values with different names are bound one after the other, in a scope that has none of them. -/
theorem Session.foldl_declareValue (vs : List ValueStatement) (s : Session) (scope : Scope)
    (rest : List Scope) (hinner : s.env.inner = scope :: rest)
    (hnodup : (vs.map (·.name)).Nodup) (hfree : ∀ v ∈ vs, scope.get? v.name = none) :
    vs.foldl declareValue s =
      { s with env := { s.env with
          inner := { scope with bindings := scope.bindings ++ vs.map (·.binding) } :: rest } } := by
  induction vs generalizing s scope with
  | nil =>
    obtain ⟨env, _, _, _, _, _, _, _, _⟩ := s
    obtain ⟨inner, bottom, aliases⟩ := env
    obtain rfl : inner = scope :: rest := hinner
    simp
  | cons v vs ih =>
    rw [List.map_cons, List.nodup_cons] at hnodup
    have hfirst : scope.get? v.binding.name = none := hfree v List.mem_cons_self
    have hdeclared := declareValue_free hinner hfirst
    have hothers : ∀ w ∈ vs,
        Scope.get? { scope with bindings := scope.bindings ++ [v.binding] } w.name = none := by
      intro w hw
      have hne : v.name ≠ w.name := fun h => hnodup.1 (h ▸ List.mem_map_of_mem hw)
      rw [Scope.get?_of_declare_ne hne (Scope.declare_free hfirst)]
      exact hfree w (List.mem_cons_of_mem v hw)
    rw [List.foldl_cons, hdeclared, ih _ _ rfl hnodup.2 hothers]
    simp

/-- Before its values are declared, a header has an empty scope above the built-in values. -/
theorem loaded_scopes (header : Header) (imports : List ImportedType) :
    ((imports.foldl Env.withImport (Env.initial.push (.ofKind .header))).withAliases
      header).scopes = [.ofKind .header, Env.initial.bottom] := by
  unfold Env.withAliases
  rw [foldl_scopes fun env a => withAlias_scopes env _ _, foldl_scopes withImport_scopes]
  rfl

/-- What a header without conflicts starts a program with: its values in one scope above the
built-in ones, its types, and no diagnostics. -/
theorem Session.ofHeader_eq (header : Header) (imports : List ImportedType)
    (hvalues : (header.values.map (·.name)).Nodup) :
    ofHeader header imports =
      { env :=
        { inner := [⟨.header, none, header.values.map (·.binding)⟩]
          bottom := Env.initial.bottom
          aliases := ((imports.foldl Env.withImport
            (Env.initial.push (.ofKind .header))).withAliases header).aliases } } := by
  have hscopes := loaded_scopes header imports
  unfold ofHeader
  dsimp only
  generalize (imports.foldl Env.withImport (Env.initial.push (.ofKind .header))).withAliases
    header = env at hscopes ⊢
  obtain ⟨hinner, hbottom⟩ : env.inner = [.ofKind .header] ∧ env.bottom = Env.initial.bottom := by
    have hsplit : env.inner = [.ofKind .header] ∧ [env.bottom] = [Env.initial.bottom] :=
      List.append_inj' hscopes rfl
    exact ⟨hsplit.1, List.singleton_inj.mp hsplit.2⟩
  rw [foldl_declareValue header.values _ (.ofKind .header) [] hinner hvalues fun _ _ => rfl,
    ← hbottom]
  rfl

/-- Headers without conflicts that differ in their order start a program alike. -/
theorem Session.ofHeader_alike {h h' : Header} (hr : h.Reordered h')
    (haliases : (h.aliases.map (·.name)).Nodup) (hvalues : (h.values.map (·.name)).Nodup)
    (imports : List ImportedType) : (ofHeader h imports).Alike (ofHeader h' imports) := by
  have hvalues' : (h'.values.map (·.name)).Nodup := (hr.values.map _).nodup hvalues
  obtain ⟨halias, hsize⟩ := (imports.foldl Env.withImport
    (Env.initial.push (.ofKind .header))).withAliases_alike hr.aliases haliases
  have hbindings : (h.values.map (·.binding)).Perm (h'.values.map (·.binding)) :=
    hr.values.map _
  have hnames : ((h.values.map (·.binding)).map (·.name)).Nodup := by
    rw [List.map_map]
    exact hvalues
  have hscope : Scope.Alike ⟨.header, none, h.values.map (·.binding)⟩
      ⟨.header, none, h'.values.map (·.binding)⟩ :=
    ⟨rfl, rfl, funext (find?_perm Binding.name hbindings hnames)⟩
  rw [ofHeader_eq h imports hvalues, ofHeader_eq h' imports hvalues']
  exact ⟨⟨.cons hscope .nil, .refl _, halias, hsize⟩⟩

/-! ### Whole programs -/

theorem exportType_alike {env env' : Env} (h : env.Alike env') : exportType env = exportType env' := by
  funext t
  unfold exportType
  rw [h.lookupIn?]

theorem moduleContext_alike {env env' : Env} (henv : env.Alike env') {h h' : Header}
    (hr : h.Reordered h') (script : Script) (lines : LineMap) (policy : ExportPolicy) :
    moduleContext script lines h policy env = moduleContext script lines h' policy env' := by
  unfold moduleContext
  rw [hr.exportDefault?, exportType_alike henv]

theorem checkModule_alike {start start' : Session} (h : start.Alike start') (ctx : Context)
    (ss : List Script.Stmt) : (checkModule ctx start ss).Alike (checkModule ctx start' ss) :=
  (Script.checkStmts_agree ss ctx _ _ ((h.enter _).hoist ctx ss)).2

theorem finish_alike {s s' : Session} (h : s.Alike s') (ctx : Context) (exportLine : Nat) :
    finish ctx exportLine s = finish ctx exportLine s' := by
  have hpending := h.checkPending ctx
  unfold finish
  generalize s.checkPending ctx = t at hpending ⊢
  generalize s'.checkPending ctx = t' at hpending ⊢
  obtain ⟨henv⟩ := hpending
  rfl

/-- **The order of a header does not matter.** Two headers that have the same statements, with the
export statements in the same order, lead to the same diagnostics and the same exported type in
every program, as long as no two named types and no two declared values share a name. -/
theorem verify_reordered (script : Script) (lines : LineMap) (h h' : Header)
    (imports : List ImportedType) (policy : ExportPolicy) (hr : h.Reordered h')
    (haliases : (h.aliases.map (·.name)).Nodup) (hvalues : (h.values.map (·.name)).Nodup) :
    verify script lines h imports policy = verify script lines h' imports policy := by
  have hstart := Session.ofHeader_alike hr haliases hvalues imports
  have hcontext := moduleContext_alike hstart.env hr script lines policy
  unfold verify
  dsimp only
  rw [hcontext, hr.exportDefault?]
  exact finish_alike (checkModule_alike hstart _ script.statements) _ _

/-- A header in which a value is declared before its type is named, and that type before the types
it refers to, one of them imported:
`export default first`, `first : (t: Tree) => Item`, `type Tree : [Leaf, Item]`,
`type Leaf : Number`. -/
def treeHeader : Header :=
  ⟨[.exportDefault ⟨.ofName "first", 1⟩,
    .value ⟨"first", .function [(some "t", .ofName "Tree")] (.ofName "Item") none, 2⟩,
    .typeAlias ⟨"Tree", [], .tuple [.ofName "Leaf", .ofName "Item"], 3⟩,
    .typeAlias ⟨"Leaf", [], .ofName "Number", 4⟩]⟩

/-- A program for it that gives back a text where an item is wanted. -/
def treeText : String := "function first(t) \x7b return 'none'; \x7d\nmodule.exports = first;"

theorem verify_reordered_tree :
    let imports : List ImportedType := [⟨"Entry", "Item", [], .ofName "Number"⟩]
    let backwards : Header := ⟨treeHeader.statements.reverse⟩
    let outcome := verify (Script.parse treeText) (.ofText treeText) treeHeader imports {}
    treeHeader.Reordered backwards ∧
      outcome.errors.map (fun d => (d.kind, d.line)) = [(.typeClassMismatch, 1)] ∧
      outcome = verify (Script.parse treeText) (.ofText treeText) backwards imports {} := by
  have hr : treeHeader.Reordered ⟨treeHeader.statements.reverse⟩ :=
    ⟨(List.reverse_perm _).symm, rfl⟩
  exact ⟨hr, by decide +kernel,
    verify_reordered _ _ treeHeader _ _ _ hr (by decide) (by decide)⟩

end Verify
end Countersign
