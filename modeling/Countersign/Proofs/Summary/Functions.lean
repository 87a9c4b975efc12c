/-
# Every function once

The summary of a program lists its functions one by one, in the order of the text, and each of
its `return` statements is in the list of the function that it returns from: the innermost one
around it. A `return` outside of every function is in no list.

Returns are told apart by where they start. Those that are found in a part of a program, in the
part itself or in a function of it, are the returns among the nodes of that part, each of them once;
as no two returns start at one offset, no return can be in two lists.

Key definitions: `returnsOf`, `ownReturns`, `FunctionSummary.Describes`, `Splits`.
Key theorems: `Found.splits`, `Splits.own`, `functions_found_once`.
-/
import Countersign.Proofs.Summary.Lookup

namespace Countersign
namespace Script

/-! ### Returns among the nodes -/

/-- The offset of a node that is a `return` statement. -/
def Node.return? : Node → Option Nat
  | .stmt (.returnWith span _) => some span.pos
  | _ => none

/-- The offsets of the `return` statements among the nodes. -/
def returnsOf (ns : List Node) : List Nat := ns.filterMap Node.return?

/-- The functions among the nodes. -/
def functionsOf (ns : List Node) : List FunctionNode := ns.filterMap Node.functionNode?

/-- Whether a `return` statement stands in the body of one of the functions among the nodes. -/
def isEnclosed (ns : List Node) (pos : Nat) : Bool :=
  (functionsOf ns).any fun g => (returnsOf g.body.nodes).contains pos

/-- The `return` statements among the nodes that stand in no function among them. -/
def ownReturns (ns : List Node) : List Nat := (returnsOf ns).filter (!isEnclosed ns ·)

section Nodes

variable {n : Node} {ns ms : List Node} {g : FunctionNode}

theorem returnsOf_append : returnsOf (ns ++ ms) = returnsOf ns ++ returnsOf ms :=
  List.filterMap_append

theorem functionsOf_append : functionsOf (ns ++ ms) = functionsOf ns ++ functionsOf ms :=
  List.filterMap_append

theorem returnsOf_cons (h : n.return? = none) : returnsOf (n :: ns) = returnsOf ns :=
  List.filterMap_cons_none h

theorem functionsOf_cons (h : n.functionNode? = none) : functionsOf (n :: ns) = functionsOf ns :=
  List.filterMap_cons_none h

theorem functionsOf_function (h : n.functionNode? = some g) :
    functionsOf (n :: ns) = g :: functionsOf ns := List.filterMap_cons_some h

theorem Node.return?_of_mark? (h : n.mark? = none) : n.return? = none := by
  rcases n with s | e
  · cases s <;> first | rfl | cases h
  · rfl

theorem Node.return?_of_functionNode? (h : n.functionNode? = some g) : n.return? = none := by
  rcases n with s | e
  · cases s <;> first | rfl | cases h
  · rfl

/-- Returns are told apart by where they start. -/
theorem returnsOf_sublist (ns : List Node) : (returnsOf ns).Sublist (marks ns) := by
  induction ns with
  | nil => exact .slnil
  | cons n ns ih =>
    have hcons : (marks ns).Sublist (marks (n :: ns)) := (List.sublist_cons_self _ _).filterMap _
    by_cases hreturn : ∃ span v, n = .stmt (.returnWith span v)
    · obtain ⟨span, v, rfl⟩ := hreturn
      exact ih.cons_cons span.pos
    · rw [returnsOf_cons]
      · exact ih.trans hcons
      · rcases n with s | e
        · cases s <;> first | rfl | exact absurd ⟨_, _, rfl⟩ hreturn
        · rfl

end Nodes

/-! ### Returns in their functions -/

/-- The returns that the functions keep to themselves. -/
def keptReturns (fs : List FunctionSummary) : List Nat := fs.flatMap fun f => offsets f.returns

/-- What is found in a part of a program shares out the returns among its nodes: some are found in
the part itself, the others are kept by the functions in whose bodies they stand. -/
structure Splits (f : Findings) (ns : List Node) : Prop where
  inOrder : (offsets f.returns).Sublist (returnsOf ns)
  perm : (offsets f.returns ++ keptReturns f.functions).Perm (returnsOf ns)
  kept : ∀ pos, pos ∈ keptReturns f.functions ↔ isEnclosed ns pos = true
  bodies : ∀ g ∈ functionsOf ns, (returnsOf g.body.nodes).Sublist (returnsOf ns)

section Splits

variable {lines : LineMap} {f g : Findings} {ns ms : List Node}

theorem keptReturns_append (fs gs : List FunctionSummary) :
    keptReturns (fs ++ gs) = keptReturns fs ++ keptReturns gs := List.flatMap_append

theorem isEnclosed_append (pos : Nat) :
    isEnclosed (ns ++ ms) pos = (isEnclosed ns pos || isEnclosed ms pos) := by
  rw [isEnclosed, functionsOf_append, List.any_append]
  rfl

theorem Splits.quiet (hfunctions : f.functions = []) (hreturns : f.returns = []) : Splits f [] where
  inOrder := by rw [hreturns]; exact .slnil
  perm := by rw [hfunctions, hreturns]; exact .nil
  kept pos := by rw [hfunctions]; simp [keptReturns, isEnclosed, functionsOf]
  bodies g hg := nomatch hg

theorem Splits.append (hf : Splits f ns) (hg : Splits g ms) : Splits (f ++ g) (ns ++ ms) where
  inOrder := by
    show ((f.returns ++ g.returns).map _).Sublist _
    rw [List.map_append, returnsOf_append]
    exact hf.inOrder.append hg.inOrder
  perm := by
    show ((f.returns ++ g.returns).map _ ++ keptReturns (f.functions ++ g.functions)).Perm _
    rw [List.map_append, keptReturns_append, returnsOf_append]
    -- The returns of `g` itself go past those that the functions of `f` keep.
    refine .trans ?_ (hf.perm.append hg.perm)
    simp only [List.append_assoc, offsets]
    refine .append_left _ ?_
    rw [← List.append_assoc, ← List.append_assoc]
    exact List.perm_append_comm.append_right _
  kept pos := by
    show pos ∈ keptReturns (f.functions ++ g.functions) ↔ _
    rw [keptReturns_append, List.mem_append, hf.kept, hg.kept, isEnclosed_append, Bool.or_eq_true]
  bodies h hh := by
    rw [returnsOf_append]
    rw [functionsOf_append] at hh
    rcases List.mem_append.mp hh with hh | hh
    · exact (hf.bodies h hh).trans (List.sublist_append_left _ _)
    · exact (hg.bodies h hh).trans (List.sublist_append_right _ _)

theorem Splits.cons (hf : Splits f ns) {n : Node} (hn : n.mark? = none) : Splits f (n :: ns) := by
  have hfunctions : functionsOf (n :: ns) = functionsOf ns :=
    functionsOf_cons (Node.functionNode?_of_mark? hn)
  have hreturns : returnsOf (n :: ns) = returnsOf ns := returnsOf_cons (Node.return?_of_mark? hn)
  constructor
  · rw [hreturns]
    exact hf.inOrder
  · rw [hreturns]
    exact hf.perm
  · intro pos
    rw [isEnclosed, hfunctions]
    exact hf.kept pos
  · rw [hreturns, hfunctions]
    exact hf.bodies

/-- A function keeps what is found in its body, which is all of the returns there. -/
theorem Splits.function {h : FunctionNode} {n : Node} (hn : n.functionNode? = some h)
    (hb : Splits (h.body.findings lines false) h.body.nodes) :
    Splits (h.findings lines) (n :: h.body.nodes) := by
  have hfunctions : functionsOf (n :: h.body.nodes) = h :: functionsOf h.body.nodes :=
    functionsOf_function hn
  have hreturns : returnsOf (n :: h.body.nodes) = returnsOf h.body.nodes :=
    returnsOf_cons (Node.return?_of_functionNode? hn)
  constructor
  · exact List.nil_sublist _
  · rw [hreturns]
    exact hb.perm
  · intro pos
    show pos ∈ offsets (h.body.findings lines false).returns ++
      keptReturns (h.body.findings lines false).functions ↔ _
    rw [hb.perm.mem_iff, isEnclosed, hfunctions, List.any_cons, Bool.or_eq_true,
      List.contains_iff_mem]
    refine ⟨.inl, fun hpos => hpos.elim id fun hinner => ?_⟩
    exact hb.perm.mem_iff.mp (List.mem_append_right _ ((hb.kept pos).mpr hinner))
  · intro g hg
    rw [hreturns]
    rw [hfunctions] at hg
    rcases List.mem_cons.mp hg with rfl | hg
    · exact .refl _
    · exact hb.bodies g hg

theorem Splits.returned (hf : Splits f ns) {span : Span} {v : Option Expr} {line : Nat}
    {reachable : Bool} : Splits ({ returns := [⟨span.pos, line, reachable⟩] } ++ f)
      (.stmt (.returnWith span v) :: ns) where
  inOrder := hf.inOrder.cons_cons span.pos
  perm := hf.perm.cons span.pos
  kept := hf.kept
  bodies g hg := (hf.bodies g hg).cons span.pos

/-- **Returns are shared out** wherever something is found. -/
theorem Found.splits (h : Found lines f ns) : Splits f ns := by
  induction h with
  | quiet hfunctions hreturns => exact .quiet hfunctions hreturns
  | append _ _ ihf ihg => exact ihf.append ihg
  | cons _ hn ih => exact ih.cons hn
  | function hn _ ih => exact .function hn ih
  | returned _ ih => exact ih.returned

/-- Where no two returns start at one offset, the returns that are found in the part itself are
those that no function encloses. -/
theorem Splits.own (h : Splits f ns) (hdistinct : (returnsOf ns).Nodup) :
    offsets f.returns = ownReturns ns := by
  have hnodup := h.perm.nodup_iff.mpr hdistinct
  have hapart : ∀ pos ∈ offsets f.returns, isEnclosed ns pos = false := by
    intro pos hpos
    refine eq_false_of_ne_true fun henclosed => ?_
    exact List.disjoint_of_nodup_append hnodup hpos ((h.kept pos).mpr henclosed)
  -- They are among the returns in the same order, and all that are not enclosed are among them.
  have hsub : (offsets f.returns).Sublist (ownReturns ns) := by
    have hfilter := h.inOrder.filter (!isEnclosed ns ·)
    rwa [List.filter_eq_self.mpr fun pos hpos => by rw [hapart pos hpos, Bool.not_false]] at hfilter
  refine hsub.eq_of_length_le ((hdistinct.filter _).subperm fun pos hpos => ?_).length_le
  obtain ⟨hreturn, hopen⟩ := List.mem_filter.mp hpos
  rcases List.mem_append.mp (h.perm.mem_iff.mpr hreturn) with hown | hkept
  · exact hown
  · rw [(h.kept pos).mp hkept] at hopen
    cases hopen

end Splits

/-- Where no return is kept twice, no two functions keep the same. -/
theorem eq_of_mem_kept {fs : List FunctionSummary} (h : (keptReturns fs).Nodup)
    {f g : FunctionSummary} (hf : f ∈ fs) (hg : g ∈ fs) {pos : Nat} (hpos : pos ∈ offsets f.returns)
    (hpos' : pos ∈ offsets g.returns) : f = g := by
  induction fs with
  | nil => cases hf
  | cons k fs ih =>
    obtain ⟨-, hrest, hapart⟩ := List.nodup_append'.mp h
    rcases List.mem_cons.mp hf with rfl | hf' <;> rcases List.mem_cons.mp hg with rfl | hg'
    · rfl
    · exact absurd (List.mem_flatMap.mpr ⟨g, hg', hpos'⟩) (hapart hpos)
    · exact absurd (List.mem_flatMap.mpr ⟨f, hf', hpos⟩) (hapart hpos')
    · exact ih hrest hf' hg'

/-! ### Functions one by one -/

/-- The summary of a function. -/
def FunctionNode.summary (lines : LineMap) (g : FunctionNode) : FunctionSummary where
  name := g.name
  kind := g.kind
  pos := g.pos
  line := lines.lineNumber g.pos
  paramCount := g.paramCount
  accesses := (g.body.findings lines false).accesses
  returns := (g.body.findings lines false).returns
  completion :=
    Findings.completionOf g.body.canComplete (g.body.findings lines false).returns

theorem Found.functions_eq {lines : LineMap} {f : Findings} {ns : List Node}
    (h : Found lines f ns) : f.functions = (functionsOf ns).map (FunctionNode.summary lines) := by
  induction h with
  | quiet hfunctions _ => exact hfunctions
  | @append f g ns ms _ _ ihf ihg =>
    show f.functions ++ g.functions = _
    rw [ihf, ihg, functionsOf_append, List.map_append]
  | cons _ hn ih => rw [ih, functionsOf_cons (Node.functionNode?_of_mark? hn)]
  | @function g n hn _ ih =>
    rw [functionsOf_function hn, List.map_cons, ← ih]
    rfl
  | returned _ ih => exact ih

/-- The functions of a program start at increasing offsets. -/
theorem functionsOf_increase (text : String) :
    ((functionsOf (parse text).nodes).map (·.pos)).Pairwise (· < ·) := by
  have hpositions : ((parse text).nodes.filterMap Node.function?).map (·.1) =
      (functionsOf (parse text).nodes).map (·.pos) := by
    rw [funext Node.function?_eq, ← List.map_filterMap, List.map_map]
    rfl
  rw [← hpositions]
  exact (marks_increase text).sublist (function?_sublist _)

/-- The summary is that of the function, and its returns are those that stand in the body of the
function and in no function inside of it. -/
structure Describes (lines : LineMap) (f : FunctionSummary) (g : FunctionNode) : Prop where
  name : f.name = g.name
  kind : f.kind = g.kind
  pos : f.pos = g.pos
  line : f.line = lines.lineNumber g.pos
  paramCount : f.paramCount = g.paramCount
  returns : offsets f.returns = ownReturns g.body.nodes

/-- **Every function once, in the order of the text.** The summary of a program describes its
functions, declared or expressed, one by one as they stand in the tree, and no others; they start at
increasing offsets, and looking one up by its offset gives it back. A `return` statement is in the
summary of the innermost function around it and in no other, and one that is outside of every
function is in none. -/
theorem functions_found_once (text : String) (lines : LineMap) :
    List.Forall₂ (Describes lines) ((parse text).summarize lines).functions
        (functionsOf (parse text).nodes) ∧
      (((parse text).summarize lines).functions.map (·.pos)).Pairwise (· < ·) ∧
      (∀ f ∈ ((parse text).summarize lines).functions,
        ((parse text).summarize lines).functionAt? f.pos = some f) ∧
      (∀ pos ∈ returnsOf (parse text).nodes, pos ∉ ownReturns (parse text).nodes →
        ∃! f, f ∈ ((parse text).summarize lines).functions ∧ pos ∈ offsets f.returns) ∧
      ∀ pos ∈ ownReturns (parse text).nodes,
        ∀ f ∈ ((parse text).summarize lines).functions, pos ∉ offsets f.returns := by
  have hfound := findingsOfStmts_found lines false (parse text).statements
  have hsplits : Splits _ (parse text).nodes := hfound.splits
  have hdistinct : (returnsOf (parse text).nodes).Nodup :=
    ((marks_increase text).sublist (returnsOf_sublist _)).imp Nat.ne_of_lt
  have hnodup := hsplits.perm.nodup_iff.mpr hdistinct
  have hfunctions : ((parse text).summarize lines).functions =
      (functionsOf (parse text).nodes).map (FunctionNode.summary lines) := hfound.functions_eq
  have hincrease : (((parse text).summarize lines).functions.map (·.pos)).Pairwise (· < ·) := by
    rw [hfunctions, List.map_map]
    exact functionsOf_increase text
  refine ⟨?_, hincrease, fun f hf => find?_of_distinct (hincrease.imp Nat.ne_of_lt) hf,
    fun pos hpos hown => ?_, fun pos hpos f hf hreturn => ?_⟩
  · rw [hfunctions, List.forall₂_map_left_iff, List.forall₂_same]
    intro g hg
    refine ⟨rfl, rfl, rfl, rfl, rfl, ?_⟩
    exact (g.body.findings_found lines false).splits.own (hdistinct.sublist (hsplits.bodies g hg))
  · have hkept : pos ∈ keptReturns ((parse text).summarize lines).functions := by
      refine (hsplits.kept pos).mpr (by_contra fun hopen => hown (List.mem_filter.mpr ⟨hpos, ?_⟩))
      rw [eq_false_of_ne_true hopen, Bool.not_false]
    obtain ⟨f, hf, hreturn⟩ := List.mem_flatMap.mp hkept
    refine ⟨f, ⟨hf, hreturn⟩, fun g ⟨hg, hother⟩ => ?_⟩
    exact eq_of_mem_kept (List.nodup_append.mp hnodup).2.1 hg hf hother hreturn
  · obtain ⟨-, hopen⟩ := List.mem_filter.mp hpos
    have hkept : pos ∈ keptReturns ((parse text).summarize lines).functions :=
      List.mem_flatMap.mpr ⟨f, hf, hreturn⟩
    rw [(hsplits.kept pos).mp hkept] at hopen
    cases hopen

end Script
end Countersign
