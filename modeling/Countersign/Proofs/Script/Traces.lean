/-
# Finding pieces among tokens

A text with errors is read as well: what is missing is made up, and what fits nowhere is passed
over. The operators, names and literals of a tree are never made up, so they are found among the
tokens of the text, in order, with other tokens between them.

Key definitions: `Piece.isFirm`, `Traces`.
Key theorems: `Traces.snoc`, `Spells.traces`, `Traces.listed_present`.
-/
import Countersign.Proofs.Script.Pieces
import Countersign.Script.Parse.Expression

namespace Countersign
namespace Script

/-- Operators: binary ones, assignments, those before or after an operand, the comma, and the
question mark of a conditional. -/
def TokenKind.isOperator (k : TokenKind) : Bool :=
  k.level?.isSome || k.isAssignment || k.beforeMark?.isSome || k.wordOp?.isSome ||
    k == .mark .comma || k == .mark .question

/-- Whether the piece is never made up: operators, names that are not faulty, and literals. -/
def Piece.isFirm : Piece → Bool
  | kind k => k.isOperator
  | ident i => !i.faulty
  | property i => !i.faulty
  | string _ => true
  | number _ => true
  | regex _ _ => true
  | optional _ => false
  | hole => false

/-- The firm pieces stand for tokens among `ts`, in the order of these. -/
def Traces (text : List Char) (ps : List Piece) (ts : List Token) : Prop :=
  List.SublistForall₂ (fun p t => p.IsToken text t) (ps.filter Piece.isFirm) ts

theorem sublistForall₂_of_sublist {α β : Type} {R : α → β → Prop} {as bs : List α} {cs : List β}
    (h : List.SublistForall₂ R as cs) (hsub : bs.Sublist as) : List.SublistForall₂ R bs cs := by
  induction h generalizing bs with
  | nil =>
    rw [List.sublist_nil.mp hsub]
    exact .nil
  | cons hac _ ih =>
    rcases List.sublist_cons_iff.mp hsub with hrest | ⟨bs', rfl, hrest⟩
    · exact .cons_right (ih hrest)
    · exact .cons hac (ih hrest)
  | cons_right _ ih => exact .cons_right (ih hsub)

theorem sublistForall₂_append {α β : Type} {R : α → β → Prop} {as as' : List α} {cs cs' : List β}
    (h : List.SublistForall₂ R as cs) (h' : List.SublistForall₂ R as' cs') :
    List.SublistForall₂ R (as ++ as') (cs ++ cs') := by
  rw [List.sublistForall₂_iff] at *
  obtain ⟨bs, hbs, hsub⟩ := h
  obtain ⟨bs', hbs', hsub'⟩ := h'
  exact ⟨bs ++ bs', List.rel_append hbs hbs', hsub.append hsub'⟩

section Traces

variable {text : List Char} {ps qs : List Piece} {ts : List Token} {p : Piece} {t : Token}

/-- What was found among pieces was found among some of them. -/
theorem Traces.sublist (h : Traces text ps ts) (hsub : qs.Sublist ps) : Traces text qs ts :=
  sublistForall₂_of_sublist h (hsub.filter _)

/-- Pieces that may be made up need not be found. -/
theorem Traces.of_firm (h : Traces text ps ts)
    (heq : qs.filter Piece.isFirm = ps.filter Piece.isFirm) : Traces text qs ts := by
  rwa [Traces, heq]

theorem Traces.loose (h : Traces text ps ts) (hp : p.isFirm = false) :
    Traces text (ps ++ [p]) ts := h.of_firm (by simp [hp])

theorem Traces.snoc (h : Traces text ps ts) (hp : p.IsToken text t) :
    Traces text (ps ++ [p]) (ts ++ [t]) := by
  have hlast : List.SublistForall₂ (fun p t => p.IsToken text t) [p] [t] := .cons hp .nil
  rw [Traces, List.filter_append]
  exact sublistForall₂_append h (sublistForall₂_of_sublist hlast List.filter_sublist)

/-- A token may be passed over. -/
theorem Traces.pass (h : Traces text ps ts) : Traces text ps (ts ++ [t]) := by
  have hpass := sublistForall₂_append h (.nil (l := [t]))
  rwa [List.append_nil] at hpass

/-- What spells all the tokens is found among them. -/
theorem Spells.traces (h : Spells text ps ts) : Traces text ps ts := by
  induction h with
  | nil => exact .nil
  | token hp _ ih =>
    refine sublistForall₂_of_sublist (.cons hp ih) ?_
    rw [List.filter_cons]
    split
    · exact .refl _
    · exact List.sublist_cons_self _ _
  | absent _ ih => exact ih

end Traces

/-! ### Lists with something missing -/

theorem Expr.elementPieces_sublist (e : Expr) : e.elementPieces.Sublist e.pieces := by
  rw [Expr.elementPieces]
  split
  · exact List.nil_sublist _
  · exact .refl _

section Present

variable {α : Type}

/-- What may be missing, and then leaves a hole. -/
def present (m : α → List Piece) : Option α → List Piece
  | none => [.hole]
  | some a => m a

/-- What is not missing anywhere is all there. -/
theorem map_present (m : α → List Piece) {as : List (Option α)} (h : none ∉ as) :
    as.map (present m) = (as.filterMap id).map m := by
  induction as with
  | nil => rfl
  | cons a as ih =>
    cases a with
    | none => exact absurd List.mem_cons_self h
    | some a =>
      have has : none ∉ as := fun hmem => h (List.mem_cons_of_mem _ hmem)
      exact congrArg (m a :: ·) (ih has)

theorem listed_sublist_cons (p : List Piece) (ps : List (List Piece)) :
    (listed ps).Sublist (listed (p :: ps)) := by
  cases ps with
  | nil => exact List.nil_sublist _
  | cons q ps =>
    rw [listed]
    exact (List.sublist_cons_self _ _).trans (List.sublist_append_right _ _)

/-- A comma may follow the last item of every list that has one. -/
theorem optional_mem_listed (p : List Piece) (ps : List (List Piece)) :
    .optional .comma ∈ listed (p :: ps) := by
  induction ps generalizing p with
  | nil => simp [listed]
  | cons q ps ih =>
    rw [listed, List.mem_append]
    exact .inr (List.mem_cons_of_mem _ (ih q))

theorem single_sublist_listed (p : List Piece) (ps : List (List Piece)) :
    (listed [p]).Sublist (listed (p :: ps)) := by
  cases ps with
  | nil => exact .refl _
  | cons q ps =>
    rw [listed, listed]
    refine (List.Sublist.refl p).append (List.singleton_sublist.mpr ?_)
    exact List.mem_cons_of_mem _ (optional_mem_listed q ps)

/-- A list loses no more than the places where something is missing. -/
theorem listed_present_sublist (m : α → List Piece) (as : List (Option α)) :
    (listed ((as.filterMap id).map m)).Sublist (listed (as.map (present m))) := by
  induction as with
  | nil => exact .refl _
  | cons a as ih =>
    cases a with
    | none => exact ih.trans (listed_sublist_cons _ _)
    | some a =>
      show (listed (m a :: (as.filterMap id).map m)).Sublist (listed (m a :: as.map (present m)))
      cases hrest : as.filterMap id with
      | nil => exact single_sublist_listed _ _
      | cons b bs =>
        cases as with
        | nil => cases hrest
        | cons a' as =>
          rw [hrest] at ih
          exact (List.Sublist.refl (m a)).append (ih.cons_cons _)

theorem flatMap_present_sublist (m : α → List Piece) (as : List (Option α)) :
    ((as.filterMap id).flatMap m).Sublist (as.flatMap (present m)) := by
  induction as with
  | nil => exact .refl _
  | cons a as ih =>
    cases a with
    | none => exact ih.trans (List.sublist_append_right _ _)
    | some a => exact (List.Sublist.refl (m a)).append ih

end Present

end Script
end Countersign
