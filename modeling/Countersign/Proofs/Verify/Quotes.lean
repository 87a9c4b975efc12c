/-
# Quotes are no matter to a verification

Let all strings of some contents change their quotes: in the types of the header and of the imports,
and in the program. As many diagnostics are reported as before, of the same kinds and on the same
lines. A string of the program that no type shares may change its quotes alone, unless its own type can
become that of an element of an array.

A shared string may not: the type of a string keeps its quotes, and a value fits a literal type by its
text.

Key theorems: `quotes_no_matter`.
-/
import Countersign.Proofs.Header.Styles
import Countersign.Proofs.Verify.Parallel

namespace Countersign
namespace Verify

open Script (Stmt Expr RestyledStmts)

variable {s : String → Bool} {shared : String → Prop}

/-- The walks through related statements leave related sessions. -/
theorem checkModule_restyled {ctx ctx' : Context} (hctx : ctx.Restyled s shared ctx')
    {a b : Session} (h : a.Restyled s shared b) {ts ts' : List Stmt}
    (hts : RestyledStmts s shared ts ts') :
    (checkModule ctx a ts).Restyled s shared (checkModule ctx' b ts') :=
  (hts.check hctx _ _ ((h.enter (Scope.restyled_ofKind .module)).hoist hctx hts)).2

/-- What is left to do in the end reports the same. -/
theorem finish_marks {ctx ctx' : Context} (hctx : ctx.Restyled s shared ctx') (line : Nat)
    {a b : Session} (h : a.Restyled s shared b) :
    (finish ctx line a).errors.map Diagnostic.mark =
      (finish ctx' line b).errors.map Diagnostic.mark := by
  have hchecked := h.checkPending hctx
  have hmissing := hchecked.unassignedExport? hctx
  unfold finish
  dsimp only
  rw [List.map_append, List.map_append, hchecked.errors]
  generalize ctx.unassignedExport? _ = t at hmissing ⊢
  generalize ctx'.unassignedExport? _ = u at hmissing ⊢
  cases hmissing <;> rfl

/-- The content is that of a string in a type of the header or of an import. -/
def Shared (header : Header) (imports : List ImportedType) (content : String) : Prop :=
  content ∈ header.contents ∨ ∃ i ∈ imports, content ∈ i.type.contents

/-- **Quotes are no matter.** Strings change their quotes all over by their contents, and the same is
reported as before. -/
theorem quotes_no_matter (s : String → Bool) {header : Header} (hheader : header.Sober Whatever)
    {imports : List ImportedType} (himports : ∀ i ∈ imports, i.Sober Whatever)
    {script script' : Script}
    (hscript : RestyledStmts s (Shared header imports) script.statements script'.statements)
    (lines : LineMap) (policy : ExportPolicy) :
    (verify script' lines (header.restyle s) (imports.map (.restyle s)) policy).errors.map
        Diagnostic.mark =
      (verify script lines header imports policy).errors.map Diagnostic.mark := by
  have hheader' : header.Sober (Shared header imports) := hheader.of_contents fun _ hc => .inl hc
  have himports' : ∀ i ∈ imports, i.Sober (Shared header imports) := fun i hi =>
    (himports i hi).of_contents fun c hc => .inr ⟨i, hi, hc⟩
  have hstart := ofHeader_restyled (s := s) hheader' himports'
  have hctx := moduleContext_restyled hscript lines hheader' policy hstart.env
  have hline : (header.exportDefault?.map (·.line)).getD 0 =
      ((header.restyle s).exportDefault?.map (·.line)).getD 0 :=
    rel_getD (R := Eq) (rel_map hheader'.exportDefault? fun _ _ h => h.2) rfl
  unfold verify
  dsimp only
  rw [← hline]
  exact (finish_marks hctx _ (checkModule_restyled hctx hstart hscript)).symm

/-- A header for two methods, both of type `'GET'`. -/
def methodHeader : Header :=
  ⟨[.value ⟨"m", .value (.quoted '\'' "GET"), 1⟩, .value ⟨"p", .value (.quoted '\'' "GET"), 2⟩]⟩

/-- The program `var m = 'GET', p = 'PUT';`, each string in single or in double quotes. -/
def methodScript (first second : Bool) : Script :=
  let string (pos : Nat) (text : String) (single : Bool) : Option Expr :=
    some (.string ⟨⟨pos, 5⟩, text, single⟩)
  ⟨26, [.declaration ⟨0, 26⟩ (.mk ⟨0, 25⟩ .var [.mk ⟨4, 9⟩ ⟨⟨4, 1⟩, "m", false⟩ (string 8 "GET" first),
    .mk ⟨15, 9⟩ ⟨⟨15, 1⟩, "p", false⟩ (string 19 "PUT" second)])], [], []⟩

/-- Where `GET` changes its quotes all over, `PUT` may as well, and does not fit before or after. -/
theorem quotes_no_matter_methods :
    (verify (methodScript false false) ⟨[]⟩ (methodHeader.restyle (· == "GET")) [] {}).errors.map
        Diagnostic.mark =
      (verify (methodScript true true) ⟨[]⟩ methodHeader [] {}).errors.map Diagnostic.mark ∧
    (verify (methodScript true true) ⟨[]⟩ methodHeader [] {}).errors.map Diagnostic.mark =
      [(.typeClassMismatch, 1)] := by
  have hget : (Ty.value (.quoted '\'' "GET")).Sober Whatever :=
    Ty.sober_value (.inl ⟨'\'', "GET", rfl, by decide, trivial, rfl⟩)
  have hheader : methodHeader.Sober Whatever :=
    List.forall_mem_cons.mpr ⟨hget, List.forall_mem_singleton.mpr hget⟩
  have himports : ∀ i ∈ ([] : List ImportedType), i.Sober Whatever := by simp
  have hput : ¬ Shared methodHeader [] "PUT" := by
    rintro (hmem | ⟨i, hi, -⟩)
    · exact absurd hmem (by decide)
    · cases hi
  have hscript : RestyledStmts (· == "GET") (Shared methodHeader [])
      (methodScript true true).statements (methodScript false false).statements :=
    .cons (.declaration (.cons (.some (.string ⟨rfl, rfl, nofun, fun _ => by decide⟩))
      (.cons (.some (.string ⟨rfl, rfl, nofun, fun h => absurd (h.resolve_right nofun) hput⟩))
        .nil))) .nil
  exact ⟨@quotes_no_matter _ _ hheader [] himports _ _ hscript ⟨[]⟩ {}, by decide +kernel⟩

/-- Where `GET` changes its quotes in the program only, it is not what the header wants. -/
theorem quotes_of_shared_matter :
    (verify (methodScript false false) ⟨[]⟩ methodHeader [] {}).errors.map Diagnostic.mark ≠
      (verify (methodScript true false) ⟨[]⟩ methodHeader [] {}).errors.map Diagnostic.mark := by
  decide +kernel

end Verify
end Countersign
