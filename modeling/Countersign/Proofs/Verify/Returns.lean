/-
# Missing returns are never overlooked

Of a function that was checked against a result which does not admit `undefined`, and about whose
returns nothing was reported, no run of the body gets to its end, and none comes to a bare `return`.

The walk reports what the summary finds (`Walk`), the summary is looked up at the right places
(`Lookup`), and it finds all that runs can do (`Execution`).

Key definitions: `checkedFunctions`, `SilentAbout`.
Key theorems: `checked_covered`, `returns_never_overlooked`.
-/
import Countersign.Verify
import Countersign.Proofs.Verify.Walk

namespace Countersign
namespace Verify

open Script (Code Ending Runs Visit)

/-! ### The whole verification -/

/-- No function is checked before the program is walked through. -/
theorem Session.ofHeader_checked (header : Header) (imports : List ImportedType) :
    (Session.ofHeader header imports).checked = [] :=
  (Session.ofHeader_binds header imports).grows.checked

/-- The functions of a module that a verification checks against a declared result. -/
def checkedFunctions (script : Script) (lines : LineMap) (header : Header)
    (imports : List ImportedType) (policy : ExportPolicy) : List CheckedFunction :=
  let start := Session.ofHeader header imports
  (checkModule (moduleContext script lines header policy start.env) start script.statements).checked

/-- What a verification says about its end holds all that it said on its way. -/
theorem finish_errors (ctx : Context) (exportLine : Nat) (s : Session) :
    s.errors ⊆ (finish ctx exportLine s).errors := fun _ hd =>
  List.mem_append_left _ ((s.checkPending_records ctx).errors.subset hd)

/-- Everything that is due about the returns of a checked function is reported. -/
theorem checked_covered (text : String) (lines : LineMap) (header : Header)
    (imports : List ImportedType) (policy : ExportPolicy) {c : CheckedFunction}
    (hc : c ∈ checkedFunctions (Script.parse text) lines header imports policy) :
    Covered lines (Session.ofHeader header imports).env
      (verify (Script.parse text) lines header imports policy).errors c := by
  let start := Session.ofHeader header imports
  let ctx := moduleContext (Script.parse text) lines header policy start.env
  have hknows : ctx.KnowsAll (Script.parse text).nodes :=
    fun n hn pos b hfunction => Script.summarize_knows text lines hn hfunction
  have hgrows : start.Grows ((start.enter (.ofKind .module)).hoist ctx _) :=
    (start.enter_grows _).trans (Session.hoist_binds ctx _ (Script.parse text).statements).grows
  have hwalked := Script.checkStmts_walks (Script.parse text).statements ctx hknows _ hgrows.aliases
  have hmodule := (Walked.ofGrows hgrows).trans hwalked
  rcases hmodule.checked c hc with hold | hcovered
  · rw [Session.ofHeader_checked] at hold
    cases hold
  · exact hcovered.mono (finish_errors ctx _ _)

/-- No missing return is reported for a function, neither where it starts nor at a bare `return` of
its own. -/
def SilentAbout (errors : List Diagnostic) (lines : LineMap) (c : CheckedFunction) : Prop :=
  missingReturn c.name c.result (lines.lineNumber c.pos) ∉ errors ∧
    ∀ v ∈ Script.ownReturnsOfStmts c.body, v.bare = true →
      missingReturn c.name c.result (lines.lineNumber v.pos) ∉ errors

/-- **Missing returns are never overlooked.** Where a function has to return something and nothing is
reported about its returns, no run of its body completes, and none comes to a bare `return`. -/
theorem returns_never_overlooked (text : String) (lines : LineMap) (header : Header)
    (imports : List ImportedType) (policy : ExportPolicy) (c : CheckedFunction)
    (hc : c ∈ checkedFunctions (Script.parse text) lines header imports policy)
    (hresult : ((Session.ofHeader header imports).env.resolve c.result).admitsUndefined = false)
    (hsilent : SilentAbout (verify (Script.parse text) lines header imports policy).errors lines c)
    (vs : List Visit) (e : Ending) (hrun : Runs (.list c.body) vs e) :
    e ≠ .normal ∧ ∀ v ∈ vs, v.bare = false := by
  obtain ⟨hfalls, hreturns⟩ := checked_covered text lines header imports policy hc hresult
  obtain ⟨hfunction, hbare⟩ := hsilent
  constructor
  · rintro rfl
    exact hfunction (hfalls hrun.allowed)
  · intro v hv
    obtain ⟨hown, hsite⟩ := hrun.visits lines v hv
    by_contra h
    have hv : v.bare = true := by simpa using h
    exact hbare v hown hv (hreturns v hown hv hsite)

/-- A function that returns in one clause of a `switch` and throws in the other. -/
def signText : String :=
  "function sign(n) \x7b switch (n) \x7b case 0: return 0; default: throw n; \x7d \x7d"

/-- Its header: `sign : (Number) => Number`. -/
def signHeader : Header :=
  ⟨[.value ⟨"sign", .function [(none, .ofName "Number")] (.ofName "Number") none, 1⟩]⟩

theorem returns_never_overlooked_sign :
    ∃ c ∈ checkedFunctions (Script.parse signText) (.ofText signText) signHeader [] {},
      ((Session.ofHeader signHeader []).env.resolve c.result).admitsUndefined = false ∧
      SilentAbout (verify (Script.parse signText) (.ofText signText) signHeader [] {}).errors
        (.ofText signText) c ∧
      ∀ vs e, Runs (.list c.body) vs e → e ≠ .normal ∧ ∀ v ∈ vs, v.bare = false := by
  have hchecked : (checkedFunctions (Script.parse signText) (.ofText signText) signHeader [] {}).any
      (fun c => !((Session.ofHeader signHeader []).env.resolve c.result).admitsUndefined) = true := by
    decide +kernel
  have herrors : (verify (Script.parse signText) (.ofText signText) signHeader [] {}).errors.all
      (·.kind != .missingReturnStatement) = true := by
    decide +kernel
  obtain ⟨c, hc, hresult⟩ := List.any_eq_true.mp hchecked
  have hresult := Bool.not_eq_true' _ ▸ hresult
  have hkind : ∀ name result line, missingReturn name result line ∉
      (verify (Script.parse signText) (.ofText signText) signHeader [] {}).errors := by
    intro name result line hmem
    exact absurd (List.all_eq_true.mp herrors _ hmem) (by simp [missingReturn])
  have hsilent : SilentAbout (verify (Script.parse signText) (.ofText signText) signHeader [] {}).errors
      (.ofText signText) c := ⟨hkind _ _ _, fun _ _ _ => hkind _ _ _⟩
  exact ⟨c, hc, hresult, hsilent,
    returns_never_overlooked signText (.ofText signText) signHeader [] {} c hc hresult hsilent⟩

end Verify
end Countersign
