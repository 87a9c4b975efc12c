/-
# What summaries say of runs

A summary says of each function how control leaves its body, and of each `return` in it whether
control can get there. No run of the body goes against that: a statement that cannot complete is not
flowed past, control does not come to a `return` that is recorded as unreachable, and it neither gets
to the end of a body nor returns from it where the summary rules that out.

A run that ends by returning has come to a `return`; only a handler and a finalizer hand on the
ending of what ran before them.

Key definitions: `FunctionSummary.SoundFor`.
Key theorems: `Runs.returned_visits`, `soundFor_of_sketch`, `summaries_sound`.
-/
import Countersign.Proofs.Summary.Execution
import Countersign.Proofs.Summary.Lookup

namespace Countersign
namespace Script

/-! ### Runs that return -/

/-- How what runs before a handler or a finalizer ended. -/
def Code.before? : Code → Option Ending
  | .handler _ before => some before
  | .finalizer _ before => some before
  | _ => none

theorem Ending.endBreak_eq_returned {e : Ending} (h : e.endBreak = .returned) : e = .returned := by
  rcases e with _ | _ | _ | label | label
  · cases h
  · rfl
  · cases h
  · cases label <;> cases h
  · cases h

theorem Ending.endLabel_eq_returned {e : Ending} {label : String}
    (h : e.endLabel label = .returned) : e = .returned := by
  rcases e with _ | _ | _ | l | l
  · cases h
  · rfl
  · cases h
  · cases l with
    | none => cases h
    | some l =>
      rw [Ending.endLabel] at h
      split at h
      · cases h
      · cases h
  · cases h

theorem Ending.OfValue.ne_returned {e : Ending} (h : e.OfValue) : e ≠ .returned := by
  rcases h with rfl | rfl
  · exact Ending.noConfusion
  · exact Ending.noConfusion

/-- **A run that returns has come to a `return`**, unless what ran before it returned already. -/
theorem Runs.returned_visits {code : Code} {vs : List Visit} {e : Ending} (h : Runs code vs e)
    (he : e = .returned) : vs ≠ [] ∨ code.before? = some .returned := by
  induction h with
  | declaration hvalue => exact absurd he hvalue.ne_returned
  | expression hvalue => exact absurd he hvalue.ne_returned
  | leaves hvalue => exact absurd he hvalue.ne_returned
  | returnBare => exact .inl (List.cons_ne_nil _ _)
  | returnValue _ => exact .inl (List.cons_ne_nil _ _)
  | block _ ih => exact ih he
  | ifYes _ ih => exact ih he
  | ifNo _ ih => exact ih he
  | doWhile _ ih => exact ih he
  | whileDo _ ih => exact ih he
  | forLoop _ ih => exact ih he
  | forIn _ ih => exact ih he
  | switchInto _ ih => exact ih (Ending.endBreak_eq_returned he)
  | labeled _ ih => exact ih (Ending.endLabel_eq_returned he)
  | @tryCatch ls span sp ss h f vs us ws e e' e'' _ _ _ ihbody ihhandler ihfinal =>
    -- The finalizer may hand on how the handler ended, and the handler how the block did.
    have hcomes : vs ≠ [] ∨ us ≠ [] ∨ ws ≠ [] := by
      rcases ihfinal he with hws | hbefore
      · exact .inr (.inr hws)
      · rcases ihhandler (Option.some.inj hbefore) with hus | hbefore
        · exact .inr (.inl hus)
        · exact .inl ((ihbody (Option.some.inj hbefore)).resolve_right nofun)
    left
    simp only [ne_eq, List.append_eq_nil_iff]
    tauto
  | next _ _ _ ih =>
    exact .inl (List.append_ne_nil_of_right_ne_nil _ ((ih he).resolve_right nofun))
  | stop _ _ ih => exact ih he
  | goes _ ih => exact ih he
  | again _ _ _ _ ih =>
    exact .inl (List.append_ne_nil_of_right_ne_nil _ ((ih he).resolve_right nofun))
  | ends _ _ ih => exact ih (Ending.endBreak_eq_returned he)
  | falls _ _ _ ih =>
    exact .inl (List.append_ne_nil_of_right_ne_nil _ ((ih he).resolve_right nofun))
  | jumps _ _ ih => exact ih he
  | passed _ => exact .inr (congrArg some he)
  | caught _ ih => exact .inl ((ih he).resolve_right nofun)
  | unfinalized => exact .inr (congrArg some he)
  | finalized _ _ => exact .inr (congrArg some he)
  | overridden _ _ ih => exact .inl ((ih he).resolve_right nofun)
  | _ => cases he

end Script

/-! ### Summaries against runs -/

open Script (Code Ending Runs Visit)

/-- What the summary of a function says is so of every run of its body. -/
structure FunctionSummary.SoundFor (f : FunctionSummary) (lines : LineMap)
    (body : List Script.Stmt) : Prop where
  /-- Control only comes to returns that are recorded as reachable. -/
  recorded : ∀ vs e, Runs (.list body) vs e → ∀ v ∈ vs, v.site lines ∈ f.returns
  /-- Control does not come to a `return` that is recorded as unreachable. -/
  unreachable : ∀ vs e, Runs (.list body) vs e → ∀ site ∈ f.returns, site.reachable = false →
    ∀ v ∈ vs, v.pos ≠ site.pos
  /-- Control gets to the end of the body only where the summary says that it may. -/
  ends : f.completion = .returns ∨ f.completion = .throws → ∀ vs, ¬ Runs (.list body) vs .normal
  /-- A function that only throws does not return. -/
  throws : f.completion = .throws → ∀ vs, ¬ Runs (.list body) vs .returned

theorem Findings.completionOf_ne_fallsThrough {ends : Bool} {returns : List ReturnSite}
    (h : completionOf ends returns = .returns ∨ completionOf ends returns = .throws) :
    ends = false := by
  cases ends with
  | false => rfl
  | true => rcases h with h | h <;> cases h

theorem Findings.completionOf_eq_throws {ends : Bool} {returns : List ReturnSite}
    (h : completionOf ends returns = .throws) : ∀ site ∈ returns, site.reachable = false := by
  unfold completionOf at h
  split at h
  · cases h
  · split at h
    · cases h
    · rename_i hnone
      simpa using hnone

namespace Script

/-- Statements that cannot complete are not flowed past. -/
theorem Runs.not_normal {ls : List String} {s : Stmt} (h : s.canComplete = false) (vs : List Visit) :
    ¬ Runs (.stmt ls s) vs .normal := by
  intro hrun
  have hcompletes : s.canComplete = true := hrun.allowed
  rw [h] at hcompletes
  cases hcompletes

/-- A summary that holds what was found in a body is sound for it if it tells its returns apart. -/
theorem soundFor_of_sketch {f : FunctionSummary} {lines : LineMap} {pos : Nat} {span : Span}
    {body : List Stmt} (hsketch : sketch f = sketchOf lines (pos, .mk span body))
    (hdistinct : (offsets f.returns).Nodup) : f.SoundFor lines body := by
  have hreturns : f.returns = (findingsOfStmts lines false body).returns :=
    congrArg Sketch.returns hsketch
  have hcompletion : f.completion = Findings.completionOf (allComplete body) f.returns := by
    rw [hreturns]
    exact congrArg Sketch.completion hsketch
  have hrecorded : ∀ vs e, Runs (.list body) vs e → ∀ v ∈ vs, v.site lines ∈ f.returns := by
    intro vs e hrun v hv
    rw [hreturns]
    exact (hrun.visits lines v hv).2
  refine ⟨hrecorded, ?_, ?_, ?_⟩
  · intro vs e hrun site hsite hunreachable v hv hpos
    have hvisited := hrecorded vs e hrun v hv
    -- The record at the offset of a `return` that was come to is the one that calls it reachable.
    have hsame : v.site lines = site := List.inj_on_of_nodup_map hdistinct hvisited hsite hpos
    rw [← hsame] at hunreachable
    cases hunreachable
  · intro hends vs hrun
    rw [hcompletion] at hends
    have hcompletes : allComplete body = true := hrun.allowed
    rw [Findings.completionOf_ne_fallsThrough hends] at hcompletes
    cases hcompletes
  · intro hthrows vs hrun
    rw [hcompletion] at hthrows
    have hvisits : vs ≠ [] := (hrun.returned_visits rfl).resolve_right nofun
    obtain ⟨v, hv⟩ := List.exists_mem_of_ne_nil vs hvisits
    have hunreachable := Findings.completionOf_eq_throws hthrows _ (hrecorded vs _ hrun v hv)
    cases hunreachable

/-- **Summaries are sound.** No statement that cannot complete is flowed past, and each function of a
program is looked up as a summary that every run of its body keeps to. -/
theorem summaries_sound :
    (∀ ls s vs, s.canComplete = false → ¬ Runs (.stmt ls s) vs .normal) ∧
      ∀ text lines, ∀ n ∈ (parse text).nodes, ∀ pos span body,
        n.function? = some (pos, .mk span body) →
          ∃ f, ((parse text).summarize lines).functionAt? pos = some f ∧ f.SoundFor lines body := by
  constructor
  · intro ls s vs hs
    exact Runs.not_normal hs vs
  · intro text lines n hn pos span body hfunction
    obtain ⟨f, hlookup, hsketch, hdistinct⟩ := summarize_finds text lines hn hfunction
    exact ⟨f, hlookup, soundFor_of_sketch hsketch hdistinct⟩

/-- A function that only throws: the `break` belongs to the loop, so the `return` is not come to. -/
def failText : String :=
  "function fail(e) \x7b switch (e) \x7b case 0: while (e) break; default: throw e; \x7d return e; \x7d"

theorem summaries_sound_fail :
    (∀ vs, ¬ Runs (.stmt [] (.breakTo ⟨0, 6⟩ none)) vs .normal) ∧
      ∃ n ∈ (parse failText).nodes, ∃ pos span body f, n.function? = some (pos, .mk span body) ∧
        ((parse failText).summarize (.ofText failText)).functionAt? pos = some f ∧
        f.completion = .throws ∧ (f.returns.any (!·.reachable)) = true ∧
        f.SoundFor (.ofText failText) body := by
  have hthrows : ((parse failText).nodes.any fun n => n.function?.any fun p =>
      (((parse failText).summarize (.ofText failText)).functionAt? p.1).any fun f =>
        f.completion == .throws && f.returns.any (!·.reachable)) = true := by
    decide +kernel
  refine ⟨fun vs => summaries_sound.1 [] _ vs rfl, ?_⟩
  obtain ⟨n, hn, hfunction⟩ := List.any_eq_true.mp hthrows
  obtain ⟨⟨pos, span, body⟩, hfunction, hsummary⟩ := (Option.any_eq_true _ _).mp hfunction
  obtain ⟨f, hlookup, hsound⟩ := summaries_sound.2 failText (.ofText failText) n hn pos span body
    hfunction
  rw [hlookup, Option.any_some, Bool.and_eq_true, beq_iff_eq] at hsummary
  exact ⟨n, hn, pos, span, body, f, hfunction, hlookup, hsummary.1, hsummary.2, hsound⟩

end Script
end Countersign
