/-
# What a session keeps

Everything that happens to a session between the checks of two functions leaves the named types
alone, takes no diagnostic back, and does not touch the record of the functions that were checked.
Recording exports and constructors binds no names either.

Key definitions: `Session.Grows`, `Session.Records`.
Key theorems: `Session.Binds.grows`, `Target.complete_records`.
-/
import Countersign.Proofs.Env.Names
import Countersign.Proofs.Verify.Binding

namespace Countersign
namespace Verify
namespace Session

/-- A session that was led on to another one without a function being checked. -/
structure Grows (s s' : Session) : Prop where
  aliases : s'.env.aliases = s.env.aliases
  errors : s.errors <+: s'.errors
  checked : s'.checked = s.checked

namespace Grows

variable {s s' s'' : Session}

theorem refl (s : Session) : Grows s s := ⟨rfl, List.prefix_refl _, rfl⟩

theorem trans (h : Grows s s') (h' : Grows s' s'') : Grows s s'' :=
  ⟨h'.aliases.trans h.aliases, h.errors.trans h'.errors, h'.checked.trans h.checked⟩

end Grows

/-! ### Names that are bound -/

variable (ctx : Context) (s : Session)

theorem enter_grows (scope : Scope) : Grows s (s.enter scope) := ⟨rfl, List.prefix_refl _, rfl⟩

theorem leave_grows : Grows s s.leave := ⟨s.env.pop_aliases, List.prefix_refl _, rfl⟩

theorem declareAs_aliases {kind : Script.DeclKind} {b : Binding} {env : Env}
    (h : s.declareAs kind b = .ok env) : env.aliases = s.env.aliases := by
  unfold declareAs at h
  split at h
  · exact Env.modifyScope_aliases h
  · exact Env.modifyScope_aliases h

theorem Binds.grows {s s' : Session} (h : Binds s s') : Grows s s' := by
  induction h with
  | refl s => exact .refl s
  | trans _ _ ih ih' => exact ih.trans ih'
  | declared henv => exact ⟨declareAs_aliases _ henv, List.prefix_refl _, rfl⟩
  | rebound _ henv => exact ⟨Env.rebind?_aliases henv, List.prefix_refl _, rfl⟩
  | noted s pos => exact ⟨rfl, List.prefix_refl _, rfl⟩
  | mismatched s described actual expected line => exact ⟨rfl, List.prefix_append _ _, rfl⟩

theorem enterBlock_grows (ss : List Script.Stmt) : Grows s (s.enterBlock ctx ss) :=
  (s.enter_grows _).trans (hoist_binds ctx _ ss).grows

theorem enterFunction_grows (head : FunctionHead) (plan : FunctionPlan) (body : List Script.Stmt) :
    Grows s (s.enterFunction ctx head plan body) :=
  (s.enter_grows _).trans (s.enterFunction_binds ctx head plan body).grows

/-! ### Exports and constructors that are recorded -/

/-- A session that was led on to another one without a name being bound or a function checked. -/
structure Records (s s' : Session) : Prop where
  env : s'.env = s.env
  errors : s.errors <+: s'.errors
  untyped : s'.untyped = s.untyped
  checked : s'.checked = s.checked

namespace Records

variable {s s' s'' : Session}

theorem refl (s : Session) : Records s s := ⟨rfl, List.prefix_refl _, rfl, rfl⟩

theorem trans (h : Records s s') (h' : Records s' s'') : Records s s'' :=
  ⟨h'.env.trans h.env, h.errors.trans h'.errors, h'.untyped.trans h.untyped,
    h'.checked.trans h.checked⟩

theorem grows (h : Records s s') : Grows s s' := ⟨congrArg Env.aliases h.env, h.errors, h.checked⟩

end Records

theorem reportAll_records (ds : List Diagnostic) : Records s (s.reportAll ds) :=
  ⟨rfl, List.prefix_append _ _, rfl, rfl⟩

theorem report_records (d : Diagnostic) : Records s (s.report d) := s.reportAll_records [d]

theorem checkFields_records (ctor : String) (line : Nat) :
    Records s (s.checkFields ctx ctor line) := by
  unfold checkFields
  split
  · exact .refl s
  · exact ⟨rfl, List.prefix_append _ _, rfl, rfl⟩

theorem checkPending_records : Records s (s.checkPending ctx) := by
  unfold checkPending
  generalize s.pendingCtors = waiting
  induction waiting generalizing s with
  | nil => exact .refl s
  | cons c waiting ih => exact (s.checkFields_records ctx c.1 c.2).trans (ih _)

theorem noteExport_records (name : String) (line : Nat) :
    Records s (s.noteExport ctx name line) := by
  unfold noteExport
  split
  · have hlisted : Records s { s with exportedCtors := s.exportedCtors ++ [name] } :=
      ⟨rfl, List.prefix_refl _, rfl, rfl⟩
    exact hlisted.trans (checkFields_records ctx _ name line)
  · exact .refl s

theorem noteDeclaration_records (name : String) (line : Nat) :
    Records s (s.noteDeclaration ctx name line) := by
  unfold noteDeclaration
  split
  · split
    · exact ⟨rfl, List.prefix_refl _, rfl, rfl⟩
    · exact s.checkFields_records ctx name line
  · exact .refl s

theorem noteValue_records (valueName : Option String) (line : Nat) :
    Records s (s.noteValue ctx valueName line) := by
  cases valueName with
  | none => exact .refl s
  | some name => exact s.noteExport_records ctx name line

theorem assignExports_records (t : Ty) (line : Nat) : Records s (s.assignExports ctx t line) := by
  unfold assignExports
  split
  · exact ⟨rfl, List.prefix_refl _, rfl, rfl⟩
  · split
    · exact .refl s
    · exact s.report_records _

end Session

/-- What an assignment does is recorded. -/
theorem Target.complete_records (ctx : Context) (valueName : Option String) (t : Ty) (line : Nat)
    (target : Target) (s : Session) : s.Records (target.complete ctx valueName t line s) := by
  cases target with
  | exports =>
    exact (s.assignExports_records ctx t line).trans (Session.noteValue_records ctx _ valueName line)
  | exportProperty key =>
    have hset : s.Records { s with properties := Ty.setField s.properties key t } :=
      ⟨rfl, List.prefix_refl _, rfl, rfl⟩
    exact hset.trans (Session.noteValue_records ctx _ valueName line)
  | _ => exact .refl s

end Verify
end Countersign
