/-
# How sessions bind names

Hoisting names, entering the body of a function, declaring a variable and reading a header all come
to the same few changes of a session, one after the other: a name is declared, a name whose
declaration failed is given another type, a hoisted function is noted as untyped, or a type that
does not fit is reported. What each of these changes keeps, all that binds names keeps.

Key definitions: `Session.Binds`.
Key theorems: `Session.hoist_binds`, `Session.enterFunction_binds`, `Session.declareResult_binds`,
`Session.declareKeys_binds`.
-/
import Countersign.Verify

namespace Countersign
namespace Verify
namespace Session

open Script (Stmt Param NameSite DeclKind DeclList)

/-- A session that is led on to another one by binding names. -/
inductive Binds : Session → Session → Prop
  | refl (s : Session) : Binds s s
  | trans {s s' s'' : Session} : Binds s s' → Binds s' s'' → Binds s s''
  | declared {s : Session} {kind : DeclKind} {b : Binding} {env : Env} :
      s.declareAs kind b = .ok env → Binds s { s with env := env }
  /-- A name can be given another type only where its declaration failed. -/
  | rebound {s : Session} {kind : DeclKind} {b old : Binding} {t : Ty} {env : Env} :
      s.declareAs kind b = .error old → s.env.rebind? b.name t = some env →
      Binds s { s with env := env }
  | noted (s : Session) (pos : Nat) : Binds s { s with untyped := s.untyped ++ [pos] }
  | mismatched (s : Session) (described : String) (actual expected : Ty) (line : Nat) :
      Binds s (s.reportAll (mismatch? s.env described actual expected line).toList)

theorem Binds.foldl {α : Type} {f : Session → α → Session} (h : ∀ s a, Binds s (f s a))
    (as : List α) (s : Session) : Binds s (as.foldl f s) := by
  induction as generalizing s with
  | nil => exact .refl s
  | cons a as ih => exact (h s a).trans (ih (f s a))

variable (ctx : Context) (s : Session)

theorem declare_binds (b : Binding) : Binds s (s.declare b) := by
  unfold declare
  split
  · rename_i env henv
    exact .declared (show s.declareAs .let b = .ok env from henv)
  · exact .refl s

theorem declareVar_binds (b : Binding) : Binds s (s.declareVar b) := by
  unfold declareVar
  split
  · rename_i env henv
    exact .declared (show s.declareAs .var b = .ok env from henv)
  · exact .refl s

theorem rebind_binds {kind : DeclKind} {b old : Binding} (t : Ty)
    (h : s.declareAs kind b = .error old) : Binds s (s.rebind b.name t) := by
  unfold rebind
  split
  · rename_i henv
    exact .rebound h henv
  · exact .refl s

theorem hoistFunction_binds (site : NameSite) : Binds s (s.hoistFunction ctx site) := by
  unfold hoistFunction
  split
  · exact .refl s
  · exact (s.declareVar_binds _).trans (.noted _ _)

theorem hoist_binds (ss : List Stmt) : Binds s (s.hoist ctx ss) :=
  (Binds.foldl (fun s _ => s.declareVar_binds _) _ s).trans
    (Binds.foldl (fun s site => s.hoistFunction_binds ctx site) _ _)

theorem declareParams_binds (ps : List Param) (ts : List Ty) :
    Binds s (s.declareParams ctx ps ts) := by
  induction ps generalizing s ts with
  | nil => exact .refl s
  | cons p ps ih => exact (s.declare_binds _).trans (ih _ ts.tail)

/-- From the scope of a function's body on, its parameters and its hoisted names are bound. -/
theorem enterFunction_binds (head : FunctionHead) (plan : FunctionPlan) (body : List Stmt) :
    Binds (s.enter (.ofFunction plan.receiver)) (s.enterFunction ctx head plan body) :=
  (declareParams_binds ctx _ _ _).trans (hoist_binds ctx _ body)

theorem bindVariable_binds (kind : DeclKind) (b : Binding) :
    Binds s (s.bindVariable kind b) := by
  unfold bindVariable
  split
  · rename_i henv
    exact .declared henv
  · rename_i hfailed
    split
    · exact s.rebind_binds _ hfailed
    · exact .mismatched s _ _ _ _

theorem declareResult_binds (kind : DeclKind) (name : String) (line : Nat) (type : Option Ty) :
    Binds s (s.declareResult kind name line type) := by
  unfold declareResult
  split
  · exact s.bindVariable_binds _ _
  · split
    · exact .refl s
    · exact s.bindVariable_binds _ _

theorem declareKeys_binds (l : DeclList) : Binds s (s.declareKeys ctx l) := by
  obtain ⟨span, kind, ds⟩ := l
  refine Binds.foldl (fun s d => ?_) ds s
  obtain ⟨span, name, init⟩ := d
  unfold declareKey
  dsimp only
  split
  · rename_i henv
    exact .declared henv
  · rename_i hfailed
    exact s.rebind_binds _ hfailed

theorem declareValue_binds (v : ValueStatement) : Binds s (s.declareValue v) := by
  unfold declareValue
  split
  · rename_i env henv
    exact .declared (show s.declareAs .let ⟨v.name, v.type, v.line⟩ = .ok env from henv)
  · exact .mismatched s _ _ _ _

/-- Reading a header binds names from the session with its imports and its named types on. -/
theorem ofHeader_binds (header : Header) (imports : List ImportedType) :
    Binds { env := (imports.foldl Env.withImport
      (Env.initial.push (.ofKind .header))).withAliases header } (ofHeader header imports) :=
  Binds.foldl declareValue_binds header.values _

end Session
end Verify
end Countersign
