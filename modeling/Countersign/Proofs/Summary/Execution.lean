/-
# Running statements

How statements run, whatever the values in them: conditions go either way, every expression may
throw, loops run any number of times, a `switch` is entered at any of its clauses and falls through
from there, and what a finalizer comes to by a jump of its own counts instead of how the statement
before it ended.

What is left to run is a value, `Code`, so that runs are one inductive relation. A run keeps a record
of the `return` statements that control comes to.

Key definitions: `Ending`, `Visit`, `Code`, `Runs`, `Stmt.ownReturns`.
Key theorems: `Runs.allowed`, `Runs.visits`.
-/
import Countersign.Summary.Findings
import Mathlib.Tactic

namespace Countersign
namespace Script

/-- How a run of statements ends. -/
inductive Ending where
  | normal
  | returned
  | thrown
  | broken (label : Option String)
  | continued (label : Option String)
  deriving Repr, DecidableEq, Inhabited

namespace Ending

/-- A loop with these labels goes on to its next round after its body ended so. -/
def goesOn (labels : List String) : Ending → Bool
  | normal => true
  | continued none => true
  | continued (some label) => labels.contains label
  | _ => false

/-- How a loop or a `switch` ends, from how its body did: a `break` without a label is used up. -/
def endBreak : Ending → Ending
  | broken none => normal
  | e => e

/-- How a labelled statement ends, from how the statement in it did. -/
def endLabel (label : String) : Ending → Ending
  | broken (some l) => if l = label then normal else broken (some l)
  | e => e

end Ending

/-- A `return` statement that control comes to, and whether it has no value. -/
structure Visit where
  pos : Nat
  bare : Bool
  deriving Repr, DecidableEq, Inhabited

/-- What is left to run. -/
inductive Code where
  /-- A statement, and the labels right before it. -/
  | stmt (labels : List String) (s : Stmt)
  /-- Statements in order. -/
  | list (ss : List Stmt)
  /-- Any number of rounds of a loop. -/
  | loop (labels : List String) (body : Stmt)
  /-- At least one round of a loop. -/
  | round (labels : List String) (body : Stmt)
  /-- The clauses of a `switch` from the one that it is entered at. -/
  | clauses (cs : List Clause)
  /-- A handler, after its block ended in a way. -/
  | handler (h : Handler) (before : Ending)
  /-- A finalizer, after what is before it ended in a way. -/
  | finalizer (f : Option Block) (before : Ending)

/-- What evaluating expressions may come to. -/
def Ending.OfValue (e : Ending) : Prop := e = .normal ∨ e = .thrown

/-- Running the code may come to the `return` statements and end as given. -/
inductive Runs : Code → List Visit → Ending → Prop
  | declaration {ls span l e} : e.OfValue → Runs (.stmt ls (.declaration span l)) [] e
  | function {ls span n ps b} : Runs (.stmt ls (.function span n ps b)) [] .normal
  | block {ls span ss vs e} : Runs (.list ss) vs e → Runs (.stmt ls (.block (.mk span ss))) vs e
  | empty {ls span} : Runs (.stmt ls (.empty span)) [] .normal
  | expression {ls span x e} : e.OfValue → Runs (.stmt ls (.expression span x)) [] e
  | ifThrows {ls span t y n} : Runs (.stmt ls (.ifElse span t y n)) [] .thrown
  | ifYes {ls span t y n vs e} : Runs (.stmt [] y) vs e → Runs (.stmt ls (.ifElse span t y n)) vs e
  | ifNo {ls span t y n vs e} :
      Runs (.stmt [] n) vs e → Runs (.stmt ls (.ifElse span t y (some n))) vs e
  | ifNone {ls span t y} : Runs (.stmt ls (.ifElse span t y none)) [] .normal
  | doWhile {ls span b t vs e} : Runs (.round ls b) vs e → Runs (.stmt ls (.doWhile span b t)) vs e
  | whileDo {ls span t b vs e} : Runs (.loop ls b) vs e → Runs (.stmt ls (.whileDo span t b)) vs e
  | forLoop {ls span i t u b vs e} :
      Runs (.loop ls b) vs e → Runs (.stmt ls (.forLoop span i t u b)) vs e
  | forIn {ls span i o b vs e} : Runs (.loop ls b) vs e → Runs (.stmt ls (.forIn span i o b)) vs e
  | continueTo {ls span l} :
      Runs (.stmt ls (.continueTo span l)) [] (.continued (l.map (·.text)))
  | breakTo {ls span l} : Runs (.stmt ls (.breakTo span l)) [] (.broken (l.map (·.text)))
  | returnBare {ls span} : Runs (.stmt ls (.returnWith span none)) [⟨span.pos, true⟩] .returned
  | returnValue {ls span x e} : e = .returned ∨ e = .thrown →
      Runs (.stmt ls (.returnWith span (some x))) [⟨span.pos, false⟩] e
  | switchThrows {ls span x cs} : Runs (.stmt ls (.switchOn span x cs)) [] .thrown
  | switchNone {ls span x cs} : hasDefault cs = false →
      Runs (.stmt ls (.switchOn span x cs)) [] .normal
  | switchInto {ls span x before c after vs e} : Runs (.clauses (c :: after)) vs e →
      Runs (.stmt ls (.switchOn span x (before ++ c :: after))) vs e.endBreak
  | labeled {ls span l b vs e} : Runs (.stmt (l.text :: ls) b) vs e →
      Runs (.stmt ls (.labeled span l b)) vs (e.endLabel l.text)
  | throwing {ls span x} : Runs (.stmt ls (.throwing span x)) [] .thrown
  | tryCatch {ls span sp ss h f vs us ws e e' e''} : Runs (.list ss) vs e →
      Runs (.handler h e) us e' → Runs (.finalizer f e') ws e'' →
        Runs (.stmt ls (.tryCatch span (.mk sp ss) h f)) (vs ++ us ++ ws) e''
  | debugger {ls span} : Runs (.stmt ls (.debugger span)) [] .normal
  | nil : Runs (.list []) [] .normal
  | next {s ss vs us e} : Runs (.stmt [] s) vs .normal → Runs (.list ss) us e →
      Runs (.list (s :: ss)) (vs ++ us) e
  | stop {s ss vs e} : Runs (.stmt [] s) vs e → e ≠ .normal → Runs (.list (s :: ss)) vs e
  | leaves {ls b e} : e.OfValue → Runs (.loop ls b) [] e
  | goes {ls b vs e} : Runs (.round ls b) vs e → Runs (.loop ls b) vs e
  | again {ls b vs us e e'} : Runs (.stmt [] b) vs e → e.goesOn ls = true →
      Runs (.loop ls b) us e' → Runs (.round ls b) (vs ++ us) e'
  | ends {ls b vs e} : Runs (.stmt [] b) vs e → e.goesOn ls = false →
      Runs (.round ls b) vs e.endBreak
  | bottom : Runs (.clauses []) [] .normal
  | falls {span t ss cs vs us e} : Runs (.list ss) vs .normal → Runs (.clauses cs) us e →
      Runs (.clauses (.mk span t ss :: cs)) (vs ++ us) e
  | jumps {span t ss cs vs e} : Runs (.list ss) vs e → e ≠ .normal →
      Runs (.clauses (.mk span t ss :: cs)) vs e
  | passed {h e} : e ≠ .thrown ∨ h = .none → Runs (.handler h e) [] e
  | caught {span n sp ss vs e} : Runs (.list ss) vs e →
      Runs (.handler (.catching span n (.mk sp ss)) .thrown) vs e
  | unfinalized {e} : Runs (.finalizer none e) [] e
  | finalized {sp ss vs e} : Runs (.list ss) vs .normal → Runs (.finalizer (some (.mk sp ss)) e) vs e
  | overridden {sp ss vs e e'} : Runs (.list ss) vs e' → e' ≠ .normal →
      Runs (.finalizer (some (.mk sp ss)) e) vs e'

/-! ### What the analysis allows -/

/-- The ending is among those that an analysis allows which says whether control may flow past, leave
by a `break` without a label, and leave by one with a label. -/
def Ending.Allowed (completes breaks jumps : Bool) : Ending → Prop
  | .normal => completes = true
  | .broken none => breaks = true
  | .broken (some _) => jumps = true
  | _ => True

/-- The ending is one that the analysis of the code allows. -/
def Code.Allows : Code → Ending → Prop
  | .stmt _ s, e => e.Allowed s.canComplete s.breaksOut s.jumpsToLabel
  | .list ss, e => e.Allowed (allComplete ss) (anyBreaksOut ss) (anyJumpsToLabel ss)
  | .loop _ b, e => e.Allowed true false b.jumpsToLabel
  | .round _ b, e => e.Allowed true false b.jumpsToLabel
  | .clauses cs, e => e.Allowed (lastCompletes cs) (anyClauseBreaksOut cs) (anyClauseJumpsToLabel cs)
  | .handler h before, e => e = before ∨ e.Allowed h.canComplete h.breaksOut h.jumpsToLabel
  | .finalizer f before, e =>
    (e = before ∧ finalizerCompletes f = true) ∨
      e.Allowed false (optBlockBreaksOut f) (optBlockJumpsToLabel f)

section Allowed

variable {e : Ending} {c b j c' b' j' : Bool}

theorem Ending.OfValue.allowed (h : e.OfValue) : e.Allowed true b j := by
  rcases h with rfl | rfl
  · rfl
  · trivial

/-- What an analysis allows, one that says more allows too. -/
theorem Ending.Allowed.mono (h : e.Allowed c b j) (hc : c = true → c' = true)
    (hb : b = true → b' = true) (hj : j = true → j' = true) : e.Allowed c' b' j' := by
  rcases e with _ | _ | _ | label | label
  · exact hc h
  · trivial
  · trivial
  · cases label with
    | none => exact hb h
    | some l => exact hj h
  · trivial

/-- After a `break` without a label is used up, control may flow past. -/
theorem Ending.Allowed.endBreak (h : e.Allowed c b j) :
    e.endBreak.Allowed (c || b) false j := by
  rcases e with _ | _ | _ | label | label
  · exact Bool.or_eq_true_iff.mpr (.inl h)
  · trivial
  · trivial
  · cases label with
    | none => exact Bool.or_eq_true_iff.mpr (.inr h)
    | some l => exact h
  · trivial

theorem Ending.Allowed.endLabel (h : e.Allowed c b j) (label : String) :
    (e.endLabel label).Allowed (c || j) b j := by
  rcases e with _ | _ | _ | l | l
  · exact Bool.or_eq_true_iff.mpr (.inl h)
  · trivial
  · trivial
  · cases l with
    | none => exact h
    | some l =>
      by_cases hl : l = label
      · rw [Ending.endLabel, if_pos hl]
        exact Bool.or_eq_true_iff.mpr (.inr h)
      · rw [Ending.endLabel, if_neg hl]
        exact h
  · trivial

/-- Whether control may flow past does not matter to an ending by a jump. -/
theorem Ending.Allowed.abrupt (h : e.Allowed c b j) (hne : e ≠ .normal) : e.Allowed false b j := by
  rcases e with _ | _ | _ | label | label
  · exact absurd rfl hne
  · trivial
  · trivial
  · cases label <;> exact h
  · trivial

end Allowed

theorem lastCompletes_append (before : List Clause) (c : Clause) (after : List Clause) :
    lastCompletes (before ++ c :: after) = lastCompletes (c :: after) := by
  induction before with
  | nil => rfl
  | cons b before ih =>
    cases before with
    | nil => rw [List.cons_append, List.nil_append, lastCompletes]
    | cons d before =>
      rw [List.cons_append, List.cons_append, lastCompletes, ← List.cons_append, ih]

theorem anyClauseBreaksOut_append (before after : List Clause) :
    anyClauseBreaksOut (before ++ after) =
      (anyClauseBreaksOut before || anyClauseBreaksOut after) := by
  induction before with
  | nil => rfl
  | cons b before ih =>
    obtain ⟨span, test, body⟩ := b
    rw [List.cons_append, anyClauseBreaksOut, anyClauseBreaksOut, ih, Bool.or_assoc]

theorem anyClauseJumpsToLabel_append (before after : List Clause) :
    anyClauseJumpsToLabel (before ++ after) =
      (anyClauseJumpsToLabel before || anyClauseJumpsToLabel after) := by
  induction before with
  | nil => rfl
  | cons b before ih =>
    obtain ⟨span, test, body⟩ := b
    rw [List.cons_append, anyClauseJumpsToLabel, anyClauseJumpsToLabel, ih, Bool.or_assoc]

/-- **Runs end as the analysis allows.** Control flows past code only if the analysis says that it
can, and leaves it by a jump only if there is one. -/
theorem Runs.allowed {code : Code} {vs : List Visit} {e : Ending} (h : Runs code vs e) :
    code.Allows e := by
  induction h with
  | declaration he => exact he.allowed
  | function => rfl
  | block _ ih => exact ih
  | empty => rfl
  | expression he => exact he.allowed
  | ifThrows => trivial
  | ifYes _ ih =>
    refine Ending.Allowed.mono ih ?_ ?_ ?_ <;>
      simp +contextual [Stmt.canComplete, Stmt.breaksOut, Stmt.jumpsToLabel]
  | ifNo _ ih =>
    refine Ending.Allowed.mono ih ?_ ?_ ?_ <;>
      simp +contextual [Stmt.canComplete, Stmt.breaksOut, Stmt.jumpsToLabel, optCanComplete,
        optBreaksOut, optJumpsToLabel]
  | ifNone => rfl
  | doWhile _ ih => exact ih
  | whileDo _ ih => exact ih
  | forLoop _ ih => exact ih
  | forIn _ ih => exact ih
  | continueTo => trivial
  | @breakTo ls span l => cases l <;> rfl
  | returnBare => trivial
  | returnValue he =>
    rcases he with rfl | rfl
    · trivial
    · trivial
  | switchThrows => trivial
  | switchNone hdefault =>
    show (!hasDefault _ || _ || _) = true
    rw [hdefault]
    rfl
  | switchInto _ ih =>
    refine Ending.Allowed.mono (Ending.Allowed.endBreak ih) ?_ ?_ ?_
    · intro hends
      show (!hasDefault _ || lastCompletes _ || anyClauseBreaksOut _) = true
      rw [lastCompletes_append, anyClauseBreaksOut_append]
      rcases Bool.or_eq_true_iff.mp hends with hlast | hbreaks
      · simp [hlast]
      · simp [hbreaks]
    · exact id
    · intro hjumps
      show anyClauseJumpsToLabel _ = true
      rw [anyClauseJumpsToLabel_append, hjumps, Bool.or_true]
  | labeled _ ih => exact Ending.Allowed.endLabel ih _
  | throwing => trivial
  | @tryCatch ls span sp ss h f vs us ws e e' e'' _ _ _ ihbody ihhandler ihfinal =>
    -- How the whole ends is how one of its three parts did.
    have hbody : e.Allowed (Block.canComplete (.mk sp ss)) (Block.breaksOut (.mk sp ss))
        (Block.jumpsToLabel (.mk sp ss)) := ihbody
    rcases ihfinal with ⟨rfl, hfinal⟩ | hfinal
    · rcases ihhandler with rfl | hhandler
      · refine hbody.mono ?_ ?_ ?_ <;>
          simp +contextual [Stmt.canComplete, Stmt.breaksOut, Stmt.jumpsToLabel, hfinal]
      · refine hhandler.mono ?_ ?_ ?_ <;>
          simp +contextual [Stmt.canComplete, Stmt.breaksOut, Stmt.jumpsToLabel, hfinal]
    · refine hfinal.mono ?_ ?_ ?_ <;>
        simp +contextual [Stmt.breaksOut, Stmt.jumpsToLabel]
  | debugger => rfl
  | nil => rfl
  | next _ _ ihfirst ihrest =>
    have hfirst : Stmt.canComplete _ = true := ihfirst
    refine Ending.Allowed.mono ihrest ?_ ?_ ?_ <;>
      simp +contextual [allComplete, anyBreaksOut, anyJumpsToLabel, hfirst]
  | stop _ hne ih =>
    refine Ending.Allowed.mono (Ending.Allowed.abrupt ih hne) ?_ ?_ ?_ <;>
      simp +contextual [anyBreaksOut, anyJumpsToLabel]
  | leaves he => exact he.allowed
  | goes _ ih => exact ih
  | again _ _ _ _ ih => exact ih
  | ends _ _ ih =>
    refine Ending.Allowed.mono (Ending.Allowed.endBreak ih) ?_ id id
    exact fun _ => rfl
  | bottom => rfl
  | @falls span t ss cs vs us e _ _ ihfirst ihrest =>
    have hfirst : allComplete ss = true := ihfirst
    refine Ending.Allowed.mono ihrest ?_ ?_ ?_
    · cases cs with
      | nil => exact fun _ => hfirst
      | cons c cs => exact id
    · simp +contextual [anyClauseBreaksOut]
    · simp +contextual [anyClauseJumpsToLabel]
  | jumps _ hne ih =>
    refine Ending.Allowed.mono (Ending.Allowed.abrupt ih hne) ?_ ?_ ?_ <;>
      simp +contextual [anyClauseBreaksOut, anyClauseJumpsToLabel]
  | passed _ => exact .inl rfl
  | caught _ ih => exact .inr ih
  | unfinalized => exact .inl ⟨rfl, rfl⟩
  | finalized _ ih => exact .inl ⟨rfl, ih⟩
  | overridden _ hne ih => exact .inr (Ending.Allowed.abrupt ih hne)

/-! ### Returns that control comes to -/

mutual

/-- The `return` statements of a statement, without those of functions inside it. -/
def Stmt.ownReturns : Stmt → List Visit
  | .block b => b.ownReturns
  | .ifElse _ _ y n => y.ownReturns ++ ownReturnsOfStmt? n
  | .doWhile _ b _ => b.ownReturns
  | .whileDo _ _ b => b.ownReturns
  | .forLoop _ _ _ _ b => b.ownReturns
  | .forIn _ _ _ b => b.ownReturns
  | .returnWith span v => [⟨span.pos, v.isNone⟩]
  | .switchOn _ _ cs => ownReturnsOfClauses cs
  | .labeled _ _ b => b.ownReturns
  | .tryCatch _ b h f => b.ownReturns ++ h.ownReturns ++ ownReturnsOfBlock? f
  | _ => []
termination_by structural t => t

/-- The `return` statements of statements. -/
def ownReturnsOfStmts : List Stmt → List Visit
  | [] => []
  | s :: ss => s.ownReturns ++ ownReturnsOfStmts ss
termination_by structural t => t

/-- The `return` statements of a statement, if there is one. -/
def ownReturnsOfStmt? : Option Stmt → List Visit
  | none => []
  | some s => s.ownReturns
termination_by structural t => t

/-- The `return` statements of a block. -/
def Block.ownReturns : Block → List Visit
  | .mk _ ss => ownReturnsOfStmts ss
termination_by structural t => t

/-- The `return` statements of a block, if there is one. -/
def ownReturnsOfBlock? : Option Block → List Visit
  | none => []
  | some b => b.ownReturns
termination_by structural t => t

/-- The `return` statements of clauses. -/
def ownReturnsOfClauses : List Clause → List Visit
  | [] => []
  | .mk _ _ ss :: cs => ownReturnsOfStmts ss ++ ownReturnsOfClauses cs
termination_by structural t => t

/-- The `return` statements of a handler. -/
def Handler.ownReturns : Handler → List Visit
  | .none => []
  | .catching _ _ b => b.ownReturns
termination_by structural t => t

end

/-- The `return` statements of code. -/
def Code.ownReturns : Code → List Visit
  | .stmt _ s => s.ownReturns
  | .list ss => ownReturnsOfStmts ss
  | .loop _ b => b.ownReturns
  | .round _ b => b.ownReturns
  | .clauses cs => ownReturnsOfClauses cs
  | .handler h _ => h.ownReturns
  | .finalizer f _ => ownReturnsOfBlock? f

/-- What is found in code that control can get to. -/
def Code.findings (lines : LineMap) : Code → Findings
  | .stmt _ s => s.findings lines false
  | .list ss => findingsOfStmts lines false ss
  | .loop _ b => b.findings lines false
  | .round _ b => b.findings lines false
  | .clauses cs => findingsOfClauses lines false cs
  | .handler h _ => h.findings lines false
  | .finalizer f _ => findingsOfBlock? lines false f

@[simp]
theorem returns_append (f g : Findings) : (f ++ g).returns = f.returns ++ g.returns := rfl

theorem ownReturnsOfClauses_append (before after : List Clause) :
    ownReturnsOfClauses (before ++ after) =
      ownReturnsOfClauses before ++ ownReturnsOfClauses after := by
  induction before with
  | nil => rfl
  | cons b before ih =>
    obtain ⟨span, test, body⟩ := b
    rw [List.cons_append, ownReturnsOfClauses, ownReturnsOfClauses, ih, List.append_assoc]

theorem findingsOfClauses_returns_append (lines : LineMap) (dead : Bool)
    (before after : List Clause) : (findingsOfClauses lines dead (before ++ after)).returns =
      (findingsOfClauses lines dead before).returns ++
        (findingsOfClauses lines dead after).returns := by
  induction before with
  | nil => rfl
  | cons b before ih =>
    obtain ⟨span, test, body⟩ := b
    simp only [List.cons_append, findingsOfClauses, returns_append, ih, List.append_assoc]

/-- The site of a `return` statement that control can get to. -/
def Visit.site (lines : LineMap) (v : Visit) : ReturnSite := ⟨v.pos, lines.lineNumber v.pos, true⟩

/-- **Control only comes to returns that are found to be reachable.** -/
theorem Runs.visits (lines : LineMap) {code : Code} {vs : List Visit} {e : Ending}
    (h : Runs code vs e) :
    ∀ v ∈ vs, v ∈ code.ownReturns ∧ v.site lines ∈ (code.findings lines).returns := by
  induction h with
  | returnBare =>
    intro v hv
    obtain rfl := List.mem_singleton.mp hv
    exact ⟨List.mem_singleton_self _, List.mem_append_left _ (List.mem_singleton_self _)⟩
  | returnValue =>
    intro v hv
    obtain rfl := List.mem_singleton.mp hv
    exact ⟨List.mem_singleton_self _, List.mem_append_left _ (List.mem_singleton_self _)⟩
  | block _ ih => exact ih
  | ifYes _ ih =>
    intro v hv
    obtain ⟨hown, hfound⟩ := ih v hv
    exact ⟨List.mem_append_left _ hown, List.mem_append_left _ (List.mem_append_right _ hfound)⟩
  | ifNo _ ih =>
    intro v hv
    obtain ⟨hown, hfound⟩ := ih v hv
    exact ⟨List.mem_append_right _ hown, List.mem_append_right _ hfound⟩
  | doWhile _ ih =>
    intro v hv
    obtain ⟨hown, hfound⟩ := ih v hv
    exact ⟨hown, List.mem_append_left _ hfound⟩
  | whileDo _ ih =>
    intro v hv
    obtain ⟨hown, hfound⟩ := ih v hv
    exact ⟨hown, List.mem_append_right _ hfound⟩
  | forLoop _ ih =>
    intro v hv
    obtain ⟨hown, hfound⟩ := ih v hv
    exact ⟨hown, List.mem_append_right _ hfound⟩
  | forIn _ ih =>
    intro v hv
    obtain ⟨hown, hfound⟩ := ih v hv
    exact ⟨hown, List.mem_append_right _ hfound⟩
  | switchInto _ ih =>
    intro v hv
    obtain ⟨hown, hfound⟩ := ih v hv
    constructor
    · show v ∈ ownReturnsOfClauses _
      rw [ownReturnsOfClauses_append]
      exact List.mem_append_right _ hown
    · show _ ∈ (_ ++ findingsOfClauses lines false _).returns
      rw [returns_append, findingsOfClauses_returns_append]
      exact List.mem_append_right _ (List.mem_append_right _ hfound)
  | labeled _ ih => exact ih
  | tryCatch _ _ _ ihbody ihhandler ihfinal =>
    intro v hv
    rcases List.mem_append.mp hv with hv | hv
    · rcases List.mem_append.mp hv with hv | hv
      · obtain ⟨hown, hfound⟩ := ihbody v hv
        exact ⟨List.mem_append_left _ (List.mem_append_left _ hown),
          List.mem_append_left _ (List.mem_append_left _ hfound)⟩
      · obtain ⟨hown, hfound⟩ := ihhandler v hv
        exact ⟨List.mem_append_left _ (List.mem_append_right _ hown),
          List.mem_append_left _ (List.mem_append_right _ hfound)⟩
    · obtain ⟨hown, hfound⟩ := ihfinal v hv
      exact ⟨List.mem_append_right _ hown, List.mem_append_right _ hfound⟩
  | @next s ss vs us e hfirst _ ihfirst ihrest =>
    -- The rest is found alive because the first statement can complete.
    have hcompletes : s.canComplete = true := hfirst.allowed
    intro v hv
    have hdead : findingsOfStmts lines false (s :: ss) =
        s.findings lines false ++ findingsOfStmts lines false ss := by
      rw [findingsOfStmts, hcompletes]
      rfl
    rcases List.mem_append.mp hv with hv | hv
    · obtain ⟨hown, hfound⟩ := ihfirst v hv
      refine ⟨List.mem_append_left _ hown, ?_⟩
      show _ ∈ (findingsOfStmts lines false (s :: ss)).returns
      rw [hdead]
      exact List.mem_append_left _ hfound
    · obtain ⟨hown, hfound⟩ := ihrest v hv
      refine ⟨List.mem_append_right _ hown, ?_⟩
      show _ ∈ (findingsOfStmts lines false (s :: ss)).returns
      rw [hdead]
      exact List.mem_append_right _ hfound
  | stop _ _ ih =>
    intro v hv
    obtain ⟨hown, hfound⟩ := ih v hv
    exact ⟨List.mem_append_left _ hown, List.mem_append_left _ hfound⟩
  | goes _ ih => exact ih
  | again _ _ _ ihround ihrest =>
    intro v hv
    rcases List.mem_append.mp hv with hv | hv
    · exact ihround v hv
    · exact ihrest v hv
  | ends _ _ ih => exact ih
  | falls _ _ ihfirst ihrest =>
    intro v hv
    rcases List.mem_append.mp hv with hv | hv
    · obtain ⟨hown, hfound⟩ := ihfirst v hv
      exact ⟨List.mem_append_left _ hown, List.mem_append_left _ (List.mem_append_right _ hfound)⟩
    · obtain ⟨hown, hfound⟩ := ihrest v hv
      exact ⟨List.mem_append_right _ hown, List.mem_append_right _ hfound⟩
  | jumps _ _ ih =>
    intro v hv
    obtain ⟨hown, hfound⟩ := ih v hv
    exact ⟨List.mem_append_left _ hown, List.mem_append_left _ (List.mem_append_right _ hfound)⟩
  | caught _ ih => exact ih
  | finalized _ ih => exact ih
  | overridden _ _ ih => exact ih
  | _ => exact fun v hv => absurd hv List.not_mem_nil

end Script
end Countersign
