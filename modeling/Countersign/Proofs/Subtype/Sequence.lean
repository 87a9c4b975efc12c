/-
# Comparisons one after the other

A comparison may assume pairs while it lasts, and gives all of them up before it ends, whether the
types fit or not and wherever the parts that do not fit are found. So of several comparisons that
are carried out one after the other, each starts from the assumptions that the first one started
from, and comes to what it would have come to alone.

What a comparison comes to, mismatch included, does not depend on how deep comparisons may nest, as
long as they may nest deep enough for it to come to anything.

Key definitions: `Comparison.Settles`, `Returns`, `Sequence`.
Key theorems: `check_given`, `check_deeper`, `sequence_iff`, `assumptions_given_up`.
-/
import Countersign.Proofs.Subtype.Rules

namespace Countersign

/-! ### Deeper comparisons -/

namespace Comparison

/-- Wherever the first comparison comes to a verdict, the second comes to the same. -/
def Settles (c c' : Comparison) : Prop := ∀ given, (c given).1 ≠ .undecided → c' given = c given

theorem Settles.refl (c : Comparison) : Settles c c := fun _ _ => rfl

variable {c c' d d' : Comparison}

theorem Settles.ite (b : Bool) (h : Settles c c') (h' : Settles d d') :
    Settles (if b then c else d) (if b then c' else d') := by
  cases b with
  | true => exact h
  | false => exact h'

theorem Settles.mapMismatch (h : Settles c c') (f : Mismatch → Mismatch) :
    Settles (c.mapMismatch f) (c'.mapMismatch f) := by
  intro given hv
  have hdecided : (c given).1 ≠ .undecided := by
    intro hnone
    apply hv
    show (c given).1.mapMismatch f = .undecided
    rw [hnone]
    rfl
  show ((c' given).1.mapMismatch f, (c' given).2) = ((c given).1.mapMismatch f, (c given).2)
  rw [h given hdecided]

theorem Settles.all {cs cs' : List Comparison} (h : List.Forall₂ Settles cs cs') :
    Settles (Comparison.all cs) (Comparison.all cs') := by
  induction h with
  | nil => exact .refl _
  | @cons c c' cs cs' hc _ ih =>
    intro given hv
    have hfirst := hc given
    unfold Comparison.all at hv ⊢
    rcases hcase : c given with ⟨v, after⟩
    rw [hcase] at hv hfirst
    -- Only after types that fit are the other comparisons carried out.
    cases v with
    | fits =>
      rw [hfirst (by simp)]
      exact ih after hv
    | differs m => rw [hfirst (by simp)]
    | undecided => exact absurd rfl hv

theorem Settles.any (m : Mismatch) {cs cs' : List Comparison} (h : List.Forall₂ Settles cs cs') :
    Settles (Comparison.any m cs) (Comparison.any m cs') := by
  induction h with
  | nil => exact .refl _
  | @cons c c' cs cs' hc _ ih =>
    intro given hv
    have hfirst := hc given
    unfold Comparison.any at hv ⊢
    rcases hcase : c given with ⟨v, after⟩
    rw [hcase] at hv hfirst
    cases v with
    | fits => rw [hfirst (by simp)]
    | differs m' =>
      rw [hfirst (by simp)]
      exact ih after hv
    | undecided => exact absurd rfl hv

theorem Settles.assuming (h : Settles c c') (key : String × String) :
    Settles (c.assuming key) (c'.assuming key) := by
  intro given hv
  unfold Comparison.assuming at hv ⊢
  split
  · rfl
  · rename_i hnew
    rw [if_neg hnew] at hv
    rw [h (key :: given) hv]

end Comparison

namespace Subtype

open Comparison

/-- Wherever the first way to compare parts comes to a verdict, the second comes to the same. -/
def Deeper (sub sub' : Ty → Ty → Comparison) : Prop := ∀ a e, Settles (sub a e) (sub' a e)

namespace Deeper

variable {sub sub' : Ty → Ty → Comparison}

theorem pairwise (h : Deeper sub sub') (segment : ℕ → String) : ∀ i ts us,
    List.Forall₂ Settles (Subtype.pairwise sub segment i ts us)
      (Subtype.pairwise sub' segment i ts us)
  | i, t :: ts, u :: us => .cons ((h t u).mapMismatch _) (pairwise h segment (i + 1) ts us)
  | _, [], _ => .nil
  | _, _ :: _, [] => .nil

theorem fields (h : Deeper sub sub') (m : Mismatch) (fs : List (String × Ty)) : ∀ gs,
    List.Forall₂ Settles (compareFields sub m fs gs) (compareFields sub' m fs gs)
  | [] => .nil
  | (name, expected) :: gs => by
    refine .cons ?_ (fields h m fs gs)
    cases fs.lookup name with
    | none => exact .refl _
    | some t => exact (h t expected).mapMismatch _

theorem params (h : Deeper sub sub') : ∀ i ps qs,
    List.Forall₂ Settles (compareParams sub i ps qs) (compareParams sub' i ps qs)
  | i, (_, a) :: ps, (_, e) :: qs => .cons ((h e a).mapMismatch _) (params h (i + 1) ps qs)
  | _, [], _ => .nil
  | _, _ :: _, [] => .nil

theorem receivers (h : Deeper sub sub') (t u : Option Ty) :
    List.Forall₂ Settles (compareReceivers sub t u) (compareReceivers sub' t u) := by
  rcases t with _ | a
  · exact .nil
  · rcases u with _ | e
    · exact .nil
    · exact .cons ((h e a).mapMismatch _) .nil

theorem results (h : Deeper sub sub') (r s : Ty) :
    List.Forall₂ Settles (compareResults sub r s) (compareResults sub' r s) := by
  unfold compareResults
  split
  · exact .nil
  · exact .cons ((h r s).mapMismatch _) .nil

theorem functions (h : Deeper sub sub') (m : Mismatch) (f g : FunctionTy) :
    Settles (compareFunctions sub m f g) (compareFunctions sub' m f g) := by
  have hparts := List.rel_append (List.rel_append (h.receivers f.receiver g.receiver)
    (h.params 0 f.params g.params)) (h.results f.result g.result)
  exact .ite _ (.all hparts) (.refl _)

theorem nodes (h : Deeper sub sub') (a e : Ty) :
    Settles (compareStructure sub a e) (compareStructure sub' a e) := by
  unfold compareStructure
  dsimp only
  split
  case h_1 fs gs => exact .all (h.fields _ fs gs)
  case h_2 ps r t qs s u => exact (h.functions _ _ _).mapMismatch _
  case h_3 b as c bs => exact .ite _ (.all (h.pairwise _ 0 as bs)) (.refl _)
  case h_4 ts us => exact .ite _ (.all (h.pairwise _ 0 ts us)) (.refl _)
  case h_5 ts b args =>
    split
    · exact .all (h.pairwise _ 0 ts _)
    · exact .refl _
  case h_6 => exact .refl _
  case h_7 => exact .refl _
  case h_8 => exact .refl _

theorem resolved (h : Deeper sub sub') (env : Env) (a e : Ty) :
    Settles (compareResolved env sub a e) (compareResolved env sub' a e) :=
  .ite _ (h.nodes a e) (((h _ _).assuming _).mapMismatch _)

theorem members (h : Deeper sub sub') (f : Ty → Ty × Ty) (ms : List Ty) :
    List.Forall₂ Settles (ms.map fun m => sub (f m).1 (f m).2)
      (ms.map fun m => sub' (f m).1 (f m).2) := by
  induction ms with
  | nil => exact .nil
  | cons m ms ih => exact .cons (h _ _) ih

/-- A step does not depend on how deep its parts are compared, if they are decided. -/
theorem step (h : Deeper sub sub') (env : Env) (a e : Ty) :
    Settles (compareStep env sub a e) (compareStep env sub' a e) := by
  have hresolved := h.resolved env a e
  unfold compareStep
  refine .ite _ (.refl _) ?_
  -- Whatever the constructors are, the arm asks for parts in one of these ways.
  cases a <;> cases e <;> first
    | exact hresolved
    | exact h _ _
    | exact (h _ _).mapMismatch _
    | exact (Settles.all (h.members (·, _) _)).mapMismatch _
    | exact Settles.any _ (h.members (_, ·) _)
    | exact Settles.all (h.members (_, ·) _)
    | exact Settles.any _ (h.members (·, _) _)
    | exact .ite _ (.refl _) ((h _ _).mapMismatch _)
    | exact .ite _ (.refl _) (.refl _)
    | exact .ite _ (.refl _) hresolved

end Deeper

/-- **A verdict that is reached at some depth is reached at every greater one**, with the same
mismatch. -/
theorem check_deeper (env : Env) {depth depth' : ℕ} (hdepth : depth ≤ depth') :
    Deeper (check env depth) (check env depth') := by
  induction depth generalizing depth' with
  | zero => exact fun a e given hv => absurd rfl hv
  | succ depth ih =>
    obtain ⟨depth', rfl⟩ := Nat.exists_eq_succ_of_ne_zero (by omega : depth' ≠ 0)
    exact fun a e => (ih (by omega)).step env a e

/-- **A comparison gives back the assumptions it was given.** -/
theorem check_given (env : Env) (depth : ℕ) (a e : Ty) (given : Assumed) :
    (check env depth a e given).2 = given :=
  (check_answers env depth a e given).2

/-! ### Sequences of comparisons -/

/-- Under `given` the comparison of the types ends with the verdict `v`, and leaves the assumptions
`after`. -/
def Returns (env : Env) (given : Assumed) (a e : Ty) (v : Verdict) (after : Assumed) : Prop :=
  v ≠ .undecided ∧ ∃ depth, check env depth a e given = (v, after)

/-- A comparison of two types, and what it came to. -/
structure Call where
  actual : Ty
  expected : Ty
  verdict : Verdict

/-- The comparisons end one after the other, each under the assumptions that the one before left. -/
inductive Sequence (env : Env) : Assumed → List Call → Assumed → Prop
  | nil (given : Assumed) : Sequence env given [] given
  | cons {given between after : Assumed} {call : Call} {calls : List Call} :
      Returns env given call.actual call.expected call.verdict between →
      Sequence env between calls after → Sequence env given (call :: calls) after

section

variable {env : Env} {given after after' : Assumed} {a e : Ty} {v v' : Verdict} {calls : List Call}

theorem Returns.after_eq (h : Returns env given a e v after) : after = given := by
  obtain ⟨-, depth, hcheck⟩ := h
  have hgiven := check_given env depth a e given
  rwa [hcheck] at hgiven

/-- A comparison ends in one way. -/
theorem Returns.unique (h : Returns env given a e v after) (h' : Returns env given a e v' after') :
    v = v' := by
  obtain ⟨hv, depth, hcheck⟩ := h
  obtain ⟨hv', depth', hcheck'⟩ := h'
  have hmax := check_deeper env (le_max_left depth depth') a e given (by rwa [hcheck])
  have hmax' := check_deeper env (le_max_right depth depth') a e given (by rwa [hcheck'])
  have hsame : (v, after) = (v', after') := by rw [← hcheck, ← hcheck', ← hmax, ← hmax']
  exact congrArg Prod.fst hsame

/-- **Comparisons one after the other are comparisons each on its own**, under the assumptions that
the first one was given. -/
theorem sequence_iff : Sequence env given calls after ↔
    after = given ∧ ∀ c ∈ calls, Returns env given c.actual c.expected c.verdict given := by
  constructor
  · intro h
    induction h with
    | nil given => exact ⟨rfl, nofun⟩
    | @cons given between after call calls hcall _ ih =>
      obtain rfl := hcall.after_eq
      exact ⟨ih.1, List.forall_mem_cons.mpr ⟨hcall, ih.2⟩⟩
  · rintro ⟨rfl, h⟩
    induction calls with
    | nil => exact .nil after
    | cons call calls ih =>
      obtain ⟨hcall, hcalls⟩ := List.forall_mem_cons.mp h
      exact .cons hcall (ih hcalls)

end

/-- **No comparison leaves an assumption behind.** Whatever is assumed, a comparison that ends leaves
just that. So comparisons that are carried out one after the other, from no assumptions on, leave
none, and each comes to the verdict, mismatch included, to which it comes on its own; there is only
one that it can come to. -/
theorem assumptions_given_up (env : Env) :
    (∀ given a e v after, Returns env given a e v after → after = given) ∧
    (∀ calls after, Sequence env [] calls after ↔
      after = [] ∧ ∀ c ∈ calls, Returns env [] c.actual c.expected c.verdict []) ∧
    (∀ given a e v v' after after', Returns env given a e v after → Returns env given a e v' after' →
      v = v') :=
  ⟨fun _ _ _ _ _ h => h.after_eq, fun _ _ => sequence_iff, fun _ _ _ _ _ _ _ h h' => h.unique h'⟩

/-- `Point` and `Label` name objects whose field `x` is not of the same class. -/
def pointEnv : Env :=
  { Env.initial with
    aliases :=
      [("Point", ⟨[], .object [("x", .ofName "Number")]⟩),
        ("Label", ⟨[], .object [("x", .ofName "String")]⟩)] }

/-- A pair that was found not to fit is found so again. -/
theorem assumptions_given_up_again :
    Sequence pointEnv []
      [⟨.ofName "Point", .ofName "Label", .differs ⟨"Label", "Point", ["x"]⟩⟩,
        ⟨.ofName "Point", .ofName "Label", .differs ⟨"Label", "Point", ["x"]⟩⟩] [] := by
  have hends : Returns pointEnv [] (.ofName "Point") (.ofName "Label")
      (.differs ⟨"Label", "Point", ["x"]⟩) [] := ⟨nofun, 3, rfl⟩
  refine ((assumptions_given_up pointEnv).2.1 _ _).mpr ⟨rfl, fun c hc => ?_⟩
  rw [List.mem_cons, List.mem_singleton, or_self] at hc
  rw [hc]
  exact hends

end Subtype
end Countersign
