/-
# Actions and what they do to sessions

A walk is put together of actions on the session. What one action does, and what two actions have in
common, follows from what their parts do, whatever it is that is said of the sessions.

An action leads a session on, through a part of a program, to another one; what is said of the two
is said of a list, of what there is in that part. Two actions keep step if they give related results
in related sessions and leave the sessions related.

Key definitions: `Passage`, `Leads`, `InStep`.
Key theorems: `Leads.seq`, `InStep.bind`, `InStep.next`, `InStep.look`, `InStep.reportIf`.
-/
import Countersign.Verify.Session

namespace Countersign
namespace Verify

/-! ### One action -/

/-- What can be said of sessions before and after parts of a program: it holds of nothing where
there is no change, and of two parts together where it holds of one after the other. -/
class Passage {ι : Type} (P : List ι → Session → Session → Prop) : Prop where
  refl (s : Session) : P [] s s
  trans {xs ys : List ι} {s s' s'' : Session} : P xs s s' → P ys s' s'' → P (xs ++ ys) s s''

/-- Wherever the action is carried out, it leads the session on as `P` says of `xs`. -/
def Leads {ι α : Type} (P : List ι → Session → Session → Prop) (m : Checking α) (xs : List ι) :
    Prop := ∀ s : Session, P xs s (m.run s).2

namespace Leads

variable {ι α β : Type} {P : List ι → Session → Session → Prop} {xs ys : List ι}

theorem seq [Passage P] {m : Checking α} {f : α → Checking β} (hm : Leads P m xs)
    (hf : ∀ a, Leads P (f a) ys) : Leads P (m >>= f) (xs ++ ys) :=
  fun s => Passage.trans (hm s) (hf _ _)

/-- A part of which there is nothing to be said, then another. -/
theorem bind [Passage P] {m : Checking α} {f : α → Checking β} (hm : Leads P m [])
    (hf : ∀ a, Leads P (f a) xs) : Leads P (m >>= f) xs := hm.seq hf

/-- A part, then another of which there is nothing to be said. -/
theorem last [Passage P] {m : Checking α} {f : α → Checking β} (hm : Leads P m xs)
    (hf : ∀ a, Leads P (f a) []) : Leads P (m >>= f) xs := by
  have h := hm.seq hf
  rwa [List.append_nil] at h

theorem pure [Passage P] (a : α) : Leads P (Pure.pure a : Checking α) [] := Passage.refl

theorem look {f : Session → Checking α} (h : ∀ s, Leads P (f s) xs) : Leads P (get >>= f) xs :=
  fun s => h s s

theorem discard {m : Checking α} (h : Leads P m xs) : Leads P (Functor.discard m) xs := h

theorem map {m : Checking α} {f : α → β} (h : Leads P m xs) : Leads P (f <$> m) xs := h

theorem ite {c : Prop} [Decidable c] {m n : Checking α} (hm : Leads P m xs)
    (hn : Leads P n xs) : Leads P (if c then m else n) xs := by
  split
  · exact hm
  · exact hn

end Leads

/-! ### Two actions -/

/-- From sessions that `W` relates, the actions give results that `R` relates, and they leave
sessions that `W` relates. -/
def InStep {α : Type} (W : Session → Session → Prop) (R : α → α → Prop) (m m' : Checking α) :
    Prop :=
  ∀ s s' : Session, W s s' → R (m.run s).1 (m'.run s').1 ∧ W (m.run s).2 (m'.run s').2

namespace InStep

variable {α β : Type} {W : Session → Session → Prop} {R : α → α → Prop} {S : β → β → Prop}

theorem pure {a a' : α} (h : R a a') : InStep W R (Pure.pure a : Checking α) (Pure.pure a') :=
  fun _ _ hs => ⟨h, hs⟩

theorem bind {m m' : Checking α} {f f' : α → Checking β} (hm : InStep W R m m')
    (hf : ∀ a a', R a a' → InStep W S (f a) (f' a')) : InStep W S (m >>= f) (m' >>= f') := by
  intro s s' hs
  obtain ⟨hvalue, hafter⟩ := hm s s' hs
  exact hf _ _ hvalue _ _ hafter

/-- What follows a result that is the same in both. -/
theorem next {m m' : Checking α} {f f' : α → Checking β} (hm : InStep W Eq m m')
    (hf : ∀ a, InStep W S (f a) (f' a)) : InStep W S (m >>= f) (m' >>= f') :=
  hm.bind fun a _ ha => ha ▸ hf a

/-- One action after another that has no result. -/
theorem seq {m m' : Checking Unit} {f f' : PUnit → Checking β} (hm : InStep W Eq m m')
    (hf : InStep W S (f ⟨⟩) (f' ⟨⟩)) : InStep W S (m >>= f) (m' >>= f') := hm.next fun _ => hf

theorem mono {R' : α → α → Prop} {m m' : Checking α} (hm : InStep W R m m')
    (h : ∀ a a', R a a' → R' a a') : InStep W R' m m' := fun s s' hs =>
  ⟨h _ _ (hm s s' hs).1, (hm s s' hs).2⟩

/-- What follows a look at the session may differ by what it sees. -/
theorem look {f f' : Session → Checking α}
    (h : ∀ s s', W s s' → InStep W R (f s) (f' s')) : InStep W R (get >>= f) (get >>= f') :=
  fun s s' hs => h s s' hs s s' hs

theorem change {f f' : Session → Session} (h : ∀ {s s' : Session}, W s s' → W (f s) (f' s')) :
    InStep W Eq (modify f : Checking Unit) (modify f') := fun _ _ hs => ⟨rfl, h hs⟩

theorem discard {m m' : Checking α} (h : InStep W R m m') :
    InStep W Eq (Functor.discard m) (Functor.discard m') := fun s s' hs => ⟨rfl, (h s s' hs).2⟩

theorem map {f f' : α → β} {m m' : Checking α} (h : InStep W R m m')
    (hf : ∀ a a', R a a' → S (f a) (f' a')) : InStep W S (f <$> m) (f' <$> m') := fun s s' hs =>
  ⟨hf _ _ (h s s' hs).1, (h s s' hs).2⟩

theorem ite {c : Prop} [Decidable c] {m m' n n' : Checking α} (hm : InStep W R m m')
    (hn : InStep W R n n') : InStep W R (if c then m else n) (if c then m' else n') := by
  split
  · exact hm
  · exact hn

theorem reportAll {ds ds' : List Diagnostic}
    (h : ∀ {s s' : Session}, W s s' → W (s.reportAll ds) (s'.reportAll ds')) :
    InStep W Eq (Verify.reportAll ds) (Verify.reportAll ds') := change h

theorem report {d d' : Diagnostic}
    (h : ∀ {s s' : Session}, W s s' → W (s.report d) (s'.report d')) :
    InStep W Eq (Verify.report d) (Verify.report d') := change h

/-- What is reported only under a condition, before the rest is done either way. -/
theorem reportIf {c : Prop} [Decidable c] {d d' : Diagnostic}
    (h : ∀ {s s' : Session}, W s s' → W (s.report d) (s'.report d'))
    {rest rest' : PUnit → Checking α} (hrest : InStep W R (rest ⟨⟩) (rest' ⟨⟩)) :
    InStep W R (if c then Verify.report d >>= rest else rest ⟨⟩)
      (if c then Verify.report d' >>= rest' else rest' ⟨⟩) :=
  ite ((report h).seq hrest) hrest

end InStep
end Verify
end Countersign
