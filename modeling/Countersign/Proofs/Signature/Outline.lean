/-
# The outline of a type

What is left of a type without its marks: its words and values in the order in which they are
written, and for each application whether it applies another application. Tokens have an outline
too, up to one choice: a string stands for itself or for the word between its quotes.

The tokens that the grammar derives have the outline of what they mean, and so have the tokens of
the text of a type. The two differ in what stands where an application is applied again: the
grammar wants a closing parenthesis there, and the text has the end of a list of arguments.

Types that are equal have the same outline but for the order of fields. Where the words of both stand
in the same order, so do the fields, and the types are identical.

Key definitions: `Atom`, `outline`, `Outlined`.
Key theorems: `Derives.outlined`, `tokens_outlined`, `same_perm`, `eq_of_same`.
-/
import Countersign.Proofs.Signature.Grammar
import Countersign.Proofs.Signature.Tokens

namespace Countersign
namespace Signature

/-- What an outline is made of. -/
inductive Atom where
  /-- A name, or the name of a field, with or without quotes. -/
  | word (s : String)
  | value (v : Value)
  /-- The start of a list of arguments; whether they are for an application. -/
  | applied (again : Bool)
  deriving Repr, DecidableEq, Inhabited

/-- Whether the outermost node is a generic application. -/
def isApplication : Ty → Bool
  | .generic _ _ => true
  | _ => false

mutual

/-- The words, values and applications of a type, as they are written from left to right. -/
def outline : Ty → List Atom
  | .named c => [.word c.name]
  | .value v => [.value v]
  | .renamed n s => [.word s.name, .word "as", .word n.name]
  | .function ps r t => outlineOfReceiver t ++ (outlineOfParams ps ++ outline r)
  | .object fs => outlineOfFields fs
  | .union ms => outlineOfAll ms
  | .intersection ms => outlineOfAll ms
  | .generic b as => outline b ++ .applied (isApplication b) :: outlineOfAll as
  | .tuple is => outlineOfAll is
  | .moduleExports t => outline t
termination_by structural t => t

/-- The outlines of all the types. -/
def outlineOfAll : List Ty → List Atom
  | [] => []
  | t :: ts => outline t ++ outlineOfAll ts
termination_by structural t => t

/-- The outline of a receiver, if there is one. -/
def outlineOfReceiver : Option Ty → List Atom
  | none => []
  | some t => .word "this" :: outline t
termination_by structural t => t

/-- The outlines of all the parameters, each after its name if it has one. -/
def outlineOfParams : List (Option String × Ty) → List Atom
  | [] => []
  | (none, t) :: ps => outline t ++ outlineOfParams ps
  | (some n, t) :: ps => .word n :: (outline t ++ outlineOfParams ps)
termination_by structural t => t

/-- The outlines of all the fields, each after its name. -/
def outlineOfFields : List (String × Ty) → List Atom
  | [] => []
  | (n, t) :: fs => .word n :: (outline t ++ outlineOfFields fs)
termination_by structural t => t

end

theorem outlineOfAll_eq : ∀ ts : List Ty, outlineOfAll ts = ts.flatMap outline
  | [] => rfl
  | t :: ts => by rw [outlineOfAll, outlineOfAll_eq ts, List.flatMap_cons]

theorem outlineOfParams_cons (p : Option String × Ty) (ps : List (Option String × Ty)) :
    outlineOfParams (p :: ps) = outlineOfParams [p] ++ outlineOfParams ps := by
  obtain ⟨name, t⟩ := p
  cases name <;> simp [outlineOfParams]

theorem outlineOfParams_eq (ps : List (Option String × Ty)) :
    outlineOfParams ps = ps.flatMap fun p => outlineOfParams [p] := by
  induction ps with
  | nil => rfl
  | cons p ps ih => rw [outlineOfParams_cons, ih, List.flatMap_cons]

theorem outlineOfFields_cons (f : String × Ty) (fs : List (String × Ty)) :
    outlineOfFields (f :: fs) = outlineOfFields [f] ++ outlineOfFields fs := by
  simp [outlineOfFields]

theorem outlineOfFields_eq (fs : List (String × Ty)) :
    outlineOfFields fs = fs.flatMap fun f => outlineOfFields [f] := by
  induction fs with
  | nil => rfl
  | cons f fs ih => rw [outlineOfFields_cons, ih, List.flatMap_cons]

theorem outline_unionOf (ms : List Ty) : outline (.unionOf ms) = outlineOfAll ms := by
  unfold Ty.unionOf
  split
  · simp [outlineOfAll]
  · rfl

theorem outline_intersectionOf (ms : List Ty) : outline (.intersectionOf ms) = outlineOfAll ms := by
  unfold Ty.intersectionOf
  split
  · simp [outlineOfAll]
  · rfl

/-! ### Parts of a type in its outline -/

theorem outline_subset_of_mem_params {p : Option String × Ty} {ps : List (Option String × Ty)}
    (h : p ∈ ps) : outline p.2 ⊆ outlineOfParams ps := by
  intro a ha
  rw [outlineOfParams_eq]
  refine List.mem_flatMap.mpr ⟨p, h, ?_⟩
  obtain ⟨name, t⟩ := p
  cases name <;> simp only [outlineOfParams, List.append_nil]
  case none => exact ha
  case some n => exact List.mem_cons_of_mem _ ha

theorem outline_subset_of_mem_fields {f : String × Ty} {fs : List (String × Ty)} (h : f ∈ fs) :
    .word f.1 :: outline f.2 ⊆ outlineOfFields fs := by
  intro a ha
  rw [outlineOfFields_eq]
  refine List.mem_flatMap.mpr ⟨f, h, ?_⟩
  simpa [outlineOfFields] using ha

theorem outline_subset_of_mem_children {t u : Ty} (h : u ∈ t.children) : outline u ⊆ outline t := by
  have hall : ∀ {ts : List Ty}, u ∈ ts → outline u ⊆ outlineOfAll ts := by
    intro ts hu a ha
    rw [outlineOfAll_eq]
    exact List.mem_flatMap.mpr ⟨u, hu, ha⟩
  cases t with
  | named c => cases h
  | value v => cases h
  | renamed n s => cases h
  | function ps r receiver =>
    intro a ha
    rw [outline, List.mem_append, List.mem_append]
    rw [Ty.children, List.mem_append, List.mem_cons, Option.mem_toList] at h
    rcases h with h | rfl | h
    · obtain ⟨p, hp, rfl⟩ := List.mem_map.mp h
      exact .inr (.inl (outline_subset_of_mem_params hp ha))
    · exact .inr (.inr ha)
    · obtain rfl : receiver = some u := h
      exact .inl (List.mem_cons_of_mem _ ha)
  | object fs =>
    obtain ⟨f, hf, rfl⟩ := List.mem_map.mp h
    exact fun a ha => outline_subset_of_mem_fields hf (List.mem_cons_of_mem _ ha)
  | union ms => exact hall h
  | intersection ms => exact hall h
  | generic b as =>
    rcases List.mem_cons.mp h with rfl | h
    · exact List.subset_append_left _ _
    · exact fun a ha => List.mem_append_right _ (List.mem_cons_of_mem _ (hall h ha))
  | tuple is => exact hall h
  | moduleExports v =>
    obtain rfl := List.mem_singleton.mp h
    exact List.Subset.refl _

theorem outline_subset_of_mem_parts {t u : Ty} (h : u ∈ t.parts) : outline u ⊆ outline t := by
  induction t using Ty.children_induction with
  | step t ih =>
    rcases Ty.mem_parts_iff.mp h with rfl | ⟨c, hc, hu⟩
    · exact List.Subset.refl _
    · exact List.Subset.trans (ih c hc hu) (outline_subset_of_mem_children hc)

/-! ### Tokens and their outline -/

/-- Whether the token has its place in an outline: marks have none, but for the one that opens a
list of arguments. -/
def Token.outlined : Token → Bool
  | .punct p => p == .less
  | _ => true

/-- The tokens that have their place in an outline, each with the token before it. -/
def joints : Token → List Token → List (Token × Token)
  | _, [] => []
  | before, t :: ts => if t.outlined then (before, t) :: joints t ts else joints t ts

/-- The token is what the atom is read from. If the atom applies an application, `last` stands
before it. -/
def Fits (last : Punct) : Token × Token → Atom → Prop
  | (_, t), .word s => t.label? = some s
  | (_, t), .value v => t = .value v
  | (before, t), .applied again => t = .punct .less ∧ (again = true → before = .punct last)

/-- The tokens have this outline, whatever stands before them. -/
def Outlined (last : Punct) (ts : List Token) (as : List Atom) : Prop :=
  ∀ before, List.Forall₂ (Fits last) (joints before ts) as

theorem joints_append (before : Token) (ts us : List Token) :
    joints before (ts ++ us) = joints before ts ++ joints (ts.getLastD before) us := by
  induction ts generalizing before with
  | nil => rfl
  | cons t ts ih =>
    rw [List.cons_append, joints, joints, ih, List.getLastD_cons]
    split <;> rfl

theorem joints_tokens (before : Token) (ts : List Token) :
    (joints before ts).map (·.2) = ts.filter Token.outlined := by
  induction ts generalizing before with
  | nil => rfl
  | cons t ts ih =>
    rw [joints, List.filter_cons]
    split
    · rw [List.map_cons, ih]
    · exact ih t

theorem mem_of_mem_joints {before b t : Token} {ts : List Token} (h : (b, t) ∈ joints before ts) :
    t ∈ ts := by
  have hmem := List.mem_map_of_mem (f := (·.2)) h
  rw [joints_tokens] at hmem
  exact List.mem_of_mem_filter hmem

section Outlined

variable {last p : Punct} {ts us : List Token} {as bs : List Atom}

theorem Outlined.nil : Outlined last [] [] := fun _ => .nil

theorem Outlined.append (ht : Outlined last ts as) (hu : Outlined last us bs) :
    Outlined last (ts ++ us) (as ++ bs) := by
  intro before
  rw [joints_append]
  exact List.rel_append (ht before) (hu _)

/-- A mark leaves the outline as it is. -/
theorem Outlined.mark (hp : p ≠ .less) (h : Outlined last ts as) :
    Outlined last (.punct p :: ts) as := by
  intro before
  rw [joints, if_neg (by simpa [Token.outlined] using hp)]
  exact h _

/-- A mark at the end leaves the outline as it is. -/
theorem Outlined.closed (hp : p ≠ .less) (h : Outlined last ts as) :
    Outlined last (ts ++ [.punct p]) as := by
  have hboth := h.append (.mark hp .nil)
  rwa [List.append_nil] at hboth

theorem Outlined.word {t : Token} {s : String} (ht : t.label? = some s)
    (h : Outlined last ts as) : Outlined last (t :: ts) (.word s :: as) := by
  intro before
  have hkept : t.outlined = true := by
    cases t with
    | punct q => cases ht
    | _ => rfl
  rw [joints, if_pos hkept]
  exact .cons ht (h _)

theorem Outlined.value (v : Value) : Outlined last [.value v] [.value v] :=
  fun _ => .cons rfl .nil

/-- Arguments for what the tokens `ts` are. -/
theorem Outlined.applied {again : Bool} (ht : Outlined last ts as)
    (hlast : again = true → ∀ before, ts.getLastD before = .punct last)
    (hu : Outlined last us bs) :
    Outlined last (ts ++ .punct .less :: us) (as ++ .applied again :: bs) := by
  intro before
  rw [joints_append]
  refine List.rel_append (ht before) ?_
  exact .cons ⟨rfl, fun hagain => hlast hagain before⟩ (hu _)

end Outlined

/-! ### What is derived has the outline of what it means -/

/-- The outline of what the tokens of a nonterminal mean. -/
def Nonterminal.outline : (x : Nonterminal) → x.Meaning → List Atom
  | type, t => Signature.outline t
  | intersection, t => Signature.outline t
  | applied, t => Signature.outline t
  | primary, t => Signature.outline t
  | fields, fs => outlineOfFields fs
  | params, ps => outlineOfReceiver ps.receiver ++ outlineOfParams ps.positional
  | param, p => outlineOfParams [p]
  | list _ item, ms => ms.flatMap item.outline

/-- No list of arguments opens between the items of a list. -/
def Nonterminal.Parted : Nonterminal → Prop
  | list mark item => mark ≠ .less ∧ item.Parted
  | _ => True

/-- An application is primary only in parentheses. -/
theorem getLastD_of_isApplication {ts : List Token} {t : Ty} (h : Derives .primary ts t)
    (ht : isApplication t = true) (before : Token) : ts.getLastD before = .punct .closeParen := by
  cases h with
  | group _ => rw [List.getLastD_cons, List.getLastD_concat]
  | _ => cases ht

/-- **Tokens that are derived have the outline of what they mean**, with a parenthesis before the
arguments for an application. -/
theorem Derives.outlined {x : Nonterminal} {ts : List Token} {m : x.Meaning}
    (h : Derives x ts m) (hx : x.Parted) : Outlined .closeParen ts (x.outline m) := by
  induction h with
  | last _ ih =>
    simpa [Nonterminal.outline] using ih hx.2
  | next _ _ ihFirst ihRest =>
    rw [Nonterminal.outline, List.flatMap_cons]
    exact (ihFirst hx.2).append (.mark hx.1 (ihRest hx))
  | union _ ih =>
    rw [Nonterminal.outline, outline_unionOf, outlineOfAll_eq]
    exact ih ⟨by decide, trivial⟩
  | intersection _ ih =>
    rw [Nonterminal.outline, outline_intersectionOf, outlineOfAll_eq]
    exact ih ⟨by decide, trivial⟩
  | bare _ ih => exact ih trivial
  | generic hbase _ ihBase ihArgs =>
    rw [Nonterminal.outline, Signature.outline, outlineOfAll_eq]
    exact (ihBase trivial).applied (getLastD_of_isApplication hbase)
      (.closed (by decide) (ihArgs ⟨by decide, trivial⟩))
  | value v => exact .value v
  | name s => exact .word rfl .nil
  | renamed s n => exact .word rfl (.word rfl (.word rfl .nil))
  | object _ ih => exact .mark (by decide) (.closed (by decide) (ih trivial))
  | emptyTuple => exact .mark (by decide) (.mark (by decide) .nil)
  | tuple _ ih =>
    rw [Nonterminal.outline, Signature.outline, outlineOfAll_eq]
    exact .mark (by decide) (.closed (by decide) (ih ⟨by decide, trivial⟩))
  | function _ _ ihParams ihResult =>
    rw [Nonterminal.outline, Signature.outline, ← List.append_assoc]
    exact .mark (by decide) ((ihParams trivial).append
      (.mark (by decide) (.mark (by decide) (ihResult trivial))))
  | group _ ih => exact .mark (by decide) (.closed (by decide) (ih trivial))
  | noFields => exact .nil
  | @field label name ts sep us t fs hlabel _ hsep _ _ ihType ihRest =>
    have hrest : Outlined .closeParen (sep ++ us) (outlineOfFields fs) := by
      rcases hsep with rfl | rfl | rfl
      · exact ihRest trivial
      · exact .mark (by decide) (ihRest trivial)
      · exact .mark (by decide) (ihRest trivial)
    exact .word hlabel (.mark (by decide) ((ihType trivial).append hrest))
  | noParams => exact .nil
  | positional _ ih =>
    rw [Nonterminal.outline, outlineOfParams_eq]
    exact ih ⟨by decide, trivial⟩
  | receiver _ ih =>
    simp only [Nonterminal.outline, outlineOfReceiver, outlineOfParams, List.append_nil]
    exact .word rfl (.mark (by decide) (ih trivial))
  | receiverFirst _ _ ihType ihRest =>
    rw [Nonterminal.outline, outlineOfReceiver, outlineOfParams_eq]
    exact .word rfl (.mark (by decide) ((ihType trivial).append
      (.mark (by decide) (ihRest ⟨by decide, trivial⟩))))
  | named _ _ ih =>
    simp only [Nonterminal.outline, outlineOfParams, List.append_nil]
    exact .word rfl (.mark (by decide) (ih trivial))
  | unnamed _ ih =>
    simp only [Nonterminal.outline, outlineOfParams, List.append_nil]
    exact ih trivial

/-! ### The tokens of a type have its outline -/

section Listed

variable {last p : Punct}

theorem outlined_listed (hp : p ≠ .less) {tss : List (List Token)} {ass : List (List Atom)}
    (h : List.Forall₂ (Outlined last) tss ass) : Outlined last (listed p tss) ass.flatten := by
  have hmore : ∀ {tss : List (List Token)} {ass : List (List Atom)},
      List.Forall₂ (Outlined last) tss ass →
        Outlined last (tss.flatMap (.punct p :: ·)) ass.flatten := by
    intro tss ass h
    induction h with
    | nil => exact .nil
    | cons hfirst _ ih =>
      rw [List.flatMap_cons, List.flatten_cons]
      exact (hfirst.mark hp).append ih
  cases h with
  | nil => exact .nil
  | cons hfirst hrest =>
    rw [listed, List.flatten_cons]
    exact hfirst.append (hmore hrest)

theorem outlined_enclose {least : Nat} {t : Ty} {ts : List Token} {as : List Atom}
    (h : Outlined last ts as) : Outlined last (encloseTokens least t ts) as := by
  unfold encloseTokens
  split
  · exact .mark (by decide) (h.closed (by decide))
  · exact h

theorem outlined_members (least : Nat) : ∀ ts : List Ty,
    (∀ t ∈ ts, Outlined last (tokens t) (outline t)) →
      List.Forall₂ (Outlined last) (memberTokens least ts) (ts.map outline)
  | [], _ => .nil
  | t :: ts, h => .cons (outlined_enclose (h t List.mem_cons_self))
      (outlined_members least ts fun u hu => h u (List.mem_cons_of_mem _ hu))

theorem outlined_all (hp : p ≠ .less) (least : Nat) {ts : List Ty}
    (h : ∀ t ∈ ts, Outlined last (tokens t) (outline t)) :
    Outlined last (listed p (memberTokens least ts)) (outlineOfAll ts) := by
  rw [outlineOfAll_eq, List.flatMap_def]
  exact outlined_listed hp (outlined_members least ts h)

theorem outlined_params : ∀ ps : List (Option String × Ty),
    (∀ q ∈ ps, Outlined last (tokens q.2) (outline q.2)) →
      List.Forall₂ (Outlined last) (paramTokens ps) (ps.map fun q => outlineOfParams [q])
  | [], _ => .nil
  | (name, t) :: ps, h => by
    have ht : Outlined last (tokens t) (outline t) := h (name, t) List.mem_cons_self
    have hrest := outlined_params ps fun q hq => h q (List.mem_cons_of_mem _ hq)
    cases name with
    | none =>
      rw [paramTokens, List.map_cons]
      exact .cons (by simpa [outlineOfParams] using ht) hrest
    | some n =>
      rw [paramTokens, List.map_cons]
      refine .cons ?_ hrest
      simp only [outlineOfParams, List.append_nil]
      exact .word rfl (ht.mark (by decide))

theorem outlined_fields : ∀ fs : List (String × Ty),
    (∀ f ∈ fs, Outlined last (tokens f.2) (outline f.2)) →
      List.Forall₂ (Outlined last) (fieldTokens fs) (fs.map fun f => outlineOfFields [f])
  | [], _ => .nil
  | (name, t) :: fs, h => by
    have ht : Outlined last (tokens t) (outline t) := h (name, t) List.mem_cons_self
    rw [fieldTokens, List.map_cons]
    refine .cons ?_ (outlined_fields fs fun f hf => h f (List.mem_cons_of_mem _ hf))
    simp only [outlineOfFields, List.append_nil]
    exact .word rfl (ht.mark (by decide))

end Listed

/-- An application ends with its arguments. -/
theorem getLastD_tokens_generic (b : Ty) (as : List Ty) (before : Token) :
    (tokens (.generic b as)).getLastD before = .punct .greater := by
  rw [tokens, ← List.cons_append, ← List.append_assoc, List.getLastD_concat]

/-- **The tokens of a type have its outline**, with the end of a list of arguments before the
arguments for an application. -/
theorem tokens_outlined (t : Ty) : Outlined .greater (tokens t) (outline t) := by
  induction t using Ty.children_induction with
  | step t ih =>
    cases t with
    | named c => exact .word rfl .nil
    | value v => exact .value v
    | renamed n s => exact .word rfl (.word rfl (.word rfl .nil))
    | function ps r receiver =>
      simp only [Ty.children, List.mem_append, List.mem_cons, Option.mem_toList] at ih
      have hresult := ih r (.inr (.inl rfl))
      have hparams := outlined_params ps fun q hq => ih q.2 (.inl (List.mem_map_of_mem hq))
      have hreceiver : List.Forall₂ (Outlined .greater) (receiverTokens receiver)
          (receiver.toList.map fun t => .word "this" :: outline t) := by
        cases receiver with
        | none => exact .nil
        | some t => exact .cons (.word rfl ((ih t (.inr (.inr rfl))).mark (by decide))) .nil
      have hflat : outline (.function ps r receiver) =
          ((receiver.toList.map fun t => .word "this" :: outline t) ++
            ps.map fun q => outlineOfParams [q]).flatten ++ outline r := by
        rw [outline, outlineOfParams_eq, List.flatMap_def, List.flatten_append, List.append_assoc]
        cases receiver <;> simp [outlineOfReceiver]
      rw [tokens, hflat]
      exact .mark (by decide) ((outlined_listed (by decide) (List.rel_append hreceiver hparams)).append
        (.mark (by decide) (hresult.mark (by decide))))
    | object fs =>
      have hfields := outlined_fields fs fun f hf => ih f.2 (List.mem_map_of_mem hf)
      rw [tokens, outline, outlineOfFields_eq, List.flatMap_def]
      exact .mark (by decide) (.closed (by decide) (outlined_listed (by decide) hfields))
    | union ms => exact outlined_all (by decide) 2 ih
    | intersection ms => exact outlined_all (by decide) 3 ih
    | generic b as =>
      have hargs := outlined_all (p := .comma) (by decide) 0 fun u hu => ih u (List.mem_cons_of_mem _ hu)
      refine (outlined_enclose (ih b List.mem_cons_self)).applied ?_ (hargs.closed (by decide))
      intro hagain before
      cases b with
      | generic c cs => exact getLastD_tokens_generic c cs before
      | _ => cases hagain
    | tuple is => exact .mark (by decide) (.closed (by decide) (outlined_all (by decide) 0 ih))
    | moduleExports t => exact ih t (List.mem_singleton_self t)

/-! ### Equal types -/

theorem sameFields_cons {n : String} {t : Ty} {fs gs : List (String × Ty)} :
    Ty.sameFields ((n, t) :: fs) gs = true ↔
      (∃ u, gs.lookup n = some u ∧ Ty.same t u = true) ∧ Ty.sameFields fs gs = true := by
  rw [Ty.sameFields, Bool.and_eq_true]
  cases gs.lookup n <;> simp

theorem sameFields_congr {gs gs' : List (String × Ty)} : ∀ {fs : List (String × Ty)},
    (∀ f ∈ fs, gs.lookup f.1 = gs'.lookup f.1) → Ty.sameFields fs gs = Ty.sameFields fs gs'
  | [], _ => rfl
  | (n, t) :: fs, h => by
    rw [Ty.sameFields, Ty.sameFields, h (n, t) List.mem_cons_self,
      sameFields_congr fun f hf => h f (List.mem_cons_of_mem _ hf)]

/-- Fields may be looked up among those that are left when one with another name is taken out. -/
theorem sameFields_without {n : String} {u : Ty} {fs before after : List (String × Ty)}
    (hfs : n ∉ fs.map (·.1)) (h : Ty.sameFields fs (before ++ (n, u) :: after) = true) :
    Ty.sameFields fs (before ++ after) = true := by
  rw [← h]
  refine sameFields_congr fun f hf => ?_
  have hne : f.1 ≠ n := by
    rintro rfl
    exact hfs (List.mem_map_of_mem hf)
  rw [List.lookup_append, List.lookup_append, List.lookup_cons, beq_false_of_ne hne]

theorem perm_all : ∀ {ts us : List Ty},
    (∀ t ∈ ts, ∀ u, Ty.same t u = true → (outline t).Perm (outline u)) →
      Ty.sameAll ts us = true → (outlineOfAll ts).Perm (outlineOfAll us)
  | [], [], _, _ => .refl _
  | t :: ts, u :: us, ih, h => by
    rw [Ty.sameAll, Bool.and_eq_true] at h
    rw [outlineOfAll, outlineOfAll]
    exact (ih t List.mem_cons_self u h.1).append
      (perm_all (fun t ht => ih t (List.mem_cons_of_mem _ ht)) h.2)
  | [], _ :: _, _, h => by simp [Ty.sameAll] at h
  | _ :: _, [], _, h => by simp [Ty.sameAll] at h

theorem perm_params : ∀ {ps qs : List (Option String × Ty)},
    (∀ p ∈ ps, ∀ u, Ty.same p.2 u = true → (outline p.2).Perm (outline u)) →
      Ty.sameParams ps qs = true → (outlineOfParams ps).Perm (outlineOfParams qs)
  | [], [], _, _ => .refl _
  | (n, t) :: ps, (m, u) :: qs, ih, h => by
    rw [Ty.sameParams, Bool.and_eq_true, Bool.and_eq_true, beq_iff_eq] at h
    obtain ⟨⟨rfl, hsame⟩, hrest⟩ := h
    have hmore := perm_params (fun p hp => ih p (List.mem_cons_of_mem _ hp)) hrest
    have hboth := (ih (n, t) List.mem_cons_self u hsame).append hmore
    cases n with
    | none => exact hboth
    | some n => exact hboth.cons _
  | [], _ :: _, _, h => by simp [Ty.sameParams] at h
  | _ :: _, [], _, h => by simp [Ty.sameParams] at h

/-- The field with the name of the first one is taken out, wherever it stands. -/
theorem perm_fields : ∀ {fs gs : List (String × Ty)},
    (∀ f ∈ fs, ∀ u, Ty.same f.2 u = true → (outline f.2).Perm (outline u)) →
      (fs.map (·.1)).Nodup → fs.length = gs.length → Ty.sameFields fs gs = true →
        (outlineOfFields fs).Perm (outlineOfFields gs)
  | [], gs, _, _, hlength, _ => by
    obtain rfl : gs = [] := List.length_eq_zero_iff.mp hlength.symm
    exact .refl _
  | (n, t) :: fs, gs, ih, hnodup, hlength, h => by
    rw [List.map_cons, List.nodup_cons] at hnodup
    obtain ⟨⟨u, hlookup, hsame⟩, hrest⟩ := sameFields_cons.mp h
    obtain ⟨before, after, rfl, -⟩ := List.lookup_eq_some_iff.mp hlookup
    have hleft : fs.length = (before ++ after).length := by
      simp only [List.length_cons, List.length_append] at hlength ⊢
      omega
    have hmore := perm_fields (fun f hf => ih f (List.mem_cons_of_mem _ hf)) hnodup.2 hleft
      (sameFields_without hnodup.1 hrest)
    have hfirst := (ih (n, t) List.mem_cons_self u hsame).append hmore
    have hmiddle : (outlineOfFields (before ++ (n, u) :: after)).Perm
        (outlineOfFields ((n, u) :: (before ++ after))) := by
      rw [outlineOfFields_eq, outlineOfFields_eq]
      exact List.perm_middle.flatMap_right _
    exact (hfirst.cons _).trans hmiddle.symm

theorem isApplication_of_same {t u : Ty} (h : Ty.same t u = true) :
    isApplication t = isApplication u := by
  cases t with
  | generic b as =>
    cases u with
    | generic b' as' => rfl
    | _ => simp [Ty.same] at h
  | _ =>
    cases u with
    | generic b' as' => simp [Ty.same] at h
    | _ => rfl

/-- Equal types have the same outline but for the order of fields. -/
theorem same_perm {t : Ty} (ht : Written t) : ∀ u, Ty.same t u = true →
    (outline t).Perm (outline u) := by
  induction t using Ty.children_induction with
  | step t ih =>
    intro u h
    obtain ⟨hnode, hwritten⟩ := written_iff.mp ht
    have hchild : ∀ v ∈ t.children, ∀ w, Ty.same v w = true → (outline v).Perm (outline w) :=
      fun v hv => ih v hv (hwritten v hv)
    cases t <;> cases u <;>
      simp only [Ty.same, Bool.and_eq_true, beq_iff_eq, Bool.false_eq_true] at h
    case named.named c d =>
      rw [h]
    case value.value v w =>
      rw [h]
    case renamed.renamed n s n' s' =>
      rw [h.1, h.2]
    case function.function ps r o ps' r' o' =>
      simp only [Ty.children, List.mem_append, List.mem_cons, Option.mem_toList] at hchild
      have hparams := perm_params (fun p hp => hchild p.2 (.inl (List.mem_map_of_mem hp))) h.1.1
      have hresult := hchild r (.inr (.inl rfl)) r' h.1.2
      have hreceiver : (outlineOfReceiver o).Perm (outlineOfReceiver o') := by
        cases o <;> cases o' <;> simp only [Ty.sameReceiver, Bool.false_eq_true, and_false] at h
        case none.none => exact .refl _
        case some.some v w => exact (hchild v (.inr (.inr rfl)) w h.2).cons _
      exact hreceiver.append (hparams.append hresult)
    case object.object fs gs =>
      exact perm_fields (fun f hf => hchild f.2 (List.mem_map_of_mem hf)) hnode h.1 h.2
    case union.union => exact perm_all hchild h
    case intersection.intersection => exact perm_all hchild h
    case generic.generic b as b' as' =>
      have hargs := perm_all (fun v hv => hchild v (List.mem_cons_of_mem _ hv)) h.2
      rw [outline, outline, isApplication_of_same h.1]
      exact (hchild b List.mem_cons_self b' h.1).append (hargs.cons _)
    case tuple.tuple => exact perm_all hchild h
    case moduleExports.moduleExports => exact absurd hnode id

/-! ### Equal types in the same order -/

section Order

variable {R : Atom → Atom → Prop}

/-- The types are identical as soon as they are equal and related atoms have the same words. -/
def Ordered (R : Atom → Atom → Prop) (t : Ty) : Prop :=
  ∀ u, Written t → Written u → Ty.same t u = true → List.Forall₂ R (outline t) (outline u) → t = u

theorem forall₂_split {as bs cs ds : List Atom} (hlength : as.length = cs.length)
    (h : List.Forall₂ R (as ++ bs) (cs ++ ds)) : List.Forall₂ R as cs ∧ List.Forall₂ R bs ds := by
  have hfirst := List.forall₂_take_append _ _ _ h
  have hrest := List.forall₂_drop_append _ _ _ h
  rw [← hlength] at hfirst hrest
  rw [List.take_left] at hfirst
  rw [List.drop_left] at hrest
  exact ⟨hfirst, hrest⟩

/-- Two outlines begin with those of equal types. -/
theorem Ordered.head {t u : Ty} {as bs : List Atom} (h : Ordered R t) (ht : Written t)
    (hu : Written u) (hsame : Ty.same t u = true)
    (hall : List.Forall₂ R (outline t ++ as) (outline u ++ bs)) : t = u ∧ List.Forall₂ R as bs := by
  obtain ⟨hfirst, hrest⟩ := forall₂_split (same_perm ht u hsame).length_eq hall
  exact ⟨h u ht hu hsame hfirst, hrest⟩

theorem ordered_all : ∀ {ts us : List Ty}, (∀ t ∈ ts, Ordered R t) → (∀ t ∈ ts, Written t) →
    (∀ u ∈ us, Written u) → Ty.sameAll ts us = true →
      List.Forall₂ R (outlineOfAll ts) (outlineOfAll us) → ts = us
  | [], [], _, _, _, _, _ => rfl
  | t :: ts, u :: us, ih, ht, hu, h, hall => by
    rw [Ty.sameAll, Bool.and_eq_true] at h
    rw [List.forall_mem_cons] at ih ht hu
    obtain ⟨rfl, hrest⟩ := ih.1.head ht.1 hu.1 h.1 hall
    rw [ordered_all ih.2 ht.2 hu.2 h.2 hrest]
  | [], _ :: _, _, _, _, h, _ => by simp [Ty.sameAll] at h
  | _ :: _, [], _, _, _, h, _ => by simp [Ty.sameAll] at h

theorem ordered_receiver {o o' : Option Ty} {as bs : List Atom} (ih : ∀ t ∈ o, Ordered R t)
    (ht : ∀ t ∈ o, Written t) (hu : ∀ u ∈ o', Written u) (h : Ty.sameReceiver o o' = true)
    (hall : List.Forall₂ R (outlineOfReceiver o ++ as) (outlineOfReceiver o' ++ bs)) :
    o = o' ∧ List.Forall₂ R as bs := by
  cases o <;> cases o' <;> simp only [Ty.sameReceiver, Bool.false_eq_true] at h
  case none.none => exact ⟨rfl, hall⟩
  case some.some t u =>
    obtain ⟨rfl, hrest⟩ := (ih t rfl).head (ht t rfl) (hu u rfl) h (List.forall₂_cons.mp hall).2
    exact ⟨rfl, hrest⟩

/-- Parameters are compared in order, with their names. -/
theorem ordered_params {as bs : List Atom} : ∀ {ps qs : List (Option String × Ty)},
    (∀ p ∈ ps, Ordered R p.2) → (∀ p ∈ ps, Written p.2) → (∀ q ∈ qs, Written q.2) →
      Ty.sameParams ps qs = true →
        List.Forall₂ R (outlineOfParams ps ++ as) (outlineOfParams qs ++ bs) →
          ps = qs ∧ List.Forall₂ R as bs
  | [], [], _, _, _, _, hall => ⟨rfl, hall⟩
  | (n, t) :: ps, (m, u) :: qs, ih, ht, hu, h, hall => by
    rw [Ty.sameParams, Bool.and_eq_true, Bool.and_eq_true, beq_iff_eq] at h
    obtain ⟨⟨rfl, hsame⟩, hmore⟩ := h
    rw [List.forall_mem_cons] at ih ht hu
    have htypes : List.Forall₂ R (outline t ++ (outlineOfParams ps ++ as))
        (outline u ++ (outlineOfParams qs ++ bs)) := by
      rw [← List.append_assoc, ← List.append_assoc]
      cases n with
      | none => exact hall
      | some n => exact (List.forall₂_cons.mp hall).2
    obtain ⟨rfl, hrest⟩ := ih.1.head ht.1 hu.1 hsame htypes
    obtain ⟨rfl, hlast⟩ := ordered_params ih.2 ht.2 hu.2 hmore hrest
    exact ⟨rfl, hlast⟩
  | [], _ :: _, _, _, _, h, _ => by simp [Ty.sameParams] at h
  | _ :: _, [], _, _, _, h, _ => by simp [Ty.sameParams] at h

/-- The words tell which field comes next. -/
theorem ordered_fields (hR : ∀ m n, R (.word m) (.word n) → m = n) :
    ∀ {fs gs : List (String × Ty)}, (∀ f ∈ fs, Ordered R f.2) → (∀ f ∈ fs, Written f.2) →
      (∀ g ∈ gs, Written g.2) → (fs.map (·.1)).Nodup → fs.length = gs.length →
        Ty.sameFields fs gs = true →
          List.Forall₂ R (outlineOfFields fs) (outlineOfFields gs) → fs = gs
  | [], [], _, _, _, _, _, _, _ => rfl
  | (n, t) :: fs, (m, u) :: gs, ih, ht, hu, hnodup, hlength, h, hall => by
    rw [List.map_cons, List.nodup_cons] at hnodup
    rw [List.forall_mem_cons] at ih ht hu
    obtain ⟨hword, htypes⟩ := List.forall₂_cons.mp hall
    obtain rfl : n = m := hR n m hword
    obtain ⟨⟨v, hlookup, hsame⟩, hmore⟩ := sameFields_cons.mp h
    obtain rfl : u = v := by
      rw [List.lookup_cons_self] at hlookup
      exact Option.some.inj hlookup
    obtain ⟨rfl, hrest⟩ := ih.1.head ht.1 hu.1 hsame htypes
    have hleft : Ty.sameFields fs ([] ++ gs) = true := sameFields_without hnodup.1 hmore
    rw [ordered_fields hR ih.2 ht.2 hu.2 hnodup.2 (Nat.succ.inj hlength) hleft hrest]

/-- Equal types with the same words in the same order are identical. -/
theorem eq_of_same (hR : ∀ m n, R (.word m) (.word n) → m = n) (t : Ty) : Ordered R t := by
  induction t using Ty.children_induction with
  | step t ih =>
    intro u ht hu h hall
    obtain ⟨hnode, hwritten⟩ := written_iff.mp ht
    have hwritten' := (written_iff.mp hu).2
    cases t <;> cases u <;>
      simp only [Ty.same, Bool.and_eq_true, beq_iff_eq, Bool.false_eq_true] at h
    case named.named c d => rw [h]
    case value.value v w => rw [h]
    case renamed.renamed n s n' s' => rw [h.1, h.2]
    case function.function ps r o ps' r' o' =>
      simp only [Ty.children, List.mem_append, List.mem_cons, Option.mem_toList] at ih hwritten hwritten'
      obtain ⟨rfl, htail⟩ := ordered_receiver (fun v hv => ih v (.inr (.inr hv)))
        (fun v hv => hwritten v (.inr (.inr hv))) (fun v hv => hwritten' v (.inr (.inr hv))) h.2 hall
      obtain ⟨rfl, hresult⟩ := ordered_params
        (fun p hp => ih p.2 (.inl (List.mem_map_of_mem hp)))
        (fun p hp => hwritten p.2 (.inl (List.mem_map_of_mem hp)))
        (fun p hp => hwritten' p.2 (.inl (List.mem_map_of_mem hp))) h.1.1 htail
      rw [ih r (.inr (.inl rfl)) r' (hwritten r (.inr (.inl rfl))) (hwritten' r' (.inr (.inl rfl)))
        h.1.2 hresult]
    case object.object fs gs =>
      rw [ordered_fields hR (fun f hf => ih f.2 (List.mem_map_of_mem hf))
        (fun f hf => hwritten f.2 (List.mem_map_of_mem hf))
        (fun g hg => hwritten' g.2 (List.mem_map_of_mem hg)) hnode h.1 h.2 hall]
    case union.union => exact congrArg Ty.union (ordered_all ih hwritten hwritten' h hall)
    case intersection.intersection => exact congrArg Ty.intersection (ordered_all ih hwritten hwritten' h hall)
    case generic.generic b as b' as' =>
      simp only [Ty.children, List.forall_mem_cons] at ih hwritten hwritten'
      obtain ⟨rfl, hrest⟩ := ih.1.head hwritten.1 hwritten'.1 h.1 hall
      rw [ordered_all ih.2 hwritten.2 hwritten'.2 h.2 (List.forall₂_cons.mp hrest).2]
    case tuple.tuple => exact congrArg Ty.tuple (ordered_all ih hwritten hwritten' h hall)
    case moduleExports.moduleExports => exact absurd hnode id

end Order

end Signature
end Countersign
