/-
# The tokens of a type

The text of a type, taken apart into tokens. `tokens` follows `Ty.source` token by token, and the
text spells these tokens if the names in the type are names of the signature language; the names of
fields are the only ones for which reading does not ensure that.

Key definitions: `tokens`, `FieldsNamed`, `Legible`.
Key theorems: `source_spelled`, `size_le_length_tokens`.
-/
import Countersign.Ty.Source
import Countersign.Proofs.Signature.Written

namespace Countersign
namespace Signature

/-- Lists of tokens with the mark `p` between them. -/
def listed (p : Punct) : List (List Token) → List Token
  | [] => []
  | ts :: tss => ts ++ tss.flatMap (.punct p :: ·)

/-- The tokens of `t`, in parentheses if `t` binds less tightly than `least`. -/
def encloseTokens (least : Nat) (t : Ty) (ts : List Token) : List Token :=
  if t.rank < least then .punct .openParen :: (ts ++ [.punct .closeParen]) else ts

mutual

/-- The tokens of the text of a type. -/
def tokens : Ty → List Token
  | .named c => [.name c.name]
  | .value v => [.value v]
  | .renamed n s => [.name s.name, .name "as", .name n.name]
  | .function ps r t =>
    .punct .openParen :: (listed .comma (receiverTokens t ++ paramTokens ps) ++
      .punct .closeParen :: .punct .arrow :: tokens r)
  | .object fs => .punct .openBrace :: (listed .comma (fieldTokens fs) ++ [.punct .closeBrace])
  | .union ms => listed .pipe (memberTokens 2 ms)
  | .intersection ms => listed .ampersand (memberTokens 3 ms)
  | .generic b as =>
    encloseTokens 3 b (tokens b) ++
      .punct .less :: (listed .comma (memberTokens 0 as) ++ [.punct .greater])
  | .tuple is => .punct .openBracket :: (listed .comma (memberTokens 0 is) ++ [.punct .closeBracket])
  | .moduleExports t => tokens t
termination_by structural t => t

/-- The tokens of each type, bound at least as tightly as `least`. -/
def memberTokens (least : Nat) : List Ty → List (List Token)
  | [] => []
  | t :: ts => encloseTokens least t (tokens t) :: memberTokens least ts
termination_by structural t => t

/-- The tokens of a declared receiver. -/
def receiverTokens : Option Ty → List (List Token)
  | none => []
  | some t => [.name "this" :: .punct .colon :: tokens t]
termination_by structural t => t

/-- The tokens of each parameter. -/
def paramTokens : List (Option String × Ty) → List (List Token)
  | [] => []
  | (none, t) :: ps => tokens t :: paramTokens ps
  | (some n, t) :: ps => (.name n :: .punct .colon :: tokens t) :: paramTokens ps
termination_by structural t => t

/-- The tokens of each field. -/
def fieldTokens : List (String × Ty) → List (List Token)
  | [] => []
  | (n, t) :: fs => (.name n :: .punct .colon :: tokens t) :: fieldTokens fs
termination_by structural t => t

end

/-- The names of all fields of all objects in the type are names of the signature language. -/
def FieldsNamed (t : Ty) : Prop := ∀ fs, .object fs ∈ t.parts → ∀ f ∈ fs, IsName f.1

instance (s : String) : Decidable (IsName s) := inferInstanceAs (Decidable (_ = _))

/-- Whether the fields of the outermost node are named by names, if it is an object. -/
def nodeNamed : Ty → Bool
  | .object fs => fs.all fun f => decide (IsName f.1)
  | _ => true

theorem fieldsNamed_iff {t : Ty} : (∀ u ∈ t.parts, nodeNamed u = true) ↔ FieldsNamed t := by
  constructor
  · intro h fs hfs f hf
    exact of_decide_eq_true (List.all_eq_true.mp (h _ hfs) f hf)
  · intro h u hu
    cases u with
    | object fs => exact List.all_eq_true.mpr fun f hf => decide_eq_true (h fs hu f hf)
    | _ => rfl

instance (t : Ty) : Decidable (FieldsNamed t) := decidable_of_iff _ fieldsNamed_iff

/-- The text of the type can be read. -/
def Legible (t : Ty) : Prop := Written t ∧ FieldsNamed t

theorem Legible.child {t u : Ty} (h : Legible t) (hu : u ∈ t.children) : Legible u :=
  ⟨(written_iff.mp h.1).2 u hu,
    fun fs hfs => h.2 fs (Ty.parts_subset_of_mem_children hu hfs)⟩

theorem Legible.node {t : Ty} (h : Legible t) : NodeWritten t := (written_iff.mp h.1).1

theorem legible_iff {t : Ty} :
    Legible t ↔ NodeWritten t ∧ nodeNamed t = true ∧ ∀ u ∈ t.children, Legible u := by
  constructor
  · intro h
    exact ⟨h.node, fieldsNamed_iff.mpr h.2 t t.mem_parts_self, fun u hu => h.child hu⟩
  · rintro ⟨hnode, hnamed, hchildren⟩
    refine ⟨written_iff.mpr ⟨hnode, fun u hu => (hchildren u hu).1⟩, fieldsNamed_iff.mp ?_⟩
    intro u hu
    rcases Ty.mem_parts_iff.mp hu with rfl | ⟨c, hc, hu⟩
    · exact hnamed
    · exact fieldsNamed_iff.mpr (hchildren c hc).2 u hu

/-! ### The text spells the tokens -/

/-- The text spells the tokens in front of whatever spells others and does not run into it. -/
def Spelled (s : String) (ts : List Token) : Prop :=
  ∀ text ts', Spells text ts' → Stops text → Spells (s.toList ++ text) (ts ++ ts')

theorem stops_cons {c : Char} {text : List Char} (h : Text.isIdentPart c = false) (hdot : c ≠ '.') :
    Stops (c :: text) := by
  intro d hd
  obtain rfl := Option.some.inj hd
  exact ⟨h, hdot⟩

theorem stops_nil : Stops [] := by
  intro c hc
  simp at hc

theorem Spells.mark {text : List Char} {ts : List Token} (h : Spells text ts) (p : Punct) :
    Spells (p.text.toList ++ text) (.punct p :: ts) :=
  .token (punct_scans p) trivial h

theorem spelled_name {s : String} (h : (Token.name s).Scans) : Spelled s [.name s] :=
  fun _ _ htext hstop => .token h hstop htext

/-- A mark with blanks around it, between two items. -/
def Separates (sep : String) (p : Punct) : Prop :=
  ∀ text ts, Spells text ts → Spells (sep.toList ++ text) (.punct p :: ts) ∧
    Stops (sep.toList ++ text)

theorem comma_separates : Separates ", " .comma := fun _ _ h =>
  ⟨(Spells.blank h).mark .comma, stops_cons (by decide) (by decide)⟩

theorem bar_separates : Separates " | " .pipe := fun _ _ h =>
  ⟨.blank ((Spells.blank h).mark .pipe), stops_cons (by decide) (by decide)⟩

theorem ampersand_separates : Separates " & " .ampersand := fun _ _ h =>
  ⟨.blank ((Spells.blank h).mark .ampersand), stops_cons (by decide) (by decide)⟩

/-- Items that are spelled one by one are spelled together with marks between them. -/
theorem spelled_listed {sep : String} {p : Punct} (hsep : Separates sep p) {ss : List String}
    {tss : List (List Token)} (h : List.Forall₂ Spelled ss tss) :
    Spelled (sep.intercalate ss) (listed p tss) := by
  induction h with
  | nil => exact fun text ts' htext _ => by simpa [listed] using htext
  | @cons s ts ss tss hs hrest ih =>
    intro text ts' htext hstop
    cases hrest with
    | nil => simpa [listed] using hs text ts' htext hstop
    | @cons s' ts'' ss tss _ _ =>
      have hmore := ih text ts' htext hstop
      obtain ⟨hmark, hmarkStop⟩ := hsep _ _ hmore
      have hall := hs _ _ hmark hmarkStop
      rw [String.intercalate_cons_cons]
      simpa [listed] using hall

theorem spelled_enclose {least : Nat} {t : Ty} {s : String} {ts : List Token} (h : Spelled s ts) :
    Spelled (t.enclose least s) (encloseTokens least t ts) := by
  unfold Ty.enclose encloseTokens
  split
  · intro text ts' htext _
    have hclose : Spells (')' :: text) (.punct .closeParen :: ts') := htext.mark .closeParen
    have hinner := h _ _ hclose (stops_cons (by decide) (by decide))
    have hall := hinner.mark .openParen
    simpa [Punct.text] using hall
  · exact h

/-- A name, a colon and what they stand before. -/
theorem spelled_labelled {name s : String} {ts : List Token} (hname : (Token.name name).Scans)
    (h : Spelled s ts) : Spelled (name ++ ": " ++ s) (.name name :: .punct .colon :: ts) := by
  intro text ts' htext hstop
  have hcolon : Spells (':' :: ' ' :: (s.toList ++ text)) (.punct .colon :: (ts ++ ts')) :=
    (Spells.blank (h text ts' htext hstop)).mark .colon
  have hall := spelled_name hname _ _ hcolon (stops_cons (by decide) (by decide))
  simpa using hall

theorem spelled_sources (least : Nat) : ∀ ts : List Ty,
    (∀ t ∈ ts, Spelled t.source (tokens t)) →
      List.Forall₂ Spelled (Ty.sources least ts) (memberTokens least ts)
  | [], _ => .nil
  | t :: ts, h => by
    rw [Ty.sources, memberTokens]
    exact .cons (spelled_enclose (h t List.mem_cons_self))
      (spelled_sources least ts fun u hu => h u (List.mem_cons_of_mem _ hu))

theorem spelled_paramSources : ∀ ps : List (Option String × Ty),
    (∀ p ∈ ps, (∀ n ∈ p.1, (Token.name n).Scans) ∧ Spelled p.2.source (tokens p.2)) →
      List.Forall₂ Spelled (Ty.paramSources ps) (paramTokens ps)
  | [], _ => .nil
  | (none, t) :: ps, h => by
    rw [Ty.paramSources, paramTokens]
    exact .cons (h _ List.mem_cons_self).2
      (spelled_paramSources ps fun p hp => h p (List.mem_cons_of_mem _ hp))
  | (some n, t) :: ps, h => by
    rw [Ty.paramSources, paramTokens]
    obtain ⟨hn, ht⟩ := h _ List.mem_cons_self
    exact .cons (spelled_labelled (hn n rfl) ht)
      (spelled_paramSources ps fun p hp => h p (List.mem_cons_of_mem _ hp))

theorem spelled_fieldSources : ∀ fs : List (String × Ty),
    (∀ f ∈ fs, IsName f.1 ∧ Spelled f.2.source (tokens f.2)) →
      List.Forall₂ Spelled (Ty.fieldSources fs) (fieldTokens fs)
  | [], _ => .nil
  | (n, t) :: fs, h => by
    rw [Ty.fieldSources, fieldTokens]
    obtain ⟨hn, ht⟩ := h _ List.mem_cons_self
    exact .cons (spelled_labelled hn.scans ht)
      (spelled_fieldSources fs fun f hf => h f (List.mem_cons_of_mem _ hf))

theorem this_isName : IsName "this" := rfl

theorem as_isName : IsName "as" := rfl

theorem spelled_receiverSources (o : Option Ty) (h : ∀ t ∈ o, Spelled t.source (tokens t)) :
    List.Forall₂ Spelled (Ty.receiverSources o) (receiverTokens o) := by
  cases o with
  | none => exact .nil
  | some t =>
    rw [Ty.receiverSources, receiverTokens]
    have hlabelled := spelled_labelled this_isName.scans (h t rfl)
    exact .cons (by simpa using hlabelled) .nil

theorem spelled_value {v : Value} (h : (Token.value v).Scans) : Spelled v.text [.value v] :=
  fun _ _ htext hstop => .token h hstop htext

/-- A name between two blanks keeps what stands before it apart from what follows. -/
theorem spelled_renamed {s n : String} (hs : (Token.name s).Scans) (hn : (Token.name n).Scans) :
    Spelled (s ++ " as " ++ n) [.name s, .name "as", .name n] := by
  intro text ts' htext hstop
  have hnew : Spells (' ' :: (n.toList ++ text)) (.name n :: ts') :=
    .blank (spelled_name hn text ts' htext hstop)
  have has := spelled_name as_isName.scans _ _ hnew (stops_cons (by decide) (by decide))
  have hall := spelled_name hs _ _ (Spells.blank has) (stops_cons (by decide) (by decide))
  simpa using hall

/-- What stands between an opening and a closing mark. -/
theorem spelled_between {s : String} {ts : List Token} (first last : Punct) (h : Spelled s ts)
    (hlast : ∀ text, Stops (last.text.toList ++ text)) :
    Spelled (first.text ++ s ++ last.text) (.punct first :: (ts ++ [.punct last])) := by
  intro text ts' htext _
  have hinner := h _ _ (htext.mark last) (hlast text)
  have hall := hinner.mark first
  simpa using hall

theorem spelled_object {s : String} {ts : List Token} (h : Spelled s ts) :
    Spelled ("\x7b " ++ s ++ " \x7d") (.punct .openBrace :: (ts ++ [.punct .closeBrace])) := by
  intro text ts' htext _
  have hclose : Spells (' ' :: '\x7d' :: text) (.punct .closeBrace :: ts') :=
    .blank (htext.mark .closeBrace)
  have hinner := h _ _ hclose (stops_cons (by decide) (by decide))
  have hall : Spells ('\x7b' :: ' ' :: (s.toList ++ ' ' :: '\x7d' :: text))
      (.punct .openBrace :: (ts ++ .punct .closeBrace :: ts')) :=
    (Spells.blank hinner).mark .openBrace
  simpa using hall

theorem spelled_function {s r : String} {ts rs : List Token} (hs : Spelled s ts)
    (hr : Spelled r rs) :
    Spelled ("(" ++ s ++ ") => " ++ r)
      (.punct .openParen :: (ts ++ .punct .closeParen :: .punct .arrow :: rs)) := by
  intro text ts' htext hstop
  have harrow : Spells (' ' :: '=' :: '>' :: ' ' :: (r.toList ++ text)) (.punct .arrow :: (rs ++ ts')) :=
    .blank ((Spells.blank (hr text ts' htext hstop)).mark .arrow)
  have hclose : Spells (')' :: ' ' :: '=' :: '>' :: ' ' :: (r.toList ++ text))
      (.punct .closeParen :: .punct .arrow :: (rs ++ ts')) := harrow.mark .closeParen
  have hinner := hs _ _ hclose (stops_cons (by decide) (by decide))
  have hall := hinner.mark .openParen
  simpa [Punct.text] using hall

theorem Spelled.append_marked {s r : String} {ts rs : List Token} {p : Punct} (hs : Spelled s ts)
    (hr : Spelled r (.punct p :: rs)) (hstop : ∀ text, Stops (r.toList ++ text)) :
    Spelled (s ++ r) (ts ++ .punct p :: rs) := by
  intro text ts' htext htextStop
  have hall := hs _ _ (hr text ts' htext htextStop) (hstop text)
  simpa using hall

/-- The text of a type spells its tokens. -/
theorem source_spelled {t : Ty} (h : Legible t) : Spelled t.source (tokens t) := by
  induction t using Ty.children_induction with
  | step t ih =>
    have hchild : ∀ u ∈ t.children, Spelled u.source (tokens u) := fun u hu => ih u hu (h.child hu)
    have hnode := h.node
    cases t with
    | named c => exact spelled_name hnode.2
    | value v => exact spelled_value hnode
    | renamed n s => exact spelled_renamed hnode.2.2.2 hnode.2.1
    | function ps r receiver =>
      simp only [Ty.children, List.mem_append, List.mem_cons, Option.mem_toList] at hchild
      rw [Ty.source, tokens]
      refine spelled_function (spelled_listed comma_separates ?_) (hchild r (.inr (.inl rfl)))
      refine List.rel_append (spelled_receiverSources receiver fun t ht => ?_)
        (spelled_paramSources ps fun p hp => ⟨fun n hn => (hnode p hp n hn).1, ?_⟩)
      · exact hchild t (.inr (.inr ht))
      · exact hchild p.2 (.inl (List.mem_map_of_mem hp))
    | object fs =>
      have hfields := spelled_listed comma_separates (spelled_fieldSources fs fun f hf =>
        ⟨h.2 fs (Ty.mem_parts_self _) f hf, hchild f.2 (List.mem_map_of_mem hf)⟩)
      cases fs with
      | nil =>
        have hempty := spelled_between .openBrace .closeBrace hfields
          fun text => stops_cons (by decide) (by decide)
        simpa [Ty.source, tokens, Punct.text, Ty.fieldSources] using hempty
      | cons f fs => exact spelled_object hfields
    | union ms => exact spelled_listed bar_separates (spelled_sources 2 ms hchild)
    | intersection ms => exact spelled_listed ampersand_separates (spelled_sources 3 ms hchild)
    | generic b as =>
      have hargs := spelled_listed comma_separates
        (spelled_sources 0 as fun u hu => hchild u (List.mem_cons_of_mem _ hu))
      have hbase : Spelled (b.enclose 3 b.source) (encloseTokens 3 b (tokens b)) :=
        spelled_enclose (hchild b List.mem_cons_self)
      have happlied := hbase.append_marked
        (spelled_between .less .greater hargs fun text => stops_cons (by decide) (by decide))
        fun text => by simpa [Punct.text] using stops_cons (c := '<') (by decide) (by decide)
      simpa [Ty.source, tokens, Punct.text, String.append_assoc] using happlied
    | tuple is =>
      exact spelled_between .openBracket .closeBracket
        (spelled_listed comma_separates (spelled_sources 0 is hchild))
        fun text => stops_cons (by decide) (by decide)
    | moduleExports t => exact absurd hnode id

/-! ### A type has at most as many nodes as tokens -/

theorem length_listed (p : Punct) : ∀ tss : List (List Token),
    (tss.map List.length).sum + tss.length ≤ (listed p tss).length + 1
  | [] => by simp
  | ts :: tss => by
    have hrest : ∀ tss : List (List Token), (tss.flatMap (Token.punct p :: ·)).length =
        (tss.map List.length).sum + tss.length := by
      intro tss
      induction tss with
      | nil => rfl
      | cons ts tss ih =>
        simp only [List.flatMap_cons, List.length_append, List.length_cons, ih, List.map_cons,
          List.sum_cons]
        omega
    simp only [listed, List.length_append, hrest, List.map_cons, List.sum_cons, List.length_cons]
    omega

theorem length_le_encloseTokens (least : Nat) (t : Ty) (ts : List Token) :
    ts.length ≤ (encloseTokens least t ts).length := by
  unfold encloseTokens
  split
  · simp
    omega
  · exact Nat.le_refl _

theorem size_le_memberTokens (least : Nat) : ∀ ts : List Ty,
    (∀ t ∈ ts, t.size ≤ (tokens t).length) →
      (ts.map Ty.size).sum ≤ ((memberTokens least ts).map List.length).sum ∧
        (memberTokens least ts).length = ts.length
  | [], _ => by simp [memberTokens]
  | t :: ts, h => by
    obtain ⟨hsum, hlength⟩ := size_le_memberTokens least ts fun u hu => h u (List.mem_cons_of_mem _ hu)
    have ht := h t List.mem_cons_self
    have henclose := length_le_encloseTokens least t (tokens t)
    simp only [memberTokens, List.map_cons, List.sum_cons, List.length_cons, hlength, and_true]
    omega

theorem size_le_paramTokens : ∀ ps : List (Option String × Ty),
    (∀ p ∈ ps, p.2.size ≤ (tokens p.2).length) →
      ((ps.map (·.2)).map Ty.size).sum ≤ ((paramTokens ps).map List.length).sum
  | [], _ => by simp [paramTokens]
  | (name, t) :: ps, h => by
    have hsum := size_le_paramTokens ps fun p hp => h p (List.mem_cons_of_mem _ hp)
    have ht : t.size ≤ (tokens t).length := h (name, t) List.mem_cons_self
    cases name <;> simp only [paramTokens, List.map_cons, List.sum_cons, List.length_cons] <;> omega

theorem size_le_fieldTokens : ∀ fs : List (String × Ty),
    (∀ f ∈ fs, f.2.size ≤ (tokens f.2).length) →
      ((fs.map (·.2)).map Ty.size).sum ≤ ((fieldTokens fs).map List.length).sum
  | [], _ => by simp [fieldTokens]
  | (name, t) :: fs, h => by
    have hsum := size_le_fieldTokens fs fun f hf => h f (List.mem_cons_of_mem _ hf)
    have ht : t.size ≤ (tokens t).length := h (name, t) List.mem_cons_self
    simp only [fieldTokens, List.map_cons, List.sum_cons, List.length_cons]
    omega

theorem size_le_length_tokens {t : Ty} (h : Written t) : t.size ≤ (tokens t).length := by
  induction t using Ty.children_induction with
  | step t ih =>
    obtain ⟨hnode, hwritten⟩ := written_iff.mp h
    have hchild : ∀ u ∈ t.children, u.size ≤ (tokens u).length := fun u hu => ih u hu (hwritten u hu)
    rw [Ty.size_eq]
    cases t with
    | function ps r receiver =>
      simp only [Ty.children, List.mem_append, List.mem_cons, Option.mem_toList] at hchild
      have hparams := size_le_paramTokens ps fun p hp => hchild p.2 (.inl (List.mem_map_of_mem hp))
      have hresult := hchild r (.inr (.inl rfl))
      have hlisted := length_listed .comma (receiverTokens receiver ++ paramTokens ps)
      cases receiver with
      | none =>
        simp only [receiverTokens, List.nil_append] at hlisted
        simp only [tokens, Ty.children, receiverTokens, List.map_append, List.map_cons,
          List.sum_append, List.sum_cons, List.length_cons, List.length_append, Option.toList,
          List.map_nil, List.sum_nil, List.nil_append]
        omega
      | some u =>
        have hreceiver := hchild u (.inr (.inr rfl))
        simp only [receiverTokens, List.cons_append, List.nil_append, List.map_cons, List.sum_cons,
          List.length_cons] at hlisted
        simp only [tokens, Ty.children, receiverTokens, List.map_append, List.map_cons,
          List.sum_append, List.sum_cons, List.length_cons, List.length_append, Option.toList,
          List.map_nil, List.sum_nil, List.cons_append, List.nil_append]
        omega
    | object fs =>
      have hfields := size_le_fieldTokens fs fun f hf => hchild f.2 (List.mem_map_of_mem hf)
      have hlisted := length_listed .comma (fieldTokens fs)
      simp only [tokens, Ty.children, List.length_cons, List.length_append, List.length_nil]
      omega
    | union ms =>
      obtain ⟨hmembers, hlength⟩ := size_le_memberTokens 2 ms hchild
      have hlisted := length_listed .pipe (memberTokens 2 ms)
      have htwo : 2 ≤ ms.length := hnode
      simp only [tokens, Ty.children]
      omega
    | intersection ms =>
      obtain ⟨hmembers, hlength⟩ := size_le_memberTokens 3 ms hchild
      have hlisted := length_listed .ampersand (memberTokens 3 ms)
      have htwo : 2 ≤ ms.length := hnode
      simp only [tokens, Ty.children]
      omega
    | generic b as =>
      obtain ⟨hargs, -⟩ := size_le_memberTokens 0 as fun u hu => hchild u (List.mem_cons_of_mem _ hu)
      have hbase := hchild b List.mem_cons_self
      have henclose := length_le_encloseTokens 3 b (tokens b)
      have hlisted := length_listed .comma (memberTokens 0 as)
      simp only [tokens, Ty.children, List.map_cons, List.sum_cons, List.length_cons,
        List.length_append, List.length_nil]
      omega
    | tuple is =>
      obtain ⟨hitems, -⟩ := size_le_memberTokens 0 is hchild
      have hlisted := length_listed .comma (memberTokens 0 is)
      simp only [tokens, Ty.children, List.length_cons, List.length_append, List.length_nil]
      omega
    | moduleExports t => exact absurd hnode id
    | _ => simp [tokens, Ty.children]

/-- The tokens of the text of a type are those of the type. -/
theorem tokenize_source {t : Ty} (h : Legible t) :
    ∃ ls, tokenize t.source.toList = .ok ls ∧ ls.map (·.token) = tokens t := by
  have hspells := source_spelled h [] [] .nil stops_nil
  simp only [List.append_nil] at hspells
  exact tokenize_of_spells hspells

end Signature
end Countersign
