/-
# Types in other quotes

A string stands between quotes of either kind, and its type keeps the quotes it was written with. Here
the strings of some contents without quotes are given the other quotes wherever they stand in a type.
Where names have no quotes in them and no string has its own quote between its two, the text of a type
changes in these quotes only: two such types have the same text afterwards if and only if they had it
before, and are the same afterwards if and only if they were.

Key definitions: `Value.restyle`, `Ty.restyle`, `Ty.Sober`, `Turned`.
Key theorems: `Turned.unique`, `Ty.turned_source`, `Ty.source_restyle_inj`, `Ty.same_restyle`.
-/
import Countersign.Proofs.Signature.Quotes
import Countersign.Proofs.Ty.Leaves
import Countersign.Ty.Builtin

namespace Countersign

open Value (isQuote)
open Signature (Atom outline quotes textQuotes)

/-- The other quote. -/
def otherQuote (q : Char) : Char := if q = '"' then '\'' else '"'

theorem isQuote_otherQuote (q : Char) : isQuote (otherQuote q) = true := by
  unfold otherQuote
  split <;> rfl

theorem otherQuote_otherQuote {q : Char} (h : isQuote q = true) : otherQuote (otherQuote q) = q := by
  have hq : q = '"' ∨ q = '\'' := by simpa [isQuote] using h
  rcases hq with rfl | rfl <;> rfl

/-- Whether the quotes around a content change: it is one of `s`, and no quotes are in it. -/
def turns (s : String → Bool) (content : String) : Bool := s content && textQuotes content == 0

/-- The quote that a content stands in afterwards. -/
def turnedQuote (s : String → Bool) (q : Char) (content : String) : Char :=
  if turns s content then otherQuote q else q

section TurnedQuote

variable {s : String → Bool} {q : Char} {content : String}

theorem isQuote_turnedQuote (h : isQuote q = true) : isQuote (turnedQuote s q content) = true := by
  unfold turnedQuote
  split
  · exact isQuote_otherQuote q
  · exact h

theorem turnedQuote_turnedQuote (h : isQuote q = true) :
    turnedQuote s (turnedQuote s q content) content = q := by
  unfold turnedQuote
  split
  · exact otherQuote_otherQuote h
  · rfl

/-- Neither quote is in a content that turns. -/
theorem turnedQuote_not_mem (hq : q ∉ content.toList) :
    turnedQuote s q content ∉ content.toList := by
  unfold turnedQuote
  split
  · rename_i hturns
    have hplain : textQuotes content = 0 := beq_iff_eq.mp (Bool.and_eq_true_iff.mp hturns).2
    intro hmem
    have hquote := Signature.quotes_eq_zero.mp hplain _ hmem
    rw [isQuote_otherQuote] at hquote
    cases hquote
  · exact hq

end TurnedQuote

/-- The quote that a string in single or in double quotes stands in. -/
def quoteOf (single : Bool) : Char := if single then '\'' else '"'

theorem isQuote_quoteOf (single : Bool) : isQuote (quoteOf single) = true := by cases single <;> rfl

theorem quoteOf_xor (s : String → Bool) (single : Bool) (content : String) :
    quoteOf (single ^^ turns s content) = turnedQuote s (quoteOf single) content := by
  unfold turnedQuote
  cases single <;> cases turns s content <;> rfl

/-! ### Values -/

namespace Value

/-- The string with this content. -/
def quoted (q : Char) (content : String) : Value :=
  ⟨String.ofList (q :: (content.toList ++ [q])), .string⟩

/-- What stands between the quotes of a string. -/
def content (v : Value) : String := String.ofList v.text.toList.tail.dropLast

/-- The first character of a string, which is its quote. -/
def quote (v : Value) : Char := v.text.toList.headD '"'

/-- The value, in the other quotes if it is a string with one of these contents. -/
def restyle (s : String → Bool) (v : Value) : Value :=
  if v.kind == .string && turns s v.content then quoted (otherQuote v.quote) v.content else v

/-- A string is a content that satisfies `k` between two quotes of a kind that is not in it; any other
value has no quotes. -/
def Sober (k : String → Prop) (v : Value) : Prop :=
  (∃ q content, isQuote q = true ∧ q ∉ content.toList ∧ k content ∧ v = quoted q content) ∨
    v.kind ≠ .string ∧ textQuotes v.text = 0

variable {s : String → Bool} {k k' : String → Prop} {v w : Value}

theorem quoted_inj {q q' : Char} {content content' : String} :
    quoted q content = quoted q' content' ↔ q = q' ∧ content = content' := by
  constructor
  · intro h
    have htext : q :: (content.toList ++ [q]) = q' :: (content'.toList ++ [q']) :=
      String.ofList_injective (congrArg Value.text h)
    obtain ⟨hq, hrest⟩ := List.cons.inj htext
    exact ⟨hq, String.toList_inj.mp (List.append_inj' hrest rfl).1⟩
  · rintro ⟨rfl, rfl⟩
    rfl

theorem content_quoted (q : Char) (content : String) : (quoted q content).content = content := by
  simp [Value.content, quoted]

theorem restyle_quoted (s : String → Bool) (q : Char) (content : String) :
    (quoted q content).restyle s = quoted (turnedQuote s q content) content := by
  have hquote : (quoted q content).quote = q := by simp [quote, quoted]
  have hkind : ((quoted q content).kind == ValueKind.string) = true := rfl
  unfold restyle turnedQuote
  rw [hquote, content_quoted, hkind, Bool.true_and]
  split <;> rfl

theorem restyle_kind (s : String → Bool) (v : Value) : (v.restyle s).kind = v.kind := by
  unfold restyle
  split
  · rename_i h
    exact (beq_iff_eq.mp (Bool.and_eq_true_iff.mp h).1).symm
  · rfl

theorem restyle_widen (s : String → Bool) (v : Value) : (v.restyle s).widen = v.widen := by
  rw [widen, widen, restyle_kind]

theorem restyle_of_kind_ne (h : v.kind ≠ .string) : v.restyle s = v := by
  unfold restyle
  rw [beq_false_of_ne h, Bool.false_and]
  rfl

theorem Sober.mono (h : v.Sober k) (hk : ∀ c, k c → k' c) : v.Sober k' := by
  rcases h with ⟨q, content, hq, hquotes, hcontent, rfl⟩ | h
  · exact .inl ⟨q, content, hq, hquotes, hk content hcontent, rfl⟩
  · exact .inr h

/-- Values that were different stay different. -/
theorem restyle_inj (hv : v.Sober k) (hw : w.Sober k') :
    v.restyle s = w.restyle s ↔ v = w := by
  constructor
  · intro h
    have hkind : v.kind = w.kind := by rw [← restyle_kind s v, h, restyle_kind]
    rcases hv with ⟨q, content, hq, -, -, rfl⟩ | ⟨hv, -⟩
    · rcases hw with ⟨q', content', hq', -, -, rfl⟩ | ⟨hw, -⟩
      · rw [restyle_quoted, restyle_quoted, quoted_inj] at h
        obtain ⟨hturned, rfl⟩ := h
        have hback := congrArg (turnedQuote s · content) hturned
        simp only [turnedQuote_turnedQuote hq, turnedQuote_turnedQuote hq'] at hback
        rw [hback]
      · exact absurd hkind.symm hw
    · rwa [restyle_of_kind_ne hv, restyle_of_kind_ne (hkind ▸ hv)] at h
  · exact congrArg _

end Value

/-! ### Texts -/

/-- The second text is the first one, with the strings of the contents `s` in the other quotes; no
string has its own quote between its two. -/
inductive Turned (s : String → Bool) : List Char → List Char → Prop
  | nil : Turned s [] []
  | plain {c : Char} {u v : List Char} : isQuote c = false → Turned s u v → Turned s (c :: u) (c :: v)
  | string {q : Char} {body u v : List Char} : isQuote q = true → q ∉ body → Turned s u v →
      Turned s (q :: (body ++ q :: u))
        (turnedQuote s q (String.ofList body) ::
          (body ++ turnedQuote s q (String.ofList body) :: v))

namespace Turned

variable {s : String → Bool} {u u' v v' : List Char}

theorem append (h : Turned s u v) (h' : Turned s u' v') : Turned s (u ++ u') (v ++ v') := by
  induction h with
  | nil => exact h'
  | plain hc _ ih => exact .plain hc ih
  | string hq hbody _ ih =>
    have hstring := Turned.string hq hbody ih
    simpa using hstring

theorem ofPlain (h : quotes u = 0) : Turned s u u := by
  induction u with
  | nil => exact .nil
  | cons c u ih =>
    have hplain := Signature.quotes_eq_zero.mp h
    exact .plain (hplain c List.mem_cons_self)
      (ih (Signature.quotes_eq_zero.mpr fun d hd => hplain d (List.mem_cons_of_mem c hd)))

theorem symm (h : Turned s u v) : Turned s v u := by
  induction h with
  | nil => exact .nil
  | plain hc _ ih => exact .plain hc ih
  | @string q body u v hq hbody _ ih =>
    have hturned := @isQuote_turnedQuote s q (String.ofList body) hq
    have hbody' := @turnedQuote_not_mem s q (String.ofList body) (by rwa [String.toList_ofList])
    rw [String.toList_ofList] at hbody'
    have hstring := Turned.string hturned hbody' ih
    rwa [turnedQuote_turnedQuote hq] at hstring

/-- A string ends with the first quote behind the one it starts with. -/
theorem body_unique {q : Char} {body body' rest rest' : List Char} (hbody : q ∉ body)
    (hbody' : q ∉ body') (h : body ++ q :: rest = body' ++ q :: rest') :
    body = body' ∧ rest = rest' := by
  induction body generalizing body' with
  | nil =>
    cases body' with
    | nil => exact ⟨rfl, (List.cons.inj h).2⟩
    | cons c body' =>
      obtain ⟨rfl, -⟩ := List.cons.inj h
      exact absurd List.mem_cons_self hbody'
  | cons c body ih =>
    cases body' with
    | nil =>
      obtain ⟨rfl, -⟩ := List.cons.inj h
      exact absurd List.mem_cons_self hbody
    | cons d body' =>
      obtain ⟨rfl, htail⟩ := List.cons.inj h
      obtain ⟨rfl, hrest⟩ := ih (fun hmem => hbody (List.mem_cons_of_mem c hmem))
        (fun hmem => hbody' (List.mem_cons_of_mem c hmem)) htail
      exact ⟨rfl, hrest⟩

/-- What a text becomes is determined by it. -/
theorem unique (h : Turned s u v) (h' : Turned s u' v') (heq : u = u') : v = v' := by
  induction h generalizing u' v' with
  | nil =>
    cases h' with
    | nil => rfl
    | plain _ _ => cases heq
    | string _ _ _ => cases heq
  | plain hc _ ih =>
    cases h' with
    | nil => cases heq
    | plain _ hrest =>
      obtain ⟨rfl, htail⟩ := List.cons.inj heq
      rw [ih hrest htail]
    | string hq _ _ =>
      obtain ⟨rfl, -⟩ := List.cons.inj heq
      rw [hc] at hq
      cases hq
  | string hq hbody _ ih =>
    cases h' with
    | nil => cases heq
    | plain hc _ =>
      obtain ⟨rfl, -⟩ := List.cons.inj heq
      rw [hc] at hq
      cases hq
    | string _ hbody' hrest =>
      obtain ⟨rfl, htail⟩ := List.cons.inj heq
      obtain ⟨rfl, hbehind⟩ := body_unique hbody hbody' htail
      rw [ih hrest hbehind]

theorem eq_iff (h : Turned s u v) (h' : Turned s u' v') : v = v' ↔ u = u' :=
  ⟨h.symm.unique h'.symm, h.unique h'⟩

end Turned

/-- The texts are related as their characters are. -/
def TurnedText (s : String → Bool) (x y : String) : Prop := Turned s x.toList y.toList

namespace TurnedText

variable {s : String → Bool} {x x' y y' : String}

theorem append (h : TurnedText s x y) (h' : TurnedText s x' y') :
    TurnedText s (x ++ x') (y ++ y') := by
  unfold TurnedText
  rw [String.toList_append, String.toList_append]
  exact Turned.append h h'

theorem ofPlain (h : textQuotes x = 0) : TurnedText s x x := Turned.ofPlain h

theorem intercalate {sep : String} (hsep : textQuotes sep = 0) {xs ys : List String}
    (h : List.Forall₂ (TurnedText s) xs ys) :
    TurnedText s (sep.intercalate xs) (sep.intercalate ys) := by
  induction h with
  | nil => exact ofPlain rfl
  | @cons x y xs ys hx hxs ih =>
    cases hxs with
    | nil => simpa using hx
    | cons hx' hxs =>
      rw [String.intercalate_cons_cons, String.intercalate_cons_cons]
      exact (hx.append (ofPlain hsep)).append ih

theorem eq_iff (h : TurnedText s x y) (h' : TurnedText s x' y') : y = y' ↔ x = x' := by
  rw [← String.toList_inj, ← String.toList_inj]
  exact Turned.eq_iff h h'

end TurnedText

/-- A value turns into the value in its new quotes. -/
theorem Value.Sober.turned {k : String → Prop} {v : Value} (h : v.Sober k) (s : String → Bool) :
    TurnedText s v.text (v.restyle s).text := by
  rcases h with ⟨q, content, hq, hquotes, -, rfl⟩ | ⟨hkind, hplain⟩
  · have hstring := Turned.string (s := s) (u := []) hq hquotes .nil
    rw [String.ofList_toList] at hstring
    rw [restyle_quoted]
    unfold TurnedText quoted
    simpa using hstring
  · rw [restyle_of_kind_ne hkind]
    exact .ofPlain hplain

/-! ### Types -/

namespace Ty

mutual

/-- The type with `f` done to each literal value in it. -/
def mapValues (f : Value → Value) : Ty → Ty
  | .named c => .named c
  | .value v => .value (f v)
  | .renamed n s => .renamed n s
  | .function ps r t =>
    .function (mapParamValues f ps) (mapValues f r) (mapReceiverValues f t)
  | .object fs => .object (mapFieldValues f fs)
  | .union ms => .union (mapAllValues f ms)
  | .intersection ms => .intersection (mapAllValues f ms)
  | .generic b as => .generic (mapValues f b) (mapAllValues f as)
  | .tuple is => .tuple (mapAllValues f is)
  | .moduleExports t => .moduleExports (mapValues f t)
termination_by structural t => t

/-- The types with `f` done to each literal value. -/
def mapAllValues (f : Value → Value) : List Ty → List Ty
  | [] => []
  | t :: ts => mapValues f t :: mapAllValues f ts
termination_by structural t => t

/-- The receiver with `f` done to each literal value. -/
def mapReceiverValues (f : Value → Value) : Option Ty → Option Ty
  | none => none
  | some t => some (mapValues f t)
termination_by structural t => t

/-- The parameters with `f` done to each literal value. -/
def mapParamValues (f : Value → Value) :
    List (Option String × Ty) → List (Option String × Ty)
  | [] => []
  | (n, t) :: ps => (n, mapValues f t) :: mapParamValues f ps
termination_by structural t => t

/-- The fields with `f` done to each literal value. -/
def mapFieldValues (f : Value → Value) : List (String × Ty) → List (String × Ty)
  | [] => []
  | (n, t) :: fs => (n, mapValues f t) :: mapFieldValues f fs
termination_by structural t => t

end

theorem mapAllValues_eq (f : Value → Value) : ∀ ts : List Ty, mapAllValues f ts = ts.map (mapValues f)
  | [] => rfl
  | t :: ts => by rw [mapAllValues, mapAllValues_eq f ts, List.map_cons]

theorem mapReceiverValues_eq (f : Value → Value) : ∀ t : Option Ty,
    mapReceiverValues f t = t.map (mapValues f)
  | none => rfl
  | some _ => rfl

theorem mapParamValues_eq (f : Value → Value) : ∀ ps : List (Option String × Ty),
    mapParamValues f ps = ps.map fun p => (p.1, mapValues f p.2)
  | [] => rfl
  | (n, t) :: ps => by rw [mapParamValues, mapParamValues_eq f ps, List.map_cons]

theorem mapFieldValues_eq (f : Value → Value) : ∀ fs : List (String × Ty),
    mapFieldValues f fs = fs.map fun x => (x.1, mapValues f x.2)
  | [] => rfl
  | (n, t) :: fs => by rw [mapFieldValues, mapFieldValues_eq f fs, List.map_cons]

/-- The type with the strings of the contents `s` in the other quotes. -/
def restyle (s : String → Bool) (t : Ty) : Ty := t.mapValues (Value.restyle s)

section Restyle

variable (s : String → Bool)

theorem restyle_leafwise : Leafwise (restyle s) := by
  constructor
  · intro ps r receiver
    unfold restyle
    rw [mapValues, mapParamValues_eq, mapReceiverValues_eq]
  · intro fs
    unfold restyle
    rw [mapValues, mapFieldValues_eq]
  · intro ms
    exact congrArg union (mapAllValues_eq _ ms)
  · intro ms
    exact congrArg intersection (mapAllValues_eq _ ms)
  · intro b as
    exact congrArg (generic _) (mapAllValues_eq _ as)
  · intro is
    exact congrArg tuple (mapAllValues_eq _ is)
  · exact fun _ => rfl

@[simp] theorem restyle_named (c : ClassName) : (named c).restyle s = named c := rfl

@[simp] theorem restyle_value (v : Value) : (value v).restyle s = value (v.restyle s) := rfl

@[simp] theorem restyle_renamed (n m : ClassName) : (renamed n m).restyle s = renamed n m := rfl

@[simp] theorem restyle_function (ps : List (Option String × Ty)) (r : Ty) (receiver : Option Ty) :
    (function ps r receiver).restyle s =
      .function (ps.map fun p => (p.1, p.2.restyle s)) (r.restyle s) (receiver.map (restyle s)) :=
  (restyle_leafwise s).function ps r receiver

@[simp] theorem restyle_object (fs : List (String × Ty)) :
    (object fs).restyle s = .object (fs.map fun x => (x.1, x.2.restyle s)) :=
  (restyle_leafwise s).object fs

@[simp] theorem restyle_union (ms : List Ty) : (union ms).restyle s = .union (ms.map (restyle s)) :=
  (restyle_leafwise s).union ms

@[simp] theorem restyle_intersection (ms : List Ty) :
    (intersection ms).restyle s = .intersection (ms.map (restyle s)) :=
  (restyle_leafwise s).intersection ms

@[simp] theorem restyle_generic (b : Ty) (as : List Ty) :
    (generic b as).restyle s = .generic (b.restyle s) (as.map (restyle s)) :=
  (restyle_leafwise s).generic b as

@[simp] theorem restyle_tuple (is : List Ty) : (tuple is).restyle s = .tuple (is.map (restyle s)) :=
  (restyle_leafwise s).tuple is

@[simp] theorem restyle_moduleExports (t : Ty) :
    (moduleExports t).restyle s = .moduleExports (t.restyle s) :=
  (restyle_leafwise s).moduleExports t

theorem restyle_widen (t : Ty) : (t.restyle s).widen = t.widen.restyle s := by
  cases t with
  | value v => simp [widen, Value.restyle_widen]
  | _ => simp [widen]

theorem restyle_isBuiltin (t : Ty) (name : String) : (t.restyle s).isBuiltin name = t.isBuiltin name := by
  cases t <;> simp [isBuiltin]

theorem restyle_isAny (t : Ty) : (t.restyle s).isAny = t.isAny := restyle_isBuiltin s t _

theorem restyle_isVoid (t : Ty) : (t.restyle s).isVoid = t.isVoid := restyle_isBuiltin s t _

theorem restyle_literalName (t : Ty) : (t.restyle s).literalName = t.literalName := by
  cases t <;> simp [literalName]

theorem restyle_asObject? (t : Ty) :
    (t.restyle s).asObject? = t.asObject?.map (·.map fun x => (x.1, x.2.restyle s)) := by
  induction t using children_induction with
  | step t ih =>
    cases t with
    | moduleExports u =>
      rw [restyle_moduleExports]
      exact ih u (List.mem_singleton_self u)
    | _ => simp [asObject?]

theorem restyle_admitsUndefined (t : Ty) : (t.restyle s).admitsUndefined = t.admitsUndefined := by
  have hany : ∀ ts : List Ty, (∀ t ∈ ts, (t.restyle s).admitsUndefined = t.admitsUndefined) →
      anyAdmitsUndefined (ts.map (restyle s)) = anyAdmitsUndefined ts := by
    intro ts hts
    induction ts with
    | nil => rfl
    | cons t ts ih =>
      rw [List.forall_mem_cons] at hts
      rw [List.map_cons, anyAdmitsUndefined, anyAdmitsUndefined, hts.1, ih hts.2]
  induction t using children_induction with
  | step t ih =>
    cases t with
    | value v => simp [admitsUndefined, Value.restyle_kind]
    | union ms =>
      rw [restyle_union]
      exact hany ms ih
    | moduleExports u =>
      rw [restyle_moduleExports]
      exact ih u (List.mem_singleton_self u)
    | _ => simp [admitsUndefined]

theorem restyle_rank (t : Ty) : (t.restyle s).rank = t.rank := by
  induction t using children_induction with
  | step t ih =>
    cases t with
    | moduleExports u =>
      rw [restyle_moduleExports]
      exact ih u (List.mem_singleton_self u)
    | _ => simp [rank]

theorem restyle_size (t : Ty) : (t.restyle s).size = t.size := by
  induction t using children_induction with
  | step t ih =>
    by_cases h : t.children = []
    · cases t <;> first | rfl | simp_all [children, size, sizeAll, sizeFields]
    · rw [size_eq, size_eq t, (restyle_leafwise s).children h, List.map_map]
      exact congrArg (1 + List.sum ·) (List.map_congr_left ih)

/-- The arguments of an instance are restyled with what they are put into. -/
theorem restyle_substitute (t : Ty) (params : List String) (args : List Ty) :
    (t.substitute params args).restyle s =
      (t.restyle s).substitute params (args.map (restyle s)) := by
  have hthen := (restyle_leafwise s).comp (substitute_leafwise params args)
  have hfirst := (substitute_leafwise params (args.map (restyle s))).comp (restyle_leafwise s)
  refine hthen.ext hfirst (fun c => ?_) (fun _ => rfl) (fun _ _ => rfl) t
  obtain ⟨name, _ | _⟩ := c
  · show ((argument? params args name).getD _).restyle s = (argument? params _ name).getD _
    have hzip : params.zip (args.map (restyle s)) =
        (params.zip args).map fun p => (p.1, p.2.restyle s) := List.zip_map_right ..
    unfold argument?
    rw [hzip, lookup_map_snd]
    cases (params.zip args).lookup name with
    | none => rfl
    | some a => rfl
  · rfl

end Restyle

/-! ### Sober types -/

/-- The names in the outermost node have no quotes, and a value is sober. -/
def NodeSober (k : String → Prop) : Ty → Prop
  | .named c => textQuotes c.name = 0
  | .value v => v.Sober k
  | .renamed n m => textQuotes n.name = 0 ∧ textQuotes m.name = 0
  | .function ps _ _ => ∀ p ∈ ps, ∀ n ∈ p.1, textQuotes n = 0
  | .object fs => ∀ f ∈ fs, textQuotes f.1 = 0
  | _ => True

/-- Quotes stand around the strings in the type only, and the contents of these satisfy `k`. -/
def Sober (k : String → Prop) (t : Ty) : Prop := ∀ u ∈ t.parts, u.NodeSober k

section Sober

variable {s : String → Bool} {k k' : String → Prop} {t u : Ty}

theorem sober_iff : t.Sober k ↔ t.NodeSober k ∧ ∀ u ∈ t.children, u.Sober k := by
  constructor
  · intro h
    exact ⟨h t t.mem_parts_self, fun u hu v hv => h v (parts_subset_of_mem_children hu hv)⟩
  · rintro ⟨hnode, hchildren⟩ v hv
    rcases mem_parts_iff.mp hv with rfl | ⟨u, hu, hv⟩
    · exact hnode
    · exact hchildren u hu v hv

theorem Sober.node (h : t.Sober k) : t.NodeSober k := (sober_iff.mp h).1

theorem Sober.child (h : t.Sober k) (hu : u ∈ t.children) : u.Sober k := (sober_iff.mp h).2 u hu

theorem Sober.mono (h : t.Sober k) (hk : ∀ c, k c → k' c) : t.Sober k' := by
  intro u hu
  have hnode := h u hu
  cases u with
  | value v => exact Value.Sober.mono hnode hk
  | _ => exact hnode

theorem sober_named {c : ClassName} (h : textQuotes c.name = 0) : (named c).Sober k :=
  sober_iff.mpr ⟨h, nofun⟩

theorem sober_value {v : Value} (h : v.Sober k) : (value v).Sober k := sober_iff.mpr ⟨h, nofun⟩

theorem sober_any : any.Sober k := sober_named rfl

/-- The classes that values widen to have no quotes in their names. -/
theorem sober_widen (v : Value) : (named v.widen).Sober k := by
  refine sober_named ?_
  unfold Value.widen
  cases v.kind <;> rfl

theorem Sober.widen (h : t.Sober k) : t.widen.Sober k := by
  cases t with
  | value v => exact sober_widen v
  | _ => exact h

theorem sober_unionOf {ts : List Ty} (h : ∀ t ∈ ts, t.Sober k) : (unionOf ts).Sober k := by
  unfold unionOf
  split
  · exact h _ (List.mem_singleton_self _)
  · exact sober_iff.mpr ⟨trivial, h⟩

theorem sober_array (h : t.Sober k) : (generic (ofName "Array") [t]).Sober k := by
  refine sober_iff.mpr ⟨trivial, fun u hu => ?_⟩
  rcases List.mem_cons.mp hu with rfl | hu
  · exact sober_named rfl
  · rwa [List.mem_singleton.mp hu]

theorem Sober.field {fs : List (String × Ty)} (h : (object fs).Sober k) {f : String × Ty}
    (hf : f ∈ fs) : textQuotes f.1 = 0 ∧ f.2.Sober k :=
  ⟨h.node f hf, h.child (List.mem_map_of_mem (f := (·.2)) hf)⟩

theorem sober_object {fs : List (String × Ty)} (h : ∀ f ∈ fs, textQuotes f.1 = 0 ∧ f.2.Sober k) :
    (object fs).Sober k := by
  refine sober_iff.mpr ⟨fun f hf => (h f hf).1, fun u hu => ?_⟩
  obtain ⟨f, hf, rfl⟩ := List.mem_map.mp hu
  exact (h f hf).2

theorem Sober.asObject? (h : t.Sober k) {fs : List (String × Ty)} (hfs : t.asObject? = some fs) :
    (object fs).Sober k := by
  induction t using children_induction with
  | step t ih =>
    cases t with
    | object gs =>
      cases hfs
      exact h
    | moduleExports u =>
      have hu : u ∈ (moduleExports u).children := List.mem_singleton_self u
      exact ih u hu (h.child hu) hfs
    | _ => cases hfs

theorem Sober.substitute (h : t.Sober k) (params : List String) {args : List Ty}
    (hargs : ∀ a ∈ args, a.Sober k) : (t.substitute params args).Sober k := by
  induction t using children_induction with
  | step t ih =>
    have hchildren : ∀ u ∈ t.children.map (Ty.substitute params args), u.Sober k := by
      intro u hu
      obtain ⟨v, hv, rfl⟩ := List.mem_map.mp hu
      exact ih v hv (h.child hv)
    have hnode := h.node
    cases t with
    | named c =>
      unfold Ty.substitute
      split
      · exact h
      · cases hargument : argument? params args c.name with
        | none => exact h
        | some a =>
          obtain ⟨before, after, hzip, -⟩ := List.lookup_eq_some_iff.mp hargument
          have hpair : (c.name, a) ∈ params.zip args :=
            hzip ▸ List.mem_append_right _ List.mem_cons_self
          exact hargs a (List.of_mem_zip hpair).2
    | value v => exact h
    | renamed n m => exact h
    | function ps r receiver =>
      rw [← children_substitute params args (by simp)] at hchildren
      refine sober_iff.mpr ⟨?_, hchildren⟩
      rw [substitute_function]
      intro p hp n hn
      obtain ⟨p', hp', rfl⟩ := List.mem_map.mp hp
      exact hnode p' hp' n hn
    | object fs =>
      rw [← children_substitute params args (by simp)] at hchildren
      refine sober_iff.mpr ⟨?_, hchildren⟩
      rw [substitute_object]
      intro f hf
      obtain ⟨f', hf', rfl⟩ := List.mem_map.mp hf
      exact hnode f' hf'
    | _ =>
      rw [← children_substitute params args (by simp)] at hchildren
      exact sober_iff.mpr ⟨trivial, hchildren⟩

/-- The contents of the strings in the type. -/
def contents (t : Ty) : List String :=
  t.parts.filterMap fun
    | .value v => if v.kind = .string then some v.content else none
    | _ => none

/-- A sober type is one whatever is asked of contents, as long as its own meet it. -/
theorem Sober.of_contents (h : t.Sober k) (hk : ∀ c ∈ t.contents, k' c) : t.Sober k' := by
  intro u hu
  have hnode := h u hu
  cases u with
  | value v =>
    rcases hnode with ⟨q, content, hq, hclosed, -, rfl⟩ | hplain
    · refine .inl ⟨q, content, hq, hclosed, hk content ?_, rfl⟩
      refine List.mem_filterMap.mpr ⟨_, hu, ?_⟩
      exact (if_pos rfl).trans (congrArg some (Value.content_quoted q content))
    · exact .inr hplain
  | _ => exact hnode

end Sober

/-! ### What tells types apart -/

section Apart

variable {s : String → Bool} {k k' : String → Prop}

theorem turned_sources (s : String → Bool) (least : Nat) : ∀ ts : List Ty,
    (∀ t ∈ ts, TurnedText s t.source (t.restyle s).source) →
      List.Forall₂ (TurnedText s) (sources least ts) (sources least (ts.map (restyle s)))
  | [], _ => .nil
  | t :: ts, h => by
    refine .cons ?_ (turned_sources s least ts fun u hu => h u (List.mem_cons_of_mem _ hu))
    have ht := h t List.mem_cons_self
    unfold enclose
    rw [restyle_rank]
    split
    · exact ((TurnedText.ofPlain rfl).append ht).append (.ofPlain rfl)
    · exact ht

theorem turned_labelled {name x y : String} (hname : textQuotes name = 0) (h : TurnedText s x y) :
    TurnedText s (name ++ ": " ++ x) (name ++ ": " ++ y) :=
  ((TurnedText.ofPlain hname).append (.ofPlain rfl)).append h

theorem turned_paramSources (s : String → Bool) : ∀ ps : List (Option String × Ty),
    (∀ p ∈ ps, ∀ n ∈ p.1, textQuotes n = 0) →
    (∀ p ∈ ps, TurnedText s p.2.source (p.2.restyle s).source) →
      List.Forall₂ (TurnedText s) (paramSources ps)
        (paramSources (ps.map fun p => (p.1, p.2.restyle s)))
  | [], _, _ => .nil
  | (name, t) :: ps, hnames, h => by
    rw [List.forall_mem_cons] at hnames h
    have hrest := turned_paramSources s ps hnames.2 h.2
    cases name with
    | none => exact .cons h.1 hrest
    | some n => exact .cons (turned_labelled (hnames.1 n rfl) h.1) hrest

theorem turned_fieldSources (s : String → Bool) : ∀ fs : List (String × Ty),
    (∀ f ∈ fs, textQuotes f.1 = 0) →
    (∀ f ∈ fs, TurnedText s f.2.source (f.2.restyle s).source) →
      List.Forall₂ (TurnedText s) (fieldSources fs)
        (fieldSources (fs.map fun f => (f.1, f.2.restyle s)))
  | [], _, _ => .nil
  | (name, t) :: fs, hnames, h => by
    rw [List.forall_mem_cons] at hnames h
    exact .cons (turned_labelled hnames.1 h.1) (turned_fieldSources s fs hnames.2 h.2)

theorem turned_receiverSources (s : String → Bool) (receiver : Option Ty)
    (h : ∀ t ∈ receiver, TurnedText s t.source (t.restyle s).source) :
    List.Forall₂ (TurnedText s) (receiverSources receiver)
      (receiverSources (receiver.map (restyle s))) := by
  cases receiver with
  | none => exact .nil
  | some t => exact .cons ((TurnedText.ofPlain rfl).append (h t rfl)) .nil

/-- The text of a sober type changes where its strings are. -/
theorem turned_source {t : Ty} (ht : t.Sober k) (s : String → Bool) :
    TurnedText s t.source (t.restyle s).source := by
  induction t using children_induction with
  | step t ih =>
    have hnode := ht.node
    have hchild : ∀ u ∈ t.children, TurnedText s u.source (u.restyle s).source :=
      fun u hu => ih u hu (ht.child hu)
    cases t with
    | named c => exact .ofPlain hnode
    | value v => exact Value.Sober.turned hnode s
    | renamed n m =>
      exact ((TurnedText.ofPlain hnode.2).append (.ofPlain rfl)).append (.ofPlain hnode.1)
    | function ps r receiver =>
      simp only [children, List.mem_append, List.mem_cons, Option.mem_toList] at hchild
      have hparams := turned_paramSources s ps hnode fun p hp =>
        hchild p.2 (.inl (List.mem_map_of_mem hp))
      have hreceiver := turned_receiverSources s receiver fun u hu => hchild u (.inr (.inr hu))
      have hlist := @TurnedText.intercalate s ", " rfl _ _ (List.rel_append hreceiver hparams)
      rw [restyle_function, source, source]
      exact (((TurnedText.ofPlain rfl).append hlist).append (.ofPlain rfl)).append
        (hchild r (.inr (.inl rfl)))
    | object fs =>
      have hfields := turned_fieldSources s fs hnode fun f hf =>
        hchild f.2 (List.mem_map_of_mem (f := (·.2)) hf)
      rw [restyle_object]
      cases fs with
      | nil => exact .ofPlain rfl
      | cons f fs =>
        exact ((TurnedText.ofPlain rfl).append (.intercalate rfl hfields)).append (.ofPlain rfl)
    | union ms =>
      rw [restyle_union]
      exact .intercalate rfl (turned_sources s 2 ms hchild)
    | intersection ms =>
      rw [restyle_intersection]
      exact .intercalate rfl (turned_sources s 3 ms hchild)
    | generic b as =>
      have hbase := turned_sources s 3 [b] fun u hu => by
        rw [List.mem_singleton.mp hu]
        exact hchild b List.mem_cons_self
      have hargs := turned_sources s 0 as fun u hu => hchild u (List.mem_cons_of_mem b hu)
      cases hbase with
      | cons hbase _ =>
        rw [restyle_generic]
        exact ((hbase.append (.ofPlain rfl)).append (.intercalate rfl hargs)).append (.ofPlain rfl)
    | tuple is =>
      rw [restyle_tuple]
      exact ((TurnedText.ofPlain rfl).append (.intercalate rfl (turned_sources s 0 is hchild))).append
        (.ofPlain rfl)
    | moduleExports u => exact hchild u (List.mem_singleton_self u)

/-- **Sober types have the same text afterwards just if they had it before.** -/
theorem source_restyle_inj {t u : Ty} (ht : t.Sober k) (hu : u.Sober k') :
    (t.restyle s).source = (u.restyle s).source ↔ t.source = u.source :=
  (turned_source ht s).eq_iff (turned_source hu s)

theorem sameAll_restyle : ∀ ts us : List Ty,
    (∀ t ∈ ts, ∀ u ∈ us, same (t.restyle s) (u.restyle s) = same t u) →
      sameAll (ts.map (restyle s)) (us.map (restyle s)) = sameAll ts us
  | [], [], _ => rfl
  | [], _ :: _, _ => rfl
  | _ :: _, [], _ => rfl
  | t :: ts, u :: us, h => by
    rw [List.map_cons, List.map_cons, sameAll, sameAll, h t List.mem_cons_self u List.mem_cons_self,
      sameAll_restyle ts us fun t ht u hu =>
        h t (List.mem_cons_of_mem _ ht) u (List.mem_cons_of_mem _ hu)]

theorem sameParams_restyle : ∀ ps qs : List (Option String × Ty),
    (∀ p ∈ ps, ∀ q ∈ qs, same (p.2.restyle s) (q.2.restyle s) = same p.2 q.2) →
      sameParams (ps.map fun p => (p.1, p.2.restyle s)) (qs.map fun q => (q.1, q.2.restyle s)) =
        sameParams ps qs
  | [], [], _ => rfl
  | [], _ :: _, _ => rfl
  | _ :: _, [], _ => rfl
  | p :: ps, q :: qs, h => by
    rw [List.map_cons, List.map_cons, sameParams, sameParams,
      h p List.mem_cons_self q List.mem_cons_self, sameParams_restyle ps qs fun p hp q hq =>
        h p (List.mem_cons_of_mem _ hp) q (List.mem_cons_of_mem _ hq)]

theorem sameFields_restyle (fs gs : List (String × Ty))
    (h : ∀ f ∈ fs, ∀ g ∈ gs, same (f.2.restyle s) (g.2.restyle s) = same f.2 g.2) :
    sameFields (fs.map fun f => (f.1, f.2.restyle s)) (gs.map fun g => (g.1, g.2.restyle s)) =
      sameFields fs gs := by
  induction fs with
  | nil => rfl
  | cons f fs ih =>
    rw [List.forall_mem_cons] at h
    rw [List.map_cons, sameFields, sameFields, lookup_map_snd, ih h.2]
    cases hlookup : gs.lookup f.1 with
    | none => rfl
    | some u =>
      obtain ⟨before, after, rfl, -⟩ := List.lookup_eq_some_iff.mp hlookup
      have hu := h.1 (f.1, u) (List.mem_append_right _ List.mem_cons_self)
      exact congrArg (· && sameFields fs (before ++ (f.1, u) :: after)) hu

/-- **Sober types are the same afterwards just if they were before.** -/
theorem same_restyle {t : Ty} (ht : t.Sober k) : ∀ {u : Ty}, u.Sober k' →
    same (t.restyle s) (u.restyle s) = same t u := by
  induction t using children_induction with
  | step t ih =>
    intro u hu
    have hboth : ∀ c ∈ t.children, ∀ d ∈ u.children, same (c.restyle s) (d.restyle s) = same c d :=
      fun c hc d hd => ih c hc (ht.child hc) (hu.child hd)
    have hnode := ht.node
    have hnode' := hu.node
    cases t with
    | value v =>
      cases u with
      | value w =>
        show decide (v.restyle s = w.restyle s) = decide (v = w)
        rw [decide_eq_decide]
        exact Value.restyle_inj hnode hnode'
      | _ => simp [same]
    | function ps r receiver =>
      cases u with
      | function ps' r' receiver' =>
        simp only [children, List.mem_append, List.mem_cons, Option.mem_toList] at hboth
        have hparams := sameParams_restyle ps ps' fun p hp q hq =>
          hboth p.2 (.inl (List.mem_map_of_mem hp)) q.2 (.inl (List.mem_map_of_mem hq))
        have hresult := hboth r (.inr (.inl rfl)) r' (.inr (.inl rfl))
        have hreceiver : sameReceiver (receiver.map (restyle s)) (receiver'.map (restyle s)) =
            sameReceiver receiver receiver' := by
          rcases receiver with _ | c <;> rcases receiver' with _ | d <;> try rfl
          exact hboth c (.inr (.inr rfl)) d (.inr (.inr rfl))
        rw [restyle_function, restyle_function, same, same, hparams, hresult, hreceiver]
      | _ => simp [same]
    | object fs =>
      cases u with
      | object gs =>
        have hfields := sameFields_restyle fs gs fun f hf g hg =>
          hboth f.2 (List.mem_map_of_mem (f := (·.2)) hf) g.2 (List.mem_map_of_mem (f := (·.2)) hg)
        rw [restyle_object, restyle_object, same, same, hfields, List.length_map, List.length_map]
      | _ => simp [same]
    | union ms =>
      cases u with
      | union ms' => simpa [same] using sameAll_restyle ms ms' hboth
      | _ => simp [same]
    | intersection ms =>
      cases u with
      | intersection ms' => simpa [same] using sameAll_restyle ms ms' hboth
      | _ => simp [same]
    | generic b as =>
      cases u with
      | generic b' as' =>
        have hargs := sameAll_restyle as as' fun c hc d hd =>
          hboth c (List.mem_cons_of_mem b hc) d (List.mem_cons_of_mem b' hd)
        rw [restyle_generic, restyle_generic, same, same, hargs,
          hboth b List.mem_cons_self b' List.mem_cons_self]
      | _ => simp [same]
    | tuple is =>
      cases u with
      | tuple is' => simpa [same] using sameAll_restyle is is' hboth
      | _ => simp [same]
    | moduleExports c =>
      cases u with
      | moduleExports d =>
        simpa [same] using hboth c (List.mem_singleton_self c) d (List.mem_singleton_self d)
      | _ => simp [same]
    | _ => cases u <;> simp [same]

end Apart

/-! ### Built-in values -/

/-- The names in the outermost node have no quotes, and it is no string. -/
def isQuoteless : Ty → Bool
  | .named c => textQuotes c.name == 0
  | .value v => v.kind != .string && textQuotes v.text == 0
  | .renamed n m => textQuotes n.name == 0 && textQuotes m.name == 0
  | .function ps _ _ => ps.all fun p => p.1.all (textQuotes · == 0)
  | .object fs => fs.all (textQuotes ·.1 == 0)
  | _ => true

theorem nodeSober_of_isQuoteless {k : String → Prop} {t : Ty} (h : t.isQuoteless = true) :
    t.NodeSober k := by
  cases t with
  | named c => exact beq_iff_eq.mp h
  | value v =>
    obtain ⟨hkind, hquotes⟩ := Bool.and_eq_true_iff.mp h
    exact .inr ⟨bne_iff_ne.mp hkind, beq_iff_eq.mp hquotes⟩
  | renamed n m =>
    obtain ⟨hn, hm⟩ := Bool.and_eq_true_iff.mp h
    exact ⟨beq_iff_eq.mp hn, beq_iff_eq.mp hm⟩
  | function ps r receiver =>
    rintro ⟨name, t⟩ hp n rfl
    exact beq_iff_eq.mp (List.all_eq_true.mp h _ hp)
  | object fs => exact fun f hf => beq_iff_eq.mp (List.all_eq_true.mp h f hf)
  | _ => trivial

end Ty

theorem builtinGlobals_sober {k : String → Prop} : ∀ g ∈ builtinGlobals, g.2.Sober k := by
  have hquoteless : ∀ g ∈ builtinGlobals, ∀ u ∈ g.2.parts, u.isQuoteless = true := by
    decide +kernel
  exact fun g hg u hu => Ty.nodeSober_of_isQuoteless (hquoteless g hg u hu)

/-- No string is among the types of the built-in values. -/
theorem builtinGlobals_restyle (s : String → Bool) :
    builtinGlobals.map (fun g => (g.1, g.2.restyle s)) = builtinGlobals := rfl

end Countersign
