/-
# Headers in other quotes

A header in other quotes has the types of the header in other quotes, under the same names and on the
same lines; so has an import. What starts with one starts with an environment that is related to the
one that starts with the other.

Every header that is read is sober: where its text has quotes, there are strings in its types. So is
everything that it imports.

Key definitions: `Header.restyle`, `Header.Sober`, `ImportedType.Sober`.
Key theorems: `parseHeaderAt_sober`, `resolveImports_sober`, `ofHeader_restyled`,
`moduleContext_restyled`.
-/
import Countersign.Proofs.Header.Tidy
import Countersign.Proofs.Verify.Styles
import Countersign.Project.Imports

namespace Countersign

open Signature (textQuotes)

/-! ### Types that are read -/

namespace Signature

/-- A word has no quotes, and a value is a string in quotes or has none. -/
def Atom.Sober : Atom → Prop
  | .word s => textQuotes s = 0
  | .value v => v.Sober Whatever
  | .applied _ => True

theorem Outlined.sober {last : Punct} {ts : List Token} {as : List Atom} (h : Outlined last ts as)
    (hts : ∀ t ∈ ts, t.Scans) : ∀ a ∈ as, a.Sober := by
  intro a ha
  obtain ⟨⟨before, t⟩, hjoint, hfits⟩ := Subtype.exists_of_mem_right (h (.punct .comma)) ha
  have hscans := hts t (mem_of_mem_joints hjoint)
  cases a with
  | word s => exact hscans.quotes_label hfits
  | value v =>
    obtain rfl : t = .value v := hfits
    rcases hscans.cases with ⟨q, body, hq, hbody, heq⟩ | ⟨hplain, hquotes⟩
    · refine .inl ⟨q, String.ofList body, hq, ?_, trivial, ?_⟩
      · intro hmem
        rw [String.toList_ofList] at hmem
        have hplain := quotes_eq_zero.mp hbody q hmem
        rw [hq] at hplain
        cases hplain
      · rw [Token.value.inj heq, Value.quoted, String.toList_ofList]
    · have hkind : (v.kind == ValueKind.string) = false := hplain
      exact .inr ⟨ne_of_beq_false hkind, hquotes⟩
  | applied _ => trivial

theorem mem_outlineOfParams {p : Option String × Ty} {ps : List (Option String × Ty)} (h : p ∈ ps) :
    (∀ n ∈ p.1, Atom.word n ∈ outlineOfParams ps) ∧ outline p.2 ⊆ outlineOfParams ps := by
  have hparam : (∀ n ∈ p.1, Atom.word n ∈ outlineOfParams [p]) ∧
      outline p.2 ⊆ outlineOfParams [p] := by
    obtain ⟨_ | n, t⟩ := p <;> simp [outlineOfParams]
  rw [outlineOfParams_eq]
  exact ⟨fun n hn => List.mem_flatMap.mpr ⟨p, h, hparam.1 n hn⟩,
    fun a ha => List.mem_flatMap.mpr ⟨p, h, hparam.2 ha⟩⟩

theorem mem_outlineOfFields {f : String × Ty} {fs : List (String × Ty)} (h : f ∈ fs) :
    Atom.word f.1 ∈ outlineOfFields fs ∧ outline f.2 ⊆ outlineOfFields fs := by
  have hfield : Atom.word f.1 ∈ outlineOfFields [f] ∧ outline f.2 ⊆ outlineOfFields [f] := by
    simp [outlineOfFields]
  rw [outlineOfFields_eq]
  exact ⟨List.mem_flatMap.mpr ⟨f, h, hfield.1⟩, fun a ha => List.mem_flatMap.mpr ⟨f, h, hfield.2 ha⟩⟩

/-- A type is as sober as its outline. -/
theorem sober_of_outline {t : Ty} (h : ∀ a ∈ outline t, a.Sober) : t.Sober Whatever := by
  induction t using Ty.children_induction with
  | step t ih =>
    have hall : ∀ {ts : List Ty} {u : Ty}, u ∈ ts → outline u ⊆ outlineOfAll ts := by
      intro ts u hu a ha
      rw [outlineOfAll_eq]
      exact List.mem_flatMap.mpr ⟨u, hu, ha⟩
    have hchild : ∀ u ∈ t.children, outline u ⊆ outline t := by
      intro u hu
      cases t with
      | named c => cases hu
      | value v => cases hu
      | renamed n m => cases hu
      | function ps r receiver =>
        rw [outline]
        rw [Ty.children, List.mem_append, List.mem_cons, Option.mem_toList] at hu
        rcases hu with hu | rfl | hu
        · obtain ⟨p, hp, rfl⟩ := List.mem_map.mp hu
          exact fun a ha => by simp [(mem_outlineOfParams hp).2 ha]
        · exact fun a ha => by simp [ha]
        · cases hu
          exact fun a ha => by simp [outlineOfReceiver, ha]
      | object fs =>
        obtain ⟨f, hf, rfl⟩ := List.mem_map.mp hu
        exact (mem_outlineOfFields hf).2
      | union ms => exact hall hu
      | intersection ms => exact hall hu
      | generic b as =>
        rw [outline]
        rcases List.mem_cons.mp hu with rfl | hu
        · exact fun a ha => by simp [ha]
        · exact fun a ha => by simp [hall hu ha]
      | tuple is => exact hall hu
      | moduleExports v =>
        obtain rfl := List.mem_singleton.mp hu
        exact fun _ ha => ha
    refine Ty.sober_iff.mpr ⟨?_, fun u hu => ih u hu fun a ha => h a (hchild u hu ha)⟩
    cases t with
    | named c => exact h _ List.mem_cons_self
    | value v => exact h _ List.mem_cons_self
    | renamed n m => exact ⟨h (.word n.name) (by simp [outline]), h (.word m.name) (by simp [outline])⟩
    | function ps r receiver =>
      intro p hp n hn
      exact h (.word n) (by simp [outline, (mem_outlineOfParams hp).1 n hn])
    | object fs => exact fun f hf => h _ (mem_outlineOfFields hf).1
    | _ => trivial

theorem readType_sober : Gives readType (·.Sober Whatever) := by
  intro ts t rest hts h
  obtain ⟨used, rfl, hderived⟩ := typeAt_sound _ _ _ _ h
  refine ⟨sober_of_outline ((hderived.outlined trivial).sober fun u hu => ?_),
    fun l hl => hts l (List.mem_append_right used hl)⟩
  obtain ⟨l, hl, rfl⟩ := List.mem_map.mp hu
  exact hts l (List.mem_append_left rest hl)

end Signature

/-! ### Statements -/

/-- The statement with the strings of the contents `s` in the other quotes. -/
def HeaderStatement.restyle (s : String → Bool) : HeaderStatement → HeaderStatement
  | importNames i => importNames i
  | typeAlias a => typeAlias { a with type := a.type.restyle s }
  | exportDefault e => exportDefault { e with type := e.type.restyle s }
  | value v => value { v with type := v.type.restyle s }

/-- The imported type with the strings of the contents `s` in the other quotes. -/
def ImportedType.restyle (s : String → Bool) (i : ImportedType) : ImportedType :=
  { i with type := i.type.restyle s }

/-- The imported type is sober, and its names have no quotes. -/
structure ImportedType.Sober (k : String → Prop) (i : ImportedType) : Prop where
  type : i.type.Sober k
  name : textQuotes i.name = 0
  localName : textQuotes i.localName = 0

theorem ImportedType.Sober.of_contents {k k' : String → Prop} {i : ImportedType} (h : i.Sober k)
    (hk : ∀ c ∈ i.type.contents, k' c) : i.Sober k' := { h with type := h.type.of_contents hk }

namespace Header

/-- The header with the strings of the contents `s` in the other quotes. -/
def restyle (s : String → Bool) (h : Header) : Header := ⟨h.statements.map (.restyle s)⟩

/-- All types in the header are sober. -/
def Sober (k : String → Prop) (h : Header) : Prop := ∀ t ∈ h.types, t.Sober k

/-- The contents of the strings in its types. -/
def contents (h : Header) : List String := h.types.flatMap Ty.contents

variable {s : String → Bool} {k : String → Prop} {h : Header}

theorem Sober.of_contents {k' : String → Prop} (hh : h.Sober k) (hk : ∀ c ∈ h.contents, k' c) :
    h.Sober k' :=
  fun t ht => (hh t ht).of_contents fun c hc => hk c (List.mem_flatMap.mpr ⟨t, ht, hc⟩)

theorem Sober.type (hh : h.Sober k) {x : HeaderStatement} (hx : x ∈ h.statements) {t : Ty}
    (ht : x.type? = some t) : t.Sober k := hh t (List.mem_filterMap.mpr ⟨x, hx, ht⟩)

/-- Statements of one kind, before and after. -/
theorem filterMap_restyle {α : Type} {f : HeaderStatement → Option α} {R : α → α → Prop}
    {xs : List HeaderStatement}
    (hf : ∀ x ∈ xs, Option.Rel R (f x) (f (x.restyle s))) :
    List.Forall₂ R (xs.filterMap f) ((xs.map (.restyle s)).filterMap f) := by
  induction xs with
  | nil => exact .nil
  | cons x xs ih =>
    rw [List.forall_mem_cons] at hf
    obtain ⟨hx, hxs⟩ := hf
    rw [List.map_cons, List.filterMap_cons, List.filterMap_cons]
    generalize f x = a at hx ⊢
    generalize f (x.restyle s) = b at hx ⊢
    cases hx with
    | none => exact ih hxs
    | some hab => exact .cons hab (ih hxs)

theorem Sober.aliases (hh : h.Sober k) :
    List.Forall₂ (fun a b => a.name = b.name ∧ a.params = b.params ∧ a.type.Restyled s k b.type)
      h.aliases (h.restyle s).aliases := by
  refine filterMap_restyle fun x hx => ?_
  cases x with
  | typeAlias a => exact .some ⟨rfl, rfl, (hh.type hx rfl).restyled⟩
  | _ => exact .none

theorem Sober.values (hh : h.Sober k) :
    List.Forall₂ (fun v w => Binding.Restyled s k ⟨v.name, v.type, v.line⟩ ⟨w.name, w.type, w.line⟩)
      h.values (h.restyle s).values := by
  refine filterMap_restyle fun x hx => ?_
  cases x with
  | value v => exact .some ⟨rfl, (hh.type hx rfl).restyled, rfl⟩
  | _ => exact .none

theorem Sober.exportDefault? (hh : h.Sober k) :
    Option.Rel (fun e f => e.type.Restyled s k f.type ∧ e.line = f.line)
      h.exportDefault? (h.restyle s).exportDefault? := by
  unfold Header.exportDefault?
  rw [← List.head?_reverse, ← List.head?_reverse]
  refine rel_head? (List.rel_reverse (filterMap_restyle fun x hx => ?_))
  cases x with
  | exportDefault e => exact .some ⟨(hh.type hx rfl).restyled, rfl⟩
  | _ => exact .none

end Header

/-! ### Headers that are read -/

section Read

variable {text : String} {first : Nat} {header : Header}

/-- **Every header that is read is sober.** -/
theorem parseHeaderAt_sober (h : parseHeaderAt text first = .ok header) :
    header.Sober Whatever := by
  have hscans := parseHeaderAt_gives Signature.readType_sober h
  intro t ht
  obtain ⟨s, hs, hstatement⟩ := List.mem_filterMap.mp ht
  have hs := hscans s hs
  cases s <;> cases hstatement <;> exact hs

/-- What a header that is read imports has names without quotes. -/
theorem parseHeaderAt_names (h : parseHeaderAt text first = .ok header) :
    ∀ i ∈ header.imports, ∀ n ∈ i.names, textQuotes n.name = 0 ∧ textQuotes n.localName = 0 := by
  have hscans := parseHeaderAt_gives Signature.readType_sober h
  intro i hi n hn
  obtain ⟨s, hs, hstatement⟩ := List.mem_filterMap.mp hi
  have hs := hscans s hs
  cases s with
  | importNames i =>
    cases hstatement
    exact ⟨(hs n hn).1.quotes_label rfl, (hs n hn).2.quotes_label rfl⟩
  | _ => cases hstatement

/-- Every header that is loaded from a file is sober. -/
theorem loadHeader_sober {tree : FileTree} {path : Path}
    (h : loadHeader tree path = .ok header) : header.Sober Whatever := by
  unfold loadHeader at h
  split at h
  · cases h
  · rename_i text _
    cases hparse : parseHeader text with
    | error e =>
      rw [hparse] at h
      cases h
    | ok read =>
      rw [hparse] at h
      cases h
      exact parseHeaderAt_sober hparse

theorem importName_sober {k : String → Prop} (hsober : header.Sober k) {n : ImportName}
    (hn : textQuotes n.name = 0 ∧ textQuotes n.localName = 0) {path : Path} {line : Nat}
    {i : ImportedType} (h : importName path header line n = .ok i) : i.Sober k := by
  unfold importName at h
  split at h
  · rename_i params type hexport
    cases h
    exact ⟨hsober type (Header.mem_types_of_exportedAlias hexport), hn.1, hn.2⟩
  · cases h

theorem mem_of_mapM_ok {ε α β : Type} {f : α → Except ε β} : ∀ {xs : List α} {ys : List β},
    xs.mapM f = .ok ys → ∀ y ∈ ys, ∃ x ∈ xs, f x = .ok y
  | [], ys, h => by
    cases h
    exact nofun
  | x :: xs, ys, h => by
    rw [List.mapM_cons] at h
    obtain ⟨y, hy, h⟩ := ok_of_bind h
    obtain ⟨more, hmore, h⟩ := ok_of_bind h
    cases h
    refine List.forall_mem_cons.mpr ⟨⟨x, List.mem_cons_self, hy⟩, fun z hz => ?_⟩
    obtain ⟨w, hw, hfw⟩ := mem_of_mapM_ok hmore z hz
    exact ⟨w, List.mem_cons_of_mem x hw, hfw⟩

/-- **Every import of a header that is read is sober**, whatever files it comes from. -/
theorem resolveImports_sober (h : parseHeaderAt text first = .ok header) {tree : FileTree}
    {base : Path} {extension : String} {imports : List ImportedType}
    (himports : resolveImports tree header base extension = .ok imports) :
    ∀ i ∈ imports, i.Sober Whatever := by
  intro i hi
  unfold resolveImports at himports
  cases hfound : header.imports.mapM (resolveImport tree base extension) with
  | error e =>
    rw [hfound] at himports
    cases himports
  | ok found =>
    rw [hfound] at himports
    cases himports
    obtain ⟨is, his, hi⟩ := List.mem_flatten.mp hi
    obtain ⟨statement, hstatement, hresolve⟩ := mem_of_mapM_ok hfound is his
    obtain ⟨exporting, hload, hnames⟩ := ok_of_bind hresolve
    obtain ⟨n, hn, hname⟩ := mem_of_mapM_ok hnames i hi
    exact importName_sober (loadHeader_sober hload)
      (parseHeaderAt_names h statement hstatement n hn) hname

end Read

/-! ### The start of a verification -/

namespace Env.Restyled

variable {s : String → Bool} {k : String → Prop} {env env' : Env}

theorem withImport (h : env.Restyled s k env') {i : ImportedType} (hi : i.Sober k) :
    (env.withImport i).Restyled s k (env'.withImport (i.restyle s)) := by
  obtain ⟨name, localName, params, t⟩ := i
  have hnamed := h.withAlias name (a := ⟨params, t⟩) (b := ⟨params, t.restyle s⟩)
    ⟨rfl, hi.type.restyled⟩
  let renamed : Alias := ⟨[], .renamed (.user localName) (.resolve name)⟩
  have hlocal := hnamed.withAlias localName (a := renamed) (b := renamed)
    ⟨rfl, Ty.sober_iff.mpr ⟨⟨hi.localName, hi.name⟩, nofun⟩, rfl⟩
  show (if localName == name then _ else Env.withAlias _ localName renamed).Restyled s k
    (if localName == name then _ else Env.withAlias _ localName renamed)
  by_cases hsame : (localName == name) = true
  · rw [if_pos hsame, if_pos hsame]
    exact hnamed
  · rw [if_neg hsame, if_neg hsame]
    exact hlocal

theorem withImports (h : env.Restyled s k env') {imports : List ImportedType}
    (hi : ∀ i ∈ imports, i.Sober k) :
    (imports.foldl Env.withImport env).Restyled s k
      ((imports.map (.restyle s)).foldl Env.withImport env') := by
  induction imports generalizing env env' with
  | nil => exact h
  | cons i imports ih =>
    rw [List.forall_mem_cons] at hi
    exact ih (h.withImport hi.1) hi.2

theorem withAliases (h : env.Restyled s k env') {header : Header} (hh : header.Sober k) :
    (env.withAliases header).Restyled s k (env'.withAliases (header.restyle s)) := by
  have haliases := hh.aliases (s := s)
  unfold Env.withAliases
  generalize header.aliases = as at haliases ⊢
  generalize (header.restyle s).aliases = bs at haliases ⊢
  induction haliases generalizing env env' with
  | nil => exact h
  | @cons a b as bs hab _ ih =>
    obtain ⟨hname, hparams, htype⟩ := hab
    rw [List.foldl_cons, List.foldl_cons, hname]
    exact ih (h.withAlias b.name ⟨hparams, htype⟩)

end Env.Restyled

namespace Verify

variable {s : String → Bool} {shared : String → Prop} {header : Header}
  {imports : List ImportedType}

theorem Session.Restyled.declareValue {a b : Session} (h : a.Restyled s shared b)
    {v w : ValueStatement}
    (hvw : Binding.Restyled s shared ⟨v.name, v.type, v.line⟩ ⟨w.name, w.type, w.line⟩) :
    (a.declareValue v).Restyled s shared (b.declareValue w) := by
  have hboth := h.env.declare hvw
  unfold Session.declareValue
  generalize a.env.declare _ = x at hboth ⊢
  generalize b.env.declare _ = y at hboth ⊢
  cases hboth with
  | ok henv => exact { h with env := henv }
  | @error old old' hold =>
    have hline : v.line = w.line := hvw.line
    dsimp only
    rw [hline]
    exact h.reportAll (mismatch?_marks h.env (.type hvw.type) hold.type _ _ _)

/-- Verifications start in related sessions. -/
theorem ofHeader_restyled (hheader : header.Sober shared) (himports : ∀ i ∈ imports, i.Sober shared) :
    (Session.ofHeader header imports).Restyled s shared
      (Session.ofHeader (header.restyle s) (imports.map (.restyle s))) := by
  have hempty := (@Env.Restyled.initial s shared).push (Scope.restyled_ofKind .header)
  have henv := (hempty.withImports himports).withAliases hheader
  have hvalues := hheader.values (s := s)
  unfold Session.ofHeader
  dsimp only
  have hstart : Session.Restyled s shared { env := Env.withAliases _ header }
      { env := Env.withAliases _ (header.restyle s) } := ⟨henv, rfl, rfl, rfl, rfl, rfl, rfl, rfl⟩
  generalize header.values = vs at hvalues ⊢
  generalize (header.restyle s).values = ws at hvalues ⊢
  generalize (⟨_, _, _, _, _, _, _, _, _⟩ : Session) = a at hstart ⊢
  generalize (⟨_, _, _, _, _, _, _, _, _⟩ : Session) = b at hstart ⊢
  induction hvalues generalizing a b with
  | nil => exact hstart
  | cons hvw _ ih => exact ih _ _ (hstart.declareValue hvw)

theorem exportType_restyled {env env' : Env} (henv : env.Restyled s shared env') {t u : Ty}
    (h : t.Restyled s shared u) : (exportType env t).Restyled s shared (exportType env' u) := by
  cases t with
  | named c =>
    obtain ⟨hsober, rfl⟩ := h
    unfold exportType
    rw [Ty.restyle_named]
    dsimp only
    split
    · exact hsober.restyled
    · exact rel_getD (rel_map (henv.lookupIn? .header c.name) fun _ _ hb => hb.type) hsober.restyled
  | _ =>
    have hkept := h
    rw [h.eq] at hkept ⊢
    simp only [exportType, Ty.restyle_value, Ty.restyle_renamed, Ty.restyle_function,
      Ty.restyle_object, Ty.restyle_union, Ty.restyle_intersection, Ty.restyle_generic,
      Ty.restyle_tuple, Ty.restyle_moduleExports] at hkept ⊢
    exact hkept

/-- Related statements are checked in related contexts. -/
theorem moduleContext_restyled {script script' : Script}
    (hscript : Script.RestyledStmts s shared script.statements script'.statements) (lines : LineMap)
    (hheader : header.Sober shared) (policy : ExportPolicy) {env env' : Env}
    (henv : env.Restyled s shared env') :
    (moduleContext script lines header policy env).Restyled s shared
      (moduleContext script' lines (header.restyle s) policy env') where
  lines := rfl
  policy := rfl
  summary := (hscript.summarize lines).symm
  declared := rel_map (hheader.exportDefault?) fun _ _ h => exportType_restyled henv h.1
  frame := .none

end Verify
end Countersign
