/-
# Headers of tidy types

Each type in a header that is read is read by the rules for types, so what these ensure holds of all of
them. A header is tidy if no object in its types repeats the name of a field. Every header that is read
is, and what such a header lends to others is a tidy type again.

Key definitions: `Header.types`, `Header.Tidy`.
Key theorems: `parseHeaderAt_gives`, `parseHeaderAt_tidy`, `Header.Tidy.exportedAlias?`.
-/
import Countersign.Proofs.Header.Statements
import Countersign.Proofs.Signature.Written
import Countersign.Proofs.Ty.Tidy

namespace Countersign

/-- The type in the statement, if it has one. -/
def HeaderStatement.type? : HeaderStatement → Option Ty
  | importNames _ => none
  | typeAlias a => some a.type
  | exportDefault e => some e.type
  | value v => some v.type

/-- The types in the header, in the order of its statements. -/
def Header.types (h : Header) : List Ty := h.statements.filterMap HeaderStatement.type?

/-- The type in the statement is tidy, if it has one. -/
def HeaderStatement.Tidy : HeaderStatement → Prop
  | importNames _ => True
  | typeAlias a => a.type.Tidy
  | exportDefault e => e.type.Tidy
  | value v => v.type.Tidy

/-- All types in the header are tidy. -/
def Header.Tidy (h : Header) : Prop := ∀ s ∈ h.statements, s.Tidy

namespace Header

variable {h : Header}

theorem mem_types_of_alias {a : AliasStatement} (ha : a ∈ h.aliases) : a.type ∈ h.types := by
  obtain ⟨s, hs, hstatement⟩ := List.mem_filterMap.mp ha
  split at hstatement
  · cases hstatement
    exact List.mem_filterMap.mpr ⟨_, hs, rfl⟩
  · cases hstatement

theorem mem_types_of_value {v : ValueStatement} (hv : v ∈ h.values) : v.type ∈ h.types := by
  obtain ⟨s, hs, hstatement⟩ := List.mem_filterMap.mp hv
  split at hstatement
  · cases hstatement
    exact List.mem_filterMap.mpr ⟨_, hs, rfl⟩
  · cases hstatement

theorem mem_types_of_exportDefault {e : ExportStatement} (he : e ∈ h.exportDefault?) :
    e.type ∈ h.types := by
  obtain ⟨s, hs, hstatement⟩ := List.mem_filterMap.mp (List.mem_of_getLast? he)
  split at hstatement
  · cases hstatement
    exact List.mem_filterMap.mpr ⟨_, hs, rfl⟩
  · cases hstatement

/-- What other headers import is one of the types. -/
theorem mem_types_of_exportedAlias {name : String} {params : List String} {t : Ty}
    (hexport : h.exportedAlias? name = some (params, t)) : t ∈ h.types := by
  unfold exportedAlias? at hexport
  split at hexport
  · rename_i a ha
    cases hexport
    exact mem_types_of_alias (List.mem_of_find?_eq_some ha)
  · obtain ⟨u, hu, heq⟩ := Option.map_eq_some_iff.mp hexport
    cases heq
    unfold exportedType? at hu
    split at hu
    · rename_i a ha
      cases hu
      exact mem_types_of_alias (List.mem_of_find?_eq_some ha)
    · obtain ⟨v, hv, rfl⟩ := Option.map_eq_some_iff.mp hu
      exact mem_types_of_value (List.mem_of_find?_eq_some hv)

namespace Tidy

theorem types (ht : h.Tidy) : ∀ t ∈ h.types, t.Tidy := by
  intro t hmem
  obtain ⟨s, hs, hstatement⟩ := List.mem_filterMap.mp hmem
  have hs := ht s hs
  cases s <;> cases hstatement <;> exact hs

theorem aliases (ht : h.Tidy) : ∀ a ∈ h.aliases, a.type.Tidy :=
  fun _ ha => ht.types _ (mem_types_of_alias ha)

theorem values (ht : h.Tidy) : ∀ v ∈ h.values, v.type.Tidy :=
  fun _ hv => ht.types _ (mem_types_of_value hv)

theorem exportDefault? (ht : h.Tidy) : ∀ e ∈ h.exportDefault?, e.type.Tidy :=
  fun _ he => ht.types _ (mem_types_of_exportDefault he)

/-- What other headers import from a tidy one is tidy. -/
theorem exportedAlias? (ht : h.Tidy) {name : String} {params : List String} {t : Ty}
    (hexport : h.exportedAlias? name = some (params, t)) : t.Tidy :=
  ht.types t (mem_types_of_exportedAlias hexport)

end Tidy
end Header

namespace Signature

variable {α β : Type} {P : α → Prop} {Q : β → Prop}

/-! ### What each statement gives -/

/-- Every type that is read is tidy. -/
theorem Written.tidy {t : Ty} (h : Written t) : t.Tidy := fun fs hfs => h (.object fs) hfs

theorem readType_gives : Gives readType Written := fun ts => typeAt_gives (ts.length + 1) ts

namespace Gives

theorem pure {b : β} (h : Q b) : Gives (fun ts => .ok (b, ts)) Q := by
  intro ts a rest hts heq
  cases heq
  exact ⟨h, hts⟩

/-- Something else is read first. -/
theorem bind {item : Reads α} {f : α × List Lexeme → Except Failure (β × List Lexeme)}
    (hitem : Gives item P) (hf : ∀ a, P a → Gives (fun ts => f (a, ts)) Q) :
    Gives (fun ts => item ts >>= f) Q := by
  intro ts b rest hts h
  obtain ⟨⟨a, ts'⟩, hread, h⟩ := ok_of_bind h
  obtain ⟨ha, hts'⟩ := hitem _ _ _ hts hread
  exact hf a ha ts' b rest hts' h

/-- Readers that only take tokens off the front leave tokens that can be written again. -/
theorem ofCarries {item : Reads α} (h : ∀ n, Carries 0 [] n item item) :
    Gives item fun _ => True := by
  intro ts a rest hts hread
  have hsuffix := (h _ ts a rest (Nat.le_refl _) hread).1
  exact ⟨trivial, fun l hl => hts l (hsuffix.subset hl)⟩

theorem expect (p : Punct) : Gives (Signature.expect p) fun _ => True :=
  fun _ _ _ hts h => ⟨trivial, hts.expect h⟩

end Gives

theorem AllScan.eatWord? {w : String} {ts rest : List Lexeme} (hts : AllScan ts)
    (h : Signature.eatWord? w ts = some rest) : AllScan rest := by
  obtain ⟨start, rfl⟩ := eatWord?_some h
  exact hts.tail

/-- Both names of an import are names. -/
def NamesScan (n : ImportName) : Prop := (Token.name n.name).Scans ∧ (Token.name n.localName).Scans

theorem importName_gives : Gives importName NamesScan := by
  intro ts n rest hts h
  obtain ⟨⟨name, ts₁⟩, hname, h⟩ := ok_of_bind h
  obtain ⟨hscans, hts₁⟩ := identifier_gives _ _ _ hts hname
  dsimp only at h
  split at h
  · rename_i ts₂ heat
    obtain ⟨⟨newName, ts₃⟩, hnew, h⟩ := ok_of_bind h
    obtain ⟨hscans', hts₃⟩ := identifier_gives _ _ _ (hts₁.eatWord? heat) hnew
    cases h
    exact ⟨⟨hscans, hscans'⟩, hts₃⟩
  · cases h
    exact ⟨⟨hscans, hscans⟩, hts₁⟩

theorem importNames_gives (limit : Nat) : Gives (importNames limit) (∀ n ∈ ·, NamesScan n) := by
  induction limit with
  | zero => exact .pure nofun
  | succ limit ih =>
    intro ts ns rest hts h
    rw [importNames] at h
    split at h
    · cases h
      exact ⟨nofun, hts⟩
    · obtain ⟨⟨n, ts₁⟩, hn, h⟩ := ok_of_bind h
      obtain ⟨hscans, hts₁⟩ := importName_gives _ _ _ hts hn
      dsimp only at h
      split at h
      · rename_i ts₂ heat
        obtain ⟨start, rfl⟩ := eat?_some heat
        obtain ⟨⟨more, ts₃⟩, hmore, h⟩ := ok_of_bind h
        obtain ⟨hall, hts₃⟩ := ih _ _ _ hts₁.tail hmore
        cases h
        exact ⟨List.forall_mem_cons.mpr ⟨hscans, hall⟩, hts₃⟩
      · cases h
        exact ⟨List.forall_mem_singleton.mpr hscans, hts₁⟩

/-- The names that a statement imports are names, or its type satisfies `T`. -/
def StatementScans (T : Ty → Prop) : HeaderStatement → Prop
  | .importNames i => ∀ n ∈ i.names, NamesScan n
  | .typeAlias a => T a.type
  | .exportDefault e => T e.type
  | .value v => T v.type

section Statements

variable {T : Ty → Prop} {line : Nat}

theorem importStatement_gives : Gives (importStatement line) (StatementScans T) :=
  (Gives.expect .openBrace).bind fun _ _ =>
    @Gives.bind _ _ _ _ (fun ts => importNames (ts.length + 1) ts) _
      (fun ts => importNames_gives (ts.length + 1) ts) fun names hnames =>
    (Gives.expect .closeBrace).bind fun _ _ =>
    (Gives.ofCarries fun _ => expectWord_carries fenced_nil "from").bind fun _ _ =>
    (Gives.ofCarries fun _ => modulePath_carries).bind fun path _ =>
    @Gives.pure _ (StatementScans T) (HeaderStatement.importNames ⟨names, path, line⟩) hnames

-- what holds of every type that is read
variable (hT : Gives readType T)
include hT

theorem aliasStatement_gives : Gives (aliasStatement line) (StatementScans T) :=
  identifier_gives.bind fun name _ =>
    (Gives.ofCarries fun _ => aliasParams_carries fenced_nil).bind fun ps _ =>
    (Gives.expect .colon).bind fun _ _ => hT.bind fun t ht =>
    @Gives.pure _ (StatementScans T) (HeaderStatement.typeAlias ⟨name, ps, t, line⟩) ht

theorem exportStatement_gives : Gives (exportStatement line) (StatementScans T) :=
  (Gives.ofCarries fun _ => expectWord_carries fenced_nil "default").bind fun _ _ =>
    hT.bind fun t ht => @Gives.pure _ (StatementScans T) (HeaderStatement.exportDefault ⟨t, line⟩) ht

theorem valueStatement_gives : Gives (valueStatement line) (StatementScans T) := by
  intro ts s rest hts h
  unfold valueStatement at h
  split at h
  · rename_i name start ts
    have hdeclared : Gives (fun ts => Signature.expect .colon ts >>= fun colon =>
        readType colon.2 >>= fun t => .ok (HeaderStatement.value ⟨name, t.1, line⟩, t.2))
        (StatementScans T) :=
      (Gives.expect .colon).bind fun _ _ => hT.bind fun t ht =>
        @Gives.pure _ (StatementScans T) (HeaderStatement.value ⟨name, t, line⟩) ht
    exact hdeclared ts s rest hts.tail h
  · cases h

theorem statement_gives : Gives (statement line) (StatementScans T) := by
  intro ts s rest hts h
  unfold statement at h
  split at h
  · exact valueStatement_gives hT ts s rest hts h
  · split at h
    · rename_i himport
      exact importStatement_gives _ s rest (hts.eatWord? himport) h
    · rename_i htype _
      exact aliasStatement_gives hT _ s rest (hts.eatWord? htype) h
    · rename_i hexport _ _
      exact exportStatement_gives hT _ s rest (hts.eatWord? hexport) h
    · exact valueStatement_gives hT ts s rest hts h

theorem Stated.gives {lineOf : Nat → Nat} {ls : List Lexeme} {os : List (Lexeme × HeaderStatement)}
    (h : Stated lineOf ls os) (hls : AllScan ls) : ∀ o ∈ os, StatementScans T o.2 := by
  induction h with
  | done => exact nofun
  | semicolon _ _ ih => exact ih hls.tail
  | statement _ hs _ ih =>
    obtain ⟨hscans, hrest⟩ := statement_gives hT _ _ _ hls hs
    exact List.forall_mem_cons.mpr ⟨hscans, ih hrest⟩

end Statements
end Signature

open Signature

/-- What holds of every type that is read holds of every type of a header that is read, and the names
that it imports are names. -/
theorem parseHeaderAt_gives {T : Ty → Prop} (hT : Gives readType T) {text : String} {first : Nat}
    {header : Header} (h : parseHeaderAt text first = .ok header) :
    ∀ s ∈ header.statements, StatementScans T s := by
  obtain ⟨ls, os, hsplits, hstated, hheader⟩ := parseHeaderAt_iff.mp h
  intro s hs
  rw [hheader] at hs
  obtain ⟨o, ho, rfl⟩ := List.mem_map.mp hs
  exact hstated.gives hT (scans_of_tokenize (tokenize_iff.mpr hsplits)) o ho

/-- **Every header that is read is tidy.** -/
theorem parseHeaderAt_tidy {text : String} {first : Nat} {header : Header}
    (h : parseHeaderAt text first = .ok header) : header.Tidy := by
  have hscans := parseHeaderAt_gives readType_gives h
  intro s hs
  cases s with
  | importNames _ => trivial
  | _ => exact (hscans _ hs).tidy

end Countersign
