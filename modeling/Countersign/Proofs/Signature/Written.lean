/-
# Types as they are written

What reading ensures of every node of the type it gives: names are names of the signature language
and mean what the table of built-in classes says, values are values as written, unions and
intersections have at least two members, no object repeats a field, no parameter is named like the
receiver, and what a module exports is not part of the language.

Key definitions: `NodeWritten`, `Written`.
Key theorems: `parseType_written`.
-/
import Countersign.Signature.Parser
import Countersign.Proofs.Signature.Spelling
import Countersign.Proofs.Ty.Parts

namespace Countersign

/-- A computation that succeeds does so through its first step. -/
theorem ok_of_bind {ε α β : Type} {x : Except ε α} {f : α → Except ε β} {b : β}
    (h : (x >>= f) = .ok b) : ∃ a, x = .ok a ∧ f a = .ok b := by
  cases x with
  | error e => cases h
  | ok a => exact ⟨a, rfl, h⟩

theorem ok_of_isOk {ε α : Type} {x : Except ε α} (h : x.isOk = true) : ∃ a, x = .ok a := by
  cases x with
  | error e => cases h
  | ok a => exact ⟨a, rfl⟩

theorem error_of_isOk {ε α : Type} {x : Except ε α} (h : x.isOk = false) : ∃ e, x = .error e := by
  cases x with
  | error e => exact ⟨e, rfl⟩
  | ok a => cases h

theorem ok_of_any {ε α : Type} {x : Except ε α} {p : α → Bool} (h : x.toOption.any p = true) :
    ∃ a, x = .ok a ∧ p a = true := by
  cases x with
  | error e => cases h
  | ok a => exact ⟨a, rfl, h⟩

namespace Signature

/-- What reading ensures of the outermost node of a type. -/
def NodeWritten : Ty → Prop
  | .named c => c = .resolve c.name ∧ (Token.name c.name).Scans
  | .value v => (Token.value v).Scans
  | .renamed n s =>
    n = .user n.name ∧ (Token.name n.name).Scans ∧ s = .resolve s.name ∧ (Token.name s.name).Scans
  | .function ps _ _ => ∀ p ∈ ps, ∀ n ∈ p.1, (Token.name n).Scans ∧ n ≠ "this"
  | .object fs => (fs.map (·.1)).Nodup
  | .union ms => 2 ≤ ms.length
  | .intersection ms => 2 ≤ ms.length
  | .generic _ as => as ≠ []
  | .tuple _ => True
  | .moduleExports _ => False

/-- What reading ensures of a type. -/
def Written (t : Ty) : Prop := ∀ u ∈ t.parts, NodeWritten u

theorem written_iff {t : Ty} : Written t ↔ NodeWritten t ∧ ∀ u ∈ t.children, Written u := by
  constructor
  · intro h
    exact ⟨h t t.mem_parts_self, fun u hu v hv => h v (Ty.parts_subset_of_mem_children hu hv)⟩
  · rintro ⟨hnode, hchildren⟩ v hv
    rcases Ty.mem_parts_iff.mp hv with rfl | ⟨u, hu, hv⟩
    · exact hnode
    · exact hchildren u hu v hv

/-! ### What each rule gives -/

/-- All the tokens can be written again. -/
def AllScan (ts : List Lexeme) : Prop := ∀ l ∈ ts, l.token.Scans

/-- From tokens that can be written again, `item` gives only what satisfies `P`, and leaves such
tokens. -/
def Gives {α : Type} (item : Reads α) (P : α → Prop) : Prop :=
  ∀ ts a rest, AllScan ts → item ts = .ok (a, rest) → P a ∧ AllScan rest

variable {α : Type} {P : α → Prop}

theorem AllScan.tail {l : Lexeme} {ts : List Lexeme} (h : AllScan (l :: ts)) : AllScan ts :=
  fun m hm => h m (List.mem_cons_of_mem _ hm)

theorem AllScan.head {l : Lexeme} {ts : List Lexeme} (h : AllScan (l :: ts)) : l.token.Scans :=
  h l List.mem_cons_self

theorem eat?_some {p : Punct} {ts rest : List Lexeme} (h : eat? p ts = some rest) :
    ∃ start, ts = ⟨.punct p, start⟩ :: rest := by
  unfold eat? at h
  split at h
  · split at h
    · rename_i q start rest hq
      cases h
      exact ⟨start, by rw [hq]⟩
    · simp at h
  · simp at h

theorem eatWord?_some {w : String} {ts rest : List Lexeme} (h : eatWord? w ts = some rest) :
    ∃ start, ts = ⟨.name w, start⟩ :: rest := by
  unfold eatWord? at h
  split at h
  · split at h
    · rename_i s start rest hs
      cases h
      exact ⟨start, by rw [beq_iff_eq.mp hs]⟩
    · simp at h
  · simp at h

theorem expect_ok {p : Punct} {ts rest : List Lexeme} {u : Unit} (h : expect p ts = .ok (u, rest)) :
    ∃ start, ts = ⟨.punct p, start⟩ :: rest := by
  unfold expect at h
  split at h
  · rename_i more heat
    cases h
    exact eat?_some heat
  · simp at h

theorem AllScan.expect {p : Punct} {ts rest : List Lexeme} {u : Unit} (h : AllScan ts)
    (hp : expect p ts = .ok (u, rest)) : AllScan rest := by
  obtain ⟨start, rfl⟩ := expect_ok hp
  exact h.tail

theorem identifier_gives : Gives identifier fun s => (Token.name s).Scans := by
  intro ts s rest hts h
  unfold identifier at h
  split at h
  · cases h
    exact ⟨hts.head, hts.tail⟩
  · simp at h

theorem further_gives {p : Punct} {item : Reads α} (hitem : Gives item P) (limit : Nat) :
    Gives (further p item limit) fun as => ∀ a ∈ as, P a := by
  induction limit with
  | zero =>
    intro ts as rest hts h
    cases h
    exact ⟨by simp, hts⟩
  | succ limit ih =>
    intro ts as rest hts h
    rw [further] at h
    split at h
    · cases h
      exact ⟨by simp, hts⟩
    · rename_i ts' heat
      obtain ⟨start, rfl⟩ := eat?_some heat
      obtain ⟨⟨a, ts₁⟩, ha, h⟩ := ok_of_bind h
      obtain ⟨hPa, hts₁⟩ := hitem _ _ _ hts.tail ha
      obtain ⟨⟨more, ts₂⟩, hmore, h⟩ := ok_of_bind h
      obtain ⟨hPmore, hts₂⟩ := ih _ _ _ hts₁ hmore
      cases h
      exact ⟨List.forall_mem_cons.mpr ⟨hPa, hPmore⟩, hts₂⟩

theorem sepBy_gives {p : Punct} {item : Reads α} (hitem : Gives item P) :
    Gives (sepBy p item) fun as => as ≠ [] ∧ ∀ a ∈ as, P a := by
  intro ts as rest hts h
  obtain ⟨⟨a, ts₁⟩, ha, h⟩ := ok_of_bind h
  obtain ⟨hPa, hts₁⟩ := hitem _ _ _ hts ha
  obtain ⟨⟨more, ts₂⟩, hmore, h⟩ := ok_of_bind h
  obtain ⟨hPmore, hts₂⟩ := further_gives hitem _ _ _ _ hts₁ hmore
  cases h
  exact ⟨⟨by simp, List.forall_mem_cons.mpr ⟨hPa, hPmore⟩⟩, hts₂⟩

theorem AllScan.skipSeparator {ts : List Lexeme} (h : AllScan ts) : AllScan (skipSeparator ts) := by
  unfold Signature.skipSeparator
  split
  · rename_i rest heat
    obtain ⟨start, rfl⟩ := eat?_some heat
    exact h.tail
  · cases heat : eat? .semicolon ts with
    | none => exact h
    | some rest =>
      obtain ⟨start, rfl⟩ := eat?_some heat
      exact h.tail

theorem fieldName_gives : Gives fieldName fun _ => True := by
  intro ts name rest hts h
  unfold fieldName at h
  split at h
  · cases h
    exact ⟨trivial, hts.tail⟩
  · split at h
    · cases h
      exact ⟨trivial, hts.tail⟩
    · simp at h
  · simp at h

/-- Fields that reading gives: each name once, each type written. -/
def FieldsWritten (fs : List (String × Ty)) : Prop :=
  (fs.map (·.1)).Nodup ∧ ∀ f ∈ fs, Written f.2

theorem FieldsWritten.append {fs : List (String × Ty)} (h : FieldsWritten fs) {name : String}
    {t : Ty} (hname : fs.any (·.1 == name) = false) (ht : Written t) :
    FieldsWritten (fs ++ [(name, t)]) := by
  constructor
  · rw [List.map_append, List.nodup_append]
    refine ⟨h.1, by simp, ?_⟩
    intro m hm n hn
    obtain ⟨f, hf, rfl⟩ := List.mem_map.mp hm
    obtain rfl : n = name := by simpa using hn
    exact by simpa using List.any_eq_false.mp hname f hf
  · intro f hf
    rcases List.mem_append.mp hf with hf | hf
    · exact h.2 f hf
    · obtain rfl : f = (name, t) := by simpa using hf
      exact ht

/-- One more field, step by step. -/
theorem fields_succ (sub : Reads Ty) (limit : Nat) (done : List (String × Ty))
    (ts : List Lexeme) : fields sub (limit + 1) done ts =
      if atPunct .closeBrace ts then .ok (done, ts)
      else fieldName ts >>= fun name =>
        if done.any (·.1 == name.1) then .error ⟨[.uniqueFieldName], name.2⟩
        else expect .colon name.2 >>= fun colon => sub colon.2 >>= fun t =>
          fields sub limit (done ++ [(name.1, t.1)]) (skipSeparator t.2) := by
  rw [fields]
  split
  · rfl
  · refine congrArg (fieldName ts >>= ·) (funext fun name => ?_)
    by_cases h : done.any (·.1 == name.1) = true
    · simp only [h, if_true]
      rfl
    · simp only [h]
      rfl

theorem fields_gives {sub : Reads Ty} (hsub : Gives sub Written) (limit : Nat) :
    ∀ done, FieldsWritten done → Gives (fields sub limit done) FieldsWritten := by
  induction limit with
  | zero =>
    intro done hdone ts fs rest hts h
    cases h
    exact ⟨hdone, hts⟩
  | succ limit ih =>
    intro done hdone ts fs rest hts h
    rw [fields_succ] at h
    split at h
    · cases h
      exact ⟨hdone, hts⟩
    · obtain ⟨⟨name, ts₁⟩, hname, h⟩ := ok_of_bind h
      have hts₁ := (fieldName_gives _ _ _ hts hname).2
      simp only at h
      split at h
      · cases h
      · rename_i hnew
        obtain ⟨⟨u, ts₂⟩, hcolon, h⟩ := ok_of_bind h
        obtain ⟨⟨t, ts₃⟩, ht, h⟩ := ok_of_bind h
        obtain ⟨htw, hts₃⟩ := hsub _ _ _ (hts₁.expect hcolon) ht
        exact ih _ (hdone.append (Bool.eq_false_iff.mpr hnew) htw) _ _ _ hts₃.skipSeparator h

theorem object_gives {sub : Reads Ty} (hsub : Gives sub Written) : Gives (object sub) Written := by
  intro ts t rest hts h
  obtain ⟨⟨fs, ts₁⟩, hfs, h⟩ := ok_of_bind h
  obtain ⟨hfsw, hts₁⟩ := fields_gives hsub _ [] ⟨by simp, by simp⟩ _ _ _ hts hfs
  obtain ⟨⟨u, ts₂⟩, hclose, h⟩ := ok_of_bind h
  cases h
  refine ⟨written_iff.mpr ⟨hfsw.1, fun u hu => ?_⟩, hts₁.expect hclose⟩
  obtain ⟨f, hf, rfl⟩ := List.mem_map.mp hu
  exact hfsw.2 f hf

/-- The items of a tuple up to the closing bracket. -/
def tupleItems (sub : Reads Ty) : Reads (List Ty) := fun ts =>
  if atPunct .closeBracket ts then .ok ([], ts) else sepBy .comma sub ts

theorem tuple_eq (sub : Reads Ty) (ts : List Lexeme) : tuple sub ts =
    tupleItems sub ts >>= fun items => expect .closeBracket items.2 >>= fun close =>
      .ok (.tuple items.1, close.2) := by
  unfold tuple tupleItems
  split <;> rfl

theorem tuple_gives {sub : Reads Ty} (hsub : Gives sub Written) : Gives (tuple sub) Written := by
  intro ts t rest hts h
  rw [tuple_eq] at h
  obtain ⟨⟨items, ts₁⟩, hitems, h⟩ := ok_of_bind h
  have hgiven : (∀ u ∈ items, Written u) ∧ AllScan ts₁ := by
    unfold tupleItems at hitems
    split at hitems
    · cases hitems
      exact ⟨by simp, hts⟩
    · obtain ⟨hw, hts₁⟩ := sepBy_gives hsub _ _ _ hts hitems
      exact ⟨hw.2, hts₁⟩
  obtain ⟨⟨u, ts₂⟩, hclose, h⟩ := ok_of_bind h
  cases h
  exact ⟨written_iff.mpr ⟨trivial, hgiven.1⟩, hgiven.2.expect hclose⟩

/-- Parameters that reading gives: names that are not the receiver's, and types as written. -/
def ParamsWritten (ps : Params) : Prop :=
  (∀ t ∈ ps.receiver, Written t) ∧
    ∀ p ∈ ps.positional, (∀ n ∈ p.1, (Token.name n).Scans ∧ n ≠ "this") ∧ Written p.2

theorem ParamsWritten.append {ps : Params} (h : ParamsWritten ps) {name : Option String} {t : Ty}
    (hname : ∀ n ∈ name, (Token.name n).Scans ∧ n ≠ "this") (ht : Written t) :
    ParamsWritten { ps with positional := ps.positional ++ [(name, t)] } := by
  refine ⟨h.1, fun p hp => ?_⟩
  rcases List.mem_append.mp hp with hp | hp
  · exact h.2 p hp
  · obtain rfl : p = (name, t) := by simpa using hp
    exact ⟨hname, ht⟩

/-- The receiver's name before a colon is always taken for the receiver. -/
theorem ne_this_of_eatReceiver? {s : String} {i j : Nat} {rest : List Lexeme}
    (h : eatReceiver? (⟨.name s, i⟩ :: ⟨.punct .colon, j⟩ :: rest) = none) : s ≠ "this" := by
  rintro rfl
  simp [eatReceiver?, eatWord?, eat?] at h

theorem param_gives {sub : Reads Ty} (hsub : Gives sub Written) {done : Params}
    (hdone : ParamsWritten done) : Gives (param sub done) ParamsWritten := by
  intro ts ps rest hts h
  unfold param at h
  split at h
  · rename_i ts₁ heat
    split at h
    · simp at h
    · have hts₁ : AllScan ts₁ := by
        obtain ⟨ts₂, hword, hcolon⟩ := Option.bind_eq_some_iff.mp heat
        obtain ⟨_, rfl⟩ := eatWord?_some hword
        obtain ⟨_, rfl⟩ := eat?_some hcolon
        exact hts.tail.tail
      obtain ⟨⟨t, ts₂⟩, ht, h⟩ := ok_of_bind h
      obtain ⟨htw, hts₂⟩ := hsub _ _ _ hts₁ ht
      cases h
      refine ⟨⟨fun u hu => ?_, hdone.2⟩, hts₂⟩
      obtain rfl : t = u := by simpa using hu
      exact htw
  · rename_i hnone
    split at h
    · obtain ⟨⟨t, ts₂⟩, ht, h⟩ := ok_of_bind h
      obtain ⟨htw, hts₂⟩ := hsub _ _ _ hts.tail.tail ht
      cases h
      refine ⟨hdone.append (fun n hn => ?_) htw, hts₂⟩
      obtain rfl := Option.some.inj hn
      exact ⟨hts.head, ne_this_of_eatReceiver? hnone⟩
    · obtain ⟨⟨t, ts₂⟩, ht, h⟩ := ok_of_bind h
      obtain ⟨htw, hts₂⟩ := hsub _ _ _ hts ht
      cases h
      exact ⟨hdone.append (by simp) htw, hts₂⟩

theorem params_gives {sub : Reads Ty} (hsub : Gives sub Written) (limit : Nat) :
    ∀ done, ParamsWritten done → Gives (params sub limit done) ParamsWritten := by
  induction limit with
  | zero =>
    intro done hdone ts ps rest hts h
    cases h
    exact ⟨hdone, hts⟩
  | succ limit ih =>
    intro done hdone ts ps rest hts h
    obtain ⟨⟨done', ts₁⟩, hparam, h⟩ := ok_of_bind h
    obtain ⟨hdone', hts₁⟩ := param_gives hsub hdone _ _ _ hts hparam
    simp only at h
    split at h
    · rename_i rest' heat
      obtain ⟨start, rfl⟩ := eat?_some heat
      exact ih done' hdone' _ _ _ hts₁.tail h
    · cases h
      exact ⟨hdone', hts₁⟩

/-- The parameters of a function up to the closing parenthesis. -/
def paramList (sub : Reads Ty) : Reads Params := fun ts =>
  if atPunct .closeParen ts then .ok (⟨none, []⟩, ts)
  else params sub (ts.length + 1) ⟨none, []⟩ ts

/-- What parameters and what follows them make: a function before an arrow, a group otherwise. -/
def functionOrGroupTail (sub : Reads Ty) (ps : Params) : Reads Ty := fun ts =>
  match eat? .arrow ts with
  | some rest => sub rest >>= fun result => .ok (.function ps.positional result.1 ps.receiver, result.2)
  | none =>
    match ps with
    | ⟨none, [(none, t)]⟩ => .ok (t, ts)
    | _ => .error ⟨[.punct .arrow], ts⟩

theorem functionOrGroup_eq (sub : Reads Ty) (ts : List Lexeme) : functionOrGroup sub ts =
    paramList sub ts >>= fun ps => expect .closeParen ps.2 >>= fun close =>
      functionOrGroupTail sub ps.1 close.2 := by
  unfold functionOrGroup paramList
  split <;> rfl

theorem functionOrGroup_gives {sub : Reads Ty} (hsub : Gives sub Written) :
    Gives (functionOrGroup sub) Written := by
  intro ts t rest hts h
  rw [functionOrGroup_eq] at h
  obtain ⟨⟨ps, ts₁⟩, hps, h⟩ := ok_of_bind h
  have hgiven : ParamsWritten ps ∧ AllScan ts₁ := by
    unfold paramList at hps
    split at hps
    · cases hps
      exact ⟨⟨by simp, by simp⟩, hts⟩
    · exact params_gives hsub _ _ ⟨by simp, by simp⟩ _ _ _ hts hps
  obtain ⟨⟨u, ts₂⟩, hclose, h⟩ := ok_of_bind h
  have hts₂ := hgiven.2.expect hclose
  unfold functionOrGroupTail at h
  split at h
  · rename_i rest' heat
    obtain ⟨start, rfl⟩ := eat?_some heat
    obtain ⟨⟨result, ts₃⟩, hresult, h⟩ := ok_of_bind h
    obtain ⟨hresultw, hts₃⟩ := hsub _ _ _ hts₂.tail hresult
    cases h
    refine ⟨written_iff.mpr ⟨fun p hp => (hgiven.1.2 p hp).1, fun u hu => ?_⟩, hts₃⟩
    rw [Ty.children, List.mem_append, List.mem_cons, Option.mem_toList] at hu
    rcases hu with hu | rfl | hu
    · obtain ⟨p, hp, rfl⟩ := List.mem_map.mp hu
      exact (hgiven.1.2 p hp).2
    · exact hresultw
    · exact hgiven.1.1 u hu
  · split at h
    · rename_i hgroup
      cases h
      obtain rfl : ps = ⟨none, [(none, t)]⟩ := hgroup
      exact ⟨(hgiven.1.2 _ (List.mem_singleton_self _)).2, hts₂⟩
    · cases h

theorem className_gives {name : String} (hname : (Token.name name).Scans) :
    Gives (className name) Written := by
  intro ts t rest hts h
  unfold className at h
  split at h
  · rename_i rest' heat
    obtain ⟨start, rfl⟩ := eatWord?_some heat
    obtain ⟨⟨newName, ts₁⟩, hnew, h⟩ := ok_of_bind h
    obtain ⟨hscans, hts₁⟩ := identifier_gives _ _ _ hts.tail hnew
    cases h
    exact ⟨written_iff.mpr ⟨⟨rfl, hscans, rfl, hname⟩, by simp [Ty.children]⟩, hts₁⟩
  · cases h
    exact ⟨written_iff.mpr ⟨⟨rfl, hname⟩, by simp [Ty.children, Ty.ofName]⟩, hts⟩

theorem primary_gives {sub : Reads Ty} (hsub : Gives sub Written) :
    Gives (primary sub) Written := by
  intro ts t rest hts h
  unfold primary at h
  split at h
  · cases h
    exact ⟨written_iff.mpr ⟨hts.head, by simp [Ty.children]⟩, hts.tail⟩
  · exact className_gives hts.head _ _ _ hts.tail h
  · exact object_gives hsub _ _ _ hts.tail h
  · exact tuple_gives hsub _ _ _ hts.tail h
  · exact functionOrGroup_gives hsub _ _ _ hts.tail h
  · cases h

theorem applied_gives {sub : Reads Ty} (hsub : Gives sub Written) :
    Gives (applied sub) Written := by
  intro ts t rest hts h
  obtain ⟨⟨base, ts₁⟩, hbase, h⟩ := ok_of_bind h
  obtain ⟨hbasew, hts₁⟩ := primary_gives hsub _ _ _ hts hbase
  simp only at h
  split at h
  · cases h
    exact ⟨hbasew, hts₁⟩
  · rename_i ts₂ heat
    obtain ⟨start, rfl⟩ := eat?_some heat
    obtain ⟨⟨args, ts₃⟩, hargs, h⟩ := ok_of_bind h
    obtain ⟨⟨hne, hargsw⟩, hts₃⟩ := sepBy_gives hsub _ _ _ hts₁.tail hargs
    obtain ⟨⟨u, ts₄⟩, hclose, h⟩ := ok_of_bind h
    cases h
    exact ⟨written_iff.mpr ⟨hne, List.forall_mem_cons.mpr ⟨hbasew, hargsw⟩⟩, hts₃.expect hclose⟩

/-- A single member stands for itself, and several are as many as are wanted. -/
theorem written_intersectionOf {members : List Ty} (hne : members ≠ [])
    (h : ∀ t ∈ members, Written t) : Written (.intersectionOf members) := by
  unfold Ty.intersectionOf
  split
  · exact h _ (List.mem_singleton_self _)
  · rename_i hsingle
    refine written_iff.mpr ⟨?_, h⟩
    match members, hne, hsingle with
    | [t], _, hsingle => exact absurd rfl (hsingle t)
    | _ :: _ :: _, _, _ => simp [NodeWritten]

theorem written_unionOf {members : List Ty} (hne : members ≠ [])
    (h : ∀ t ∈ members, Written t) : Written (.unionOf members) := by
  unfold Ty.unionOf
  split
  · exact h _ (List.mem_singleton_self _)
  · rename_i hsingle
    refine written_iff.mpr ⟨?_, h⟩
    match members, hne, hsingle with
    | [t], _, hsingle => exact absurd rfl (hsingle t)
    | _ :: _ :: _, _, _ => simp [NodeWritten]

theorem intersection_gives {sub : Reads Ty} (hsub : Gives sub Written) :
    Gives (intersection sub) Written := by
  intro ts t rest hts h
  obtain ⟨⟨members, ts₁⟩, hmembers, h⟩ := ok_of_bind h
  obtain ⟨⟨hne, hw⟩, hts₁⟩ := sepBy_gives (applied_gives hsub) _ _ _ hts hmembers
  cases h
  exact ⟨written_intersectionOf hne hw, hts₁⟩

theorem union_gives {sub : Reads Ty} (hsub : Gives sub Written) : Gives (union sub) Written := by
  intro ts t rest hts h
  obtain ⟨⟨members, ts₁⟩, hmembers, h⟩ := ok_of_bind h
  obtain ⟨⟨hne, hw⟩, hts₁⟩ := sepBy_gives (intersection_gives hsub) _ _ _ hts hmembers
  cases h
  exact ⟨written_unionOf hne hw, hts₁⟩

theorem typeAt_gives : ∀ depth, Gives (typeAt depth) Written
  | 0 => fun _ _ _ _ h => by cases h
  | depth + 1 => union_gives (typeAt_gives depth)

/-- **Every type that is read is a written one.** -/
theorem parseType_written {text : String} {t : Ty} (h : parseType text = .ok t) : Written t := by
  obtain ⟨c, hc, h⟩ := ok_of_bind h
  unfold Cursor.ofText at hc
  split at hc
  · rename_i ts hts
    cases hc
    unfold Cursor.read at h
    split at h
    · rename_i u rest hread
      cases h
      obtain ⟨⟨v, ts₁⟩, hv, hend⟩ := ok_of_bind hread
      obtain ⟨⟨_, ts₂⟩, -, hlast⟩ := ok_of_bind hend
      cases hlast
      exact (typeAt_gives _ _ _ _ (scans_of_tokenize hts) hv).1
    · cases h
  · cases hc

end Signature
end Countersign
