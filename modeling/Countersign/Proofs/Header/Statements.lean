/-
# The statements of a header

The statements of a list of tokens without the bound on their number, each with the token that it
begins with (`Stated`). A statement is read off its tokens alike when these are moved and more
follow behind a semicolon, and on another line it is the same but for that line; and the one
semicolon that a statement may end with is no different from those that stand between statements.

Key definitions: `HeaderStatement.withLine`, `Relined`, `OnLine`, `Stated`.
Key theorems: `statement_carries`, `statement_relined`, `statements_iff`, `parseHeaderAt_iff`,
`Stated.line`.
-/
import Countersign.Proofs.Signature.Continued
import Countersign.Header.Reader

namespace Countersign
namespace Signature

/-! ### Statements with more behind them -/

section Statements

variable {k n : Nat} {more : List Lexeme}

theorem importName_carries (hmore : Fenced more) : Carries k more n importName importName := by
  refine identifier_carries.bind fun name => ?_
  refine .look (looks_eatWord? hmore "as") (fun m _ => ?_) (.pure (ImportName.mk name none))
  exact identifier_carries.bind fun newName => .pure (ImportName.mk name (some newName))

theorem importNames_carries (hmore : Fenced more) : ∀ m limit limit', m < limit → limit ≤ limit' →
    Carries k more m (importNames limit) (importNames limit') := by
  intro m
  induction m using Nat.strong_induction_on with
  | _ m ih =>
    intro limit limit' hlimit hlimit'
    obtain ⟨limit, rfl⟩ := Nat.exists_eq_succ_of_ne_zero (by omega : limit ≠ 0)
    obtain ⟨limit', rfl⟩ := Nat.exists_eq_succ_of_ne_zero (by omega : limit' ≠ 0)
    refine .ifAt hmore (p := .closeBrace) (by decide) (.pure []) ?_
    refine (importName_carries hmore).bind fun name => ?_
    refine .look (looks_eat? hmore (p := .comma) (by decide)) (fun m' hm' => ?_) (.pure [name])
    exact (ih m' hm' limit limit' (by omega) (by omega)).bind fun names => .pure (name :: names)

theorem modulePath_carries : Carries k more n modulePath modulePath := by
  intro ls path rest _ h
  unfold modulePath at h
  split at h
  · rename_i v start ls
    split at h
    · rename_i hkind
      cases h
      refine ⟨List.suffix_cons _ _, ?_⟩
      rw [carried_cons, modulePath, if_pos hkind]
    · cases h
  · cases h

theorem importStatement_carries (hmore : Fenced more) (line : Nat) :
    Carries k more n (importStatement line) (importStatement line) := by
  have hnames : ∀ n, Carries k more n (fun ts => importNames (ts.length + 1) ts)
      (fun ts => importNames (ts.length + 1) ts) := fun n =>
    .bounded fun m limit limit' hm hlimit =>
      importNames_carries hmore m (limit + 1) (limit' + 1) (by omega) (by omega)
  refine .expect hmore (by decide) fun m _ => (hnames m).bind fun names => ?_
  refine .expect hmore (by decide) fun m' _ => (expectWord_carries hmore "from").bind fun _ => ?_
  exact modulePath_carries.bind fun path => .pure (HeaderStatement.importNames ⟨names, path, line⟩)

theorem aliasParams_eq : aliasParams = fun ts => match eat? .less ts with
    | some rest => sepBy .comma identifier rest >>= fun ps => expect .greater ps.2 >>= fun close =>
      .ok (ps.1, close.2)
    | none => .ok ([], ts) := by
  funext ts
  unfold aliasParams
  cases eat? .less ts <;> rfl

theorem aliasParams_carries (hmore : Fenced more) : Carries k more n aliasParams aliasParams := by
  rw [aliasParams_eq]
  refine .look (looks_eat? hmore (by decide)) (fun m _ => ?_) (.pure [])
  refine (sepBy_carries hmore (by decide) fun _ => identifier_carries).bind fun ps => ?_
  dsimp only
  exact .expect hmore (by decide) fun _ _ => .pure ps

theorem aliasStatement_carries (hmore : Fenced more) (line : Nat) :
    Carries k more n (aliasStatement line) (aliasStatement line) := by
  refine identifier_carries.bind fun name => (aliasParams_carries hmore).bind fun ps => ?_
  refine .expect hmore (p := .colon) (by decide) fun m _ => ?_
  exact (readType_carries hmore).bind fun t => .pure (HeaderStatement.typeAlias ⟨name, ps, t, line⟩)

theorem exportStatement_carries (hmore : Fenced more) (line : Nat) :
    Carries k more n (exportStatement line) (exportStatement line) := by
  refine (expectWord_carries hmore "default").bind fun _ => ?_
  exact (readType_carries hmore).bind fun t => .pure (HeaderStatement.exportDefault ⟨t, line⟩)

/-- A declaration after its name. -/
theorem declared_carries (hmore : Fenced more) (s : String) (line : Nat) :
    Carries k more n
      (fun ts => expect .colon ts >>= fun colon => readType colon.2 >>= fun t =>
        .ok (HeaderStatement.value ⟨s, t.1, line⟩, t.2))
      (fun ts => expect .colon ts >>= fun colon => readType colon.2 >>= fun t =>
        .ok (HeaderStatement.value ⟨s, t.1, line⟩, t.2)) := by
  refine .expect hmore (by decide) fun m _ => ?_
  exact (readType_carries hmore).bind fun t => .pure (HeaderStatement.value ⟨s, t, line⟩)

theorem valueStatement_carries (hmore : Fenced more) (line : Nat) {l : Lexeme}
    {ls rest : List Lexeme} {s : HeaderStatement}
    (h : valueStatement line (l :: ls) = .ok (s, rest)) :
    rest <:+ ls ∧ valueStatement line (carried k more (l :: ls)) = .ok (s, carried k more rest) := by
  obtain ⟨t, start⟩ := l
  cases t with
  | name name => exact declared_carries hmore name line ls s rest (Nat.le_refl _) h
  | _ => cases h

/-- A statement after the word that opens it. -/
theorem opened_carries (hmore : Fenced more) {w : String} {item : Reads HeaderStatement}
    (hitem : ∀ n, Carries k more n item item) {l : Lexeme} {ls ls₁ rest : List Lexeme}
    {s : HeaderStatement} (hword : eatWord? w (l :: ls) = some ls₁)
    (h : item ls₁ = .ok (s, rest)) :
    rest <:+ ls ∧ item (carried k more ls₁) = .ok (s, carried k more rest) := by
  obtain ⟨hsuffix, hlt⟩ := (looks_eatWord? (k := k) hmore w (l :: ls)).2 ls₁ hword
  obtain ⟨hsuffix', hread⟩ := hitem _ ls₁ s rest (Nat.le_refl _) h
  refine ⟨hsuffix'.trans ?_, hread⟩
  rcases List.suffix_cons_iff.mp hsuffix with rfl | hsuffix
  · exact absurd hlt (Nat.lt_irrefl _)
  · exact hsuffix

/-- A statement takes its first token, and is the same when more follows its tokens. -/
theorem statement_carries (hmore : Fenced more) (line : Nat) {l : Lexeme} {ls rest : List Lexeme}
    {s : HeaderStatement} (h : statement line (l :: ls) = .ok (s, rest)) :
    rest <:+ ls ∧ statement line (carried k more (l :: ls)) = .ok (s, carried k more rest) := by
  have hcolon : atPunct .colon ((carried k more (l :: ls)).drop 1) =
      atPunct .colon ((l :: ls).drop 1) :=
    atPunct_carried hmore (by decide) ls
  have hword := fun w => (looks_eatWord? (k := k) hmore w (l :: ls)).1
  unfold statement at h ⊢
  rw [hcolon, hword "import", hword "type", hword "export"]
  split at h
  · rename_i hat
    rw [if_pos hat]
    exact valueStatement_carries hmore line h
  · rename_i hat
    rw [if_neg hat]
    cases himport : eatWord? "import" (l :: ls) with
    | some ls₁ =>
      rw [himport] at h
      exact opened_carries hmore (fun _ => importStatement_carries hmore line) himport h
    | none =>
      cases htype : eatWord? "type" (l :: ls) with
      | some ls₁ =>
        rw [himport, htype] at h
        exact opened_carries hmore (fun _ => aliasStatement_carries hmore line) htype h
      | none =>
        cases hexport : eatWord? "export" (l :: ls) with
        | some ls₁ =>
          rw [himport, htype, hexport] at h
          exact opened_carries hmore (fun _ => exportStatement_carries hmore line) hexport h
        | none =>
          rw [himport, htype, hexport] at h
          exact valueStatement_carries hmore line h

end Statements

end Signature

/-! ### Lines of statements -/

/-- The statement on another line. -/
def HeaderStatement.withLine (line : Nat) : HeaderStatement → HeaderStatement
  | importNames s => importNames { s with line }
  | typeAlias s => typeAlias { s with line }
  | exportDefault s => exportDefault { s with line }
  | value s => value { s with line }

@[simp]
theorem HeaderStatement.withLine_withLine (line line' : Nat) (s : HeaderStatement) :
    (s.withLine line').withLine line = s.withLine line := by
  cases s <;> rfl

theorem HeaderStatement.line_withLine (line : Nat) (s : HeaderStatement) :
    (s.withLine line).line = line := by
  cases s <;> rfl

namespace Signature

/-- What is read is a statement on a line. -/
def OnLine (line : Nat) (item : Reads HeaderStatement) : Prop :=
  ∀ ts s rest, item ts = .ok (s, rest) → s.line = line

/-- The second rule reads what the first one does, on another line. -/
def Relined (line : Nat) (item item' : Reads HeaderStatement) : Prop :=
  ∀ ts, item' ts = (item ts).map fun r => (r.1.withLine line, r.2)

section Relined

variable {line line' : Nat}

theorem Relined.pure (s : HeaderStatement) :
    Relined line (fun ts => .ok (s, ts)) (fun ts => .ok (s.withLine line, ts)) := fun _ => rfl

theorem Relined.bind {α : Type} {p : Reads α}
    {f f' : α × List Lexeme → Except Failure (HeaderStatement × List Lexeme)}
    (hf : ∀ a, Relined line (fun ts => f (a, ts)) (fun ts => f' (a, ts))) :
    Relined line (fun ts => p ts >>= f) (fun ts => p ts >>= f') := by
  intro ts
  show (p ts >>= f') = (p ts >>= f).map _
  cases p ts with
  | error e => rfl
  | ok r => exact hf r.1 r.2

theorem importStatement_relined :
    Relined line (importStatement line') (importStatement line) := by
  refine .bind fun _ => .bind (p := fun ts => importNames (ts.length + 1) ts) fun names => ?_
  exact .bind fun _ => .bind fun _ => .bind fun path => .pure (.importNames ⟨names, path, line'⟩)

theorem aliasStatement_relined : Relined line (aliasStatement line') (aliasStatement line) :=
  .bind fun name => .bind fun ps => .bind fun _ => .bind fun t =>
    .pure (.typeAlias ⟨name, ps, t, line'⟩)

theorem exportStatement_relined : Relined line (exportStatement line') (exportStatement line) :=
  .bind fun _ => .bind fun t => .pure (.exportDefault ⟨t, line'⟩)

theorem valueStatement_relined : Relined line (valueStatement line') (valueStatement line) := by
  intro ts
  unfold valueStatement
  split
  · rename_i s start rest
    have hdeclared : Relined line
        (fun ts => expect .colon ts >>= fun colon => readType colon.2 >>= fun t =>
          .ok (HeaderStatement.value ⟨s, t.1, line'⟩, t.2))
        (fun ts => expect .colon ts >>= fun colon => readType colon.2 >>= fun t =>
          .ok (HeaderStatement.value ⟨s, t.1, line⟩, t.2)) :=
      .bind fun _ => .bind fun t => .pure (.value ⟨s, t, line'⟩)
    exact hdeclared rest
  · rfl

/-- **A statement is read alike on every line.** -/
theorem statement_relined : Relined line (statement line') (statement line) := by
  intro ts
  unfold statement
  split
  · exact valueStatement_relined ts
  · split
    · exact importStatement_relined _
    · exact aliasStatement_relined _
    · exact exportStatement_relined _
    · exact valueStatement_relined ts

/-- A statement is on the line that it is given. -/
theorem statement_onLine : OnLine line (statement line) := by
  intro ts s rest h
  have hread : statement line ts = (statement line ts).map fun r => (r.1.withLine line, r.2) :=
    statement_relined ts
  -- Read on the line that it is given, the statement is the same on that line.
  rw [h] at hread
  have hsame : s = s.withLine line := congrArg Prod.fst (Except.ok.inj hread)
  rw [hsame, HeaderStatement.line_withLine]

end Relined

/-! ### All statements -/

/-- The tokens are statements, each with the token that it begins with, and semicolons between them;
`lineOf` gives the line of a token's offset. -/
inductive Stated (lineOf : Nat → Nat) : List Lexeme → List (Lexeme × HeaderStatement) → Prop
  | done : Stated lineOf [] []
  | semicolon {l : Lexeme} {ls : List Lexeme} {os : List (Lexeme × HeaderStatement)} :
      l.token = .punct .semicolon → Stated lineOf ls os → Stated lineOf (l :: ls) os
  | statement {l : Lexeme} {ls rest : List Lexeme} {s : HeaderStatement}
      {os : List (Lexeme × HeaderStatement)} : l.token ≠ .punct .semicolon →
      statement (lineOf l.start) (l :: ls) = .ok (s, rest) → Stated lineOf rest os →
        Stated lineOf (l :: ls) ((l, s) :: os)

namespace Stated

variable {lineOf : Nat → Nat} {ls : List Lexeme} {os : List (Lexeme × HeaderStatement)}

/-- The semicolon that a statement may end with is one of those between statements. -/
theorem skip_iff : Stated lineOf ((eat? .semicolon ls).getD ls) os ↔ Stated lineOf ls os := by
  cases heat : eat? .semicolon ls with
  | none => exact Iff.rfl
  | some rest =>
    obtain ⟨start, rfl⟩ := eat?_some heat
    constructor
    · exact fun h => .semicolon rfl h
    · intro h
      cases h with
      | semicolon _ hrest => exact hrest
      | statement hne _ _ => exact absurd rfl hne

/-- A statement begins with one of the tokens. -/
theorem mem {o : Lexeme × HeaderStatement} (h : Stated lineOf ls os) (ho : o ∈ os) : o.1 ∈ ls := by
  induction h with
  | done => exact absurd ho List.not_mem_nil
  | semicolon _ _ ih => exact List.mem_cons_of_mem _ (ih ho)
  | @statement l ls rest s os _ hs _ ih =>
    rcases List.mem_cons.mp ho with rfl | ho
    · exact List.mem_cons_self
    · have hsuffix := (statement_carries (k := 0) fenced_nil _ hs).1
      exact List.mem_cons_of_mem _ (hsuffix.subset (ih ho))

/-- The line of a statement is that of the token that it begins with. -/
theorem line {o : Lexeme × HeaderStatement} (h : Stated lineOf ls os) (ho : o ∈ os) :
    o.2.line = lineOf o.1.start := by
  induction h with
  | done => exact absurd ho List.not_mem_nil
  | semicolon _ _ ih => exact ih ho
  | statement _ hs _ ih =>
    rcases List.mem_cons.mp ho with rfl | ho
    · exact statement_onLine _ _ _ hs
    · exact ih ho

end Stated

theorem length_getD_le (ls : List Lexeme) : ((eat? .semicolon ls).getD ls).length ≤ ls.length := by
  cases heat : eat? .semicolon ls with
  | none => exact Nat.le_refl _
  | some rest =>
    obtain ⟨start, rfl⟩ := eat?_some heat
    exact Nat.le_succ _

/-- **The bound on the number of statements does not matter** where it exceeds the tokens. -/
theorem statements_iff {lineOf : Nat → Nat} {limit : Nat} {ls rest : List Lexeme}
    {ss : List HeaderStatement} (hlimit : ls.length < limit) :
    statements lineOf limit ls = .ok (ss, rest) ↔
      rest = [] ∧ ∃ os, Stated lineOf ls os ∧ ss = os.map (·.2) := by
  induction limit generalizing ls ss rest with
  | zero => exact absurd hlimit (Nat.not_lt_zero _)
  | succ limit ih =>
    cases ls with
    | nil =>
      constructor
      · intro h
        cases h
        exact ⟨rfl, [], .done, rfl⟩
      · rintro ⟨rfl, os, hstated, rfl⟩
        cases hstated
        rfl
    | cons l ls =>
      rw [List.length_cons] at hlimit
      rw [statements]
      split
      · rename_i hsemicolon
        rw [ih (by omega)]
        refine and_congr_right fun _ => exists_congr fun os => and_congr_left fun _ => ?_
        constructor
        · exact .semicolon hsemicolon
        · intro h
          cases h with
          | semicolon _ hrest => exact hrest
          | statement hne _ _ => exact absurd hsemicolon hne
      · rename_i hsemicolon
        have hshorter : ∀ {s ls₁}, statement (lineOf l.start) (l :: ls) = .ok (s, ls₁) →
            ((eat? .semicolon ls₁).getD ls₁).length < limit := by
          intro s ls₁ hs
          have hsuffix := (statement_carries (k := 0) fenced_nil _ hs).1.length_le
          have hskip := length_getD_le ls₁
          omega
        constructor
        · intro h
          obtain ⟨⟨s, ls₁⟩, hs, h⟩ := ok_of_bind h
          obtain ⟨⟨ss', ls₂⟩, hss, h⟩ := ok_of_bind h
          cases h
          obtain ⟨rfl, os, hstated, rfl⟩ := (ih (hshorter hs)).mp hss
          exact ⟨rfl, (l, s) :: os, .statement hsemicolon hs (Stated.skip_iff.mp hstated), rfl⟩
        · rintro ⟨rfl, os, hstated, rfl⟩
          cases hstated with
          | semicolon h _ => exact absurd h hsemicolon
          | @statement _ _ ls₁ s os _ hs hrest =>
            have hss := (ih (hshorter hs)).mpr ⟨rfl, os, Stated.skip_iff.mpr hrest, rfl⟩
            rw [hs]
            dsimp only [bind, Except.bind]
            rw [hss]
            rfl

end Signature

open Signature

/-- **A text is a header if it is split into tokens that are statements.** -/
theorem parseHeaderAt_iff {text : String} {first : Nat} {header : Header} :
    parseHeaderAt text first = .ok header ↔ ∃ ls os, Splits 0 text.toList ls ∧
      Stated (lineAt text.toList first) ls os ∧ header.statements = os.map (·.2) := by
  unfold parseHeaderAt Cursor.ofText
  constructor
  · intro h
    obtain ⟨c, hc, h⟩ := ok_of_bind h
    split at hc
    · rename_i ls hls
      cases hc
      obtain ⟨ss, hss, h⟩ := ok_of_bind h
      cases h
      unfold Cursor.read at hss
      split at hss
      · rename_i rest hread
        cases hss
        obtain ⟨-, os, hstated, rfl⟩ := (statements_iff (Nat.lt_succ_self _)).mp hread
        exact ⟨ls, os, tokenize_iff.mp hls, hstated, rfl⟩
      · cases hss
    · cases hc
  · rintro ⟨ls, os, hls, hstated, hheader⟩
    have hread := (statements_iff (Nat.lt_succ_self _)).mpr ⟨rfl, os, hstated, rfl⟩
    rw [tokenize_iff.mpr hls]
    dsimp only [bind, Except.bind, Cursor.read]
    rw [hread]
    exact congrArg Except.ok (by rw [← hheader])

end Countersign
