/-
# Positions in headers

An error in a header stands between two characters of its text, or at an end of it, and a statement
stands where its first token does. Both are on the line that counts the line feeds before them from
the line on which the text begins; and this line is all that depends on where that is.

Key definitions: `LastLine`, `SignatureError.StandsIn`, `unlined`.
Key theorems: `parseHeaderAt_error`, `Stated.ascending`, `parseHeaderAt_unlined`,
`parseHeaderAt_positions`.
-/
import Countersign.Proofs.Header.Statements
import Countersign.Proofs.Signature.Failures

namespace Countersign
namespace Signature

/-! ### Tokens that are left -/

theorem importName_keeps : Keeps importName :=
  identifier_keeps.bind fun name => .look (eatWord?_suffix "as")
    (identifier_keeps.bind fun newName => .pure (ImportName.mk name (some newName)))
    (.pure (ImportName.mk name none))

theorem importNames_keeps : ∀ limit, Keeps (importNames limit)
  | 0 => .pure []
  | limit + 1 => by
    refine .ite (.pure []) (importName_keeps.bind fun name => ?_)
    exact .look (eat?_suffix .comma)
      ((importNames_keeps limit).bind fun names => .pure (name :: names)) (.pure [name])

theorem modulePath_keeps : Keeps modulePath := by
  intro ts
  unfold modulePath
  split
  · split
    · exact List.suffix_cons _ _
    · exact List.suffix_rfl
  · exact List.suffix_rfl

theorem importStatement_keeps (line : Nat) : Keeps (importStatement line) := by
  have hnames : Keeps fun ts => importNames (ts.length + 1) ts :=
    fun ts => importNames_keeps (ts.length + 1) ts
  refine (expect_keeps .openBrace).bind fun _ => hnames.bind fun names => ?_
  refine (expect_keeps .closeBrace).bind fun _ => (expectWord_keeps "from").bind fun _ => ?_
  exact modulePath_keeps.bind fun path => .pure (HeaderStatement.importNames ⟨names, path, line⟩)

theorem aliasParams_keeps : Keeps aliasParams := by
  rw [aliasParams_eq]
  refine .look (eat?_suffix .less) ((sepBy_keeps identifier_keeps).bind fun ps => ?_) (.pure [])
  dsimp only
  exact (expect_keeps .greater).bind fun _ => .pure ps

theorem aliasStatement_keeps (line : Nat) : Keeps (aliasStatement line) :=
  identifier_keeps.bind fun name => aliasParams_keeps.bind fun ps =>
    (expect_keeps .colon).bind fun _ => readType_keeps.bind fun t =>
      .pure (HeaderStatement.typeAlias ⟨name, ps, t, line⟩)

theorem exportStatement_keeps (line : Nat) : Keeps (exportStatement line) :=
  (expectWord_keeps "default").bind fun _ => readType_keeps.bind fun t =>
    .pure (HeaderStatement.exportDefault ⟨t, line⟩)

theorem valueStatement_keeps (line : Nat) : Keeps (valueStatement line) := by
  intro ts
  unfold valueStatement
  split
  · rename_i s start rest
    have hdeclared : Keeps fun ts => expect .colon ts >>= fun colon => readType colon.2 >>= fun t =>
        .ok (HeaderStatement.value ⟨s, t.1, line⟩, t.2) :=
      (expect_keeps .colon).bind fun _ => readType_keeps.bind fun t =>
        .pure (HeaderStatement.value ⟨s, t, line⟩)
    exact (hdeclared rest).trans (List.suffix_cons _ _)
  · exact List.suffix_rfl

theorem statement_keeps (line : Nat) : Keeps (statement line) := by
  intro ts
  unfold statement
  split
  · exact valueStatement_keeps line ts
  · split
    · exact (importStatement_keeps line _).trans (eatWord?_suffix _ _ _ ‹_›)
    · exact (aliasStatement_keeps line _).trans (eatWord?_suffix _ _ _ ‹_›)
    · exact (exportStatement_keeps line _).trans (eatWord?_suffix _ _ _ ‹_›)
    · exact valueStatement_keeps line ts

/-- **Reading statements leaves some of the last tokens**, whether it succeeds or not. -/
theorem statements_keeps (lineOf : Nat → Nat) : ∀ limit, Keeps (statements lineOf limit)
  | 0 => .pure []
  | limit + 1 => by
    rintro (_ | ⟨l, ts⟩)
    · exact List.suffix_rfl
    · rw [statements]
      split
      · exact (statements_keeps lineOf limit ts).trans (List.suffix_cons _ _)
      · refine (statement_keeps (lineOf l.start)).bind (fun s ts => ?_) (l :: ts)
        have hskip : (eat? .semicolon ts).getD ts <:+ ts := by
          cases heat : eat? .semicolon ts with
          | none => exact List.suffix_rfl
          | some rest => exact eat?_suffix .semicolon ts rest heat
        have hmore : Keeps fun ts => statements lineOf limit ts >>= fun more =>
            .ok (s :: more.1, more.2) := (statements_keeps lineOf limit).bind fun more =>
          .pure (s :: more)
        exact (hmore _).trans hskip

end Signature

open Signature

/-- **An error in a header stands between two characters of its text**, or at an end of it. -/
theorem parseHeaderAt_error {text : String} {first : Nat} {e : SignatureError}
    (h : parseHeaderAt text first = .error e) : ∃ offset expected found,
      Boundary 0 text.toList offset ∧ e = .locate text.toList first offset expected found := by
  unfold parseHeaderAt Cursor.ofText at h
  cases htokens : tokenize text.toList with
  | error f =>
    rw [htokens] at h
    cases h
    exact ⟨_, _, _, tokenize_error htokens, rfl⟩
  | ok ls =>
    rw [htokens] at h
    have hleft := statements_keeps (lineAt text.toList first) (ls.length + 1) ls
    cases hread : statements (lineAt text.toList first) (ls.length + 1) ls with
    | error f =>
      simp only [Cursor.read, bind, Except.bind, hread] at h
      cases h
      rw [hread] at hleft
      exact ⟨_, _, _, (tokenize_iff.mp htokens).offsetOf_boundary hleft, rfl⟩
    | ok r =>
      simp only [Cursor.read, bind, Except.bind, hread] at h
      cases h

/-! ### Lines and columns -/

/-- What stands behind the last line feed of a text, or all of it if there is none. -/
inductive LastLine : List Char → List Char → Prop
  | only {line : List Char} : '\n' ∉ line → LastLine line line
  | behind (lines : List Char) {line : List Char} : '\n' ∉ line →
      LastLine (lines ++ '\n' :: line) line

theorem LastLine.isInfix {text line : List Char} (h : LastLine text line) : line <:+: text := by
  cases h with
  | only _ => exact List.infix_rfl
  | behind lines _ =>
    exact ((List.suffix_cons _ _).trans (List.suffix_append _ _)).isInfix

theorem LastLine.not_mem {text line : List Char} (h : LastLine text line) : '\n' ∉ line := by
  cases h with
  | only hline => exact hline
  | behind _ hline => exact hline

theorem LastLine.concat {text line : List Char} {c : Char} (h : LastLine text line)
    (hc : c ≠ '\n') : LastLine (text ++ [c]) (line ++ [c]) := by
  have hline : '\n' ∉ line ++ [c] := by
    simp only [List.mem_append, List.mem_singleton, not_or]
    exact ⟨h.not_mem, hc.symm⟩
  cases h with
  | only _ => exact .only hline
  | behind lines _ =>
    rw [List.append_assoc, List.cons_append]
    exact .behind lines hline

/-- The last line is found from the end of the text. -/
theorem lastLine_reverse (text : List Char) :
    LastLine text.reverse (text.takeWhile (· != '\n')).reverse := by
  induction text with
  | nil => exact .only List.not_mem_nil
  | cons c text ih =>
    rw [List.reverse_cons]
    by_cases hc : c = '\n'
    · subst hc
      exact .behind text.reverse List.not_mem_nil
    · rw [List.takeWhile_cons_of_pos (by simpa using hc), List.reverse_cons]
      exact ih.concat hc

/-- The error stands between two characters of a text that begins on line `first`, or at an end of
it: its line counts the line feeds before it, and its column the characters behind the last of
these. -/
def SignatureError.StandsIn (e : SignatureError) (first : Nat) (text : List Char) : Prop :=
  ∃ before after line, text = before ++ after ∧ e.offset = String.utf8Len before ∧
    e.line = first + before.count '\n' ∧ LastLine before line ∧ e.column = 1 + line.length

theorem lineWord_of_lt {n : Nat} (h : n < 4294967296) : lineWord n = n := Nat.mod_eq_of_lt h

/-- An error between two characters is located there, if lines and columns are 32-bit words. -/
theorem SignatureError.locate_standsIn {text : List Char} {first offset : Nat} (hfirst : 1 ≤ first)
    (hlines : first + text.count '\n' < 4294967296)
    (hcolumns : ∀ line, line <:+: text → '\n' ∉ line → line.length < 4294967295)
    (h : Boundary 0 text offset) (expected : List Expected) (found : Found) :
    (locate text first offset expected found).StandsIn first text := by
  obtain ⟨before, after, rfl, rfl⟩ := h
  have hlast := lastLine_reverse before.reverse
  rw [List.reverse_reverse] at hlast
  have hline := hcolumns _ (hlast.isInfix.trans (List.prefix_append _ _).isInfix) hlast.not_mem
  rw [List.count_append] at hlines
  rw [Nat.zero_add, locate_behind]
  refine ⟨before, after, _, rfl, rfl, ?_, hlast, ?_⟩
  · dsimp only
    rw [lineWord_of_lt (by omega)]
    omega
  · rw [List.length_reverse] at hline ⊢
    dsimp only
    rw [lineWord_of_lt (by omega), Nat.add_comm]

/-! ### Statements in order -/

namespace Signature

theorem charsBefore_mono {p q : Nat} (hpq : p ≤ q) (text : List Char) :
    charsBefore p text <+: charsBefore q text := by
  induction text generalizing p q with
  | nil => exact List.prefix_rfl
  | cons c text ih =>
    rw [charsBefore, charsBefore]
    by_cases hp : c.utf8Size ≤ p
    · rw [if_pos hp, if_pos (Nat.le_trans hp hpq), List.prefix_cons_inj]
      exact ih (Nat.sub_le_sub_right hpq _)
    · rw [if_neg hp]
      exact List.nil_prefix

theorem lineAt_eq {text : List Char} {first : Nat} (hlines : first + text.count '\n' < 4294967296)
    (offset : Nat) : lineAt text first offset = first + (charsBefore offset text).count '\n' := by
  have hbefore := charsBefore_prefix offset text
  have hle := hbefore.sublist.count_le '\n'
  rw [lineAt, lineWord_of_lt (by omega), Nat.add_comm]

theorem lineAt_mono {text : List Char} {first p q : Nat}
    (hlines : first + text.count '\n' < 4294967296) (hpq : p ≤ q) :
    lineAt text first p ≤ lineAt text first q := by
  rw [lineAt_eq hlines, lineAt_eq hlines]
  exact Nat.add_le_add_left ((charsBefore_mono hpq text).sublist.count_le '\n') first

/-- Tokens are in the order of their offsets. -/
theorem Splits.ascending {pos : Nat} {text : List Char} {ls : List Lexeme}
    (h : Splits pos text ls) : ls.Pairwise fun l l' => l.start ≤ l'.start := by
  induction h with
  | done => exact .nil
  | @token pos start c text behind rest t ls hskip hscan hrest ih =>
    refine .cons (fun l hl => ?_) ih
    obtain ⟨before, after, -, hstart⟩ := hrest.stands l hl
    rw [hstart, Lexeme.stop]
    show start ≤ start + _ + _
    omega

/-- The first tokens of the statements are in the order of the tokens. -/
theorem Stated.sublist {lineOf : Nat → Nat} {ls : List Lexeme}
    {os : List (Lexeme × HeaderStatement)} (h : Stated lineOf ls os) :
    (os.map (·.1)).Sublist ls := by
  induction h with
  | done => exact .slnil
  | semicolon _ _ ih => exact ih.cons _
  | @statement l ls rest s os _ hs _ ih =>
    have hrest := (statement_carries (k := 0) fenced_nil _ hs).1
    exact (ih.trans hrest.sublist).cons_cons l

/-- **Statements are on lines that do not decrease.** -/
theorem Stated.ascending {text : List Char} {first : Nat} {ls : List Lexeme}
    {os : List (Lexeme × HeaderStatement)} (hlines : first + text.count '\n' < 4294967296)
    (hls : Splits 0 text ls) (h : Stated (lineAt text first) ls os) :
    (os.map (·.2.line)).Pairwise (· ≤ ·) := by
  have hstarts := List.pairwise_map.mp (hls.ascending.sublist h.sublist)
  refine List.pairwise_map.mpr (hstarts.imp_of_mem fun {o o'} ho ho' hle => ?_)
  rw [h.line ho, h.line ho']
  exact lineAt_mono hlines hle

end Signature

/-! ### Any first line -/

/-- What comes of reading a header, apart from lines. -/
def unlined : Except SignatureError Header → Except SignatureError Header
  | .ok h => .ok ⟨h.statements.map (.withLine 0)⟩
  | .error e => .error { e with line := 0 }

namespace Signature

/-- The statements that are read, apart from their lines, and the tokens that are left. -/
def unlinedStatements : Except Failure (List HeaderStatement × List Lexeme) →
    Except Failure (List HeaderStatement × List Lexeme) :=
  Except.map fun r => (r.1.map (.withLine 0), r.2)

theorem unlinedStatements_cons (s : HeaderStatement)
    (read : Except Failure (List HeaderStatement × List Lexeme)) :
    unlinedStatements (read >>= fun more => .ok (s :: more.1, more.2)) =
      (unlinedStatements read).map fun r => (s.withLine 0 :: r.1, r.2) := by
  cases read <;> rfl

/-- **Statements are read alike whatever the lines of their tokens.** -/
theorem statements_relined (lineOf lineOf' : Nat → Nat) (limit : Nat) (ts : List Lexeme) :
    unlinedStatements (statements lineOf' limit ts) =
      unlinedStatements (statements lineOf limit ts) := by
  induction limit generalizing ts with
  | zero => rfl
  | succ limit ih =>
    cases ts with
    | nil => rfl
    | cons l ts =>
      rw [statements, statements]
      split
      · exact ih ts
      · have hstatement : statement (lineOf' l.start) (l :: ts) =
            (statement (lineOf l.start) (l :: ts)).map fun r =>
              (r.1.withLine (lineOf' l.start), r.2) := statement_relined (l :: ts)
        rw [hstatement]
        cases statement (lineOf l.start) (l :: ts) with
        | error f => rfl
        | ok r =>
          obtain ⟨s, rest⟩ := r
          -- Both rules go on from the same tokens, so what they read there is alike.
          have hmore := ih ((eat? .semicolon rest).getD rest)
          have hcons := unlinedStatements_cons (s.withLine (lineOf' l.start))
            (statements lineOf' limit ((eat? .semicolon rest).getD rest))
          rw [hmore, HeaderStatement.withLine_withLine, ← unlinedStatements_cons] at hcons
          exact hcons

end Signature

/-- **A header is read alike on every first line**, apart from lines. -/
theorem parseHeaderAt_unlined (text : String) (first first' : Nat) :
    unlined (parseHeaderAt text first') = unlined (parseHeaderAt text first) := by
  unfold parseHeaderAt Cursor.ofText
  cases tokenize text.toList with
  | error f => rfl
  | ok ls =>
    have hread := statements_relined (lineAt text.toList first) (lineAt text.toList first')
      (ls.length + 1) ls
    dsimp only [bind, Except.bind, Cursor.read]
    cases hone : statements (lineAt text.toList first) (ls.length + 1) ls with
    | error f =>
      cases htwo : statements (lineAt text.toList first') (ls.length + 1) ls with
      | error f' =>
        rw [hone, htwo] at hread
        cases hread
        rfl
      | ok r' =>
        rw [hone, htwo] at hread
        cases hread
    | ok r =>
      cases htwo : statements (lineAt text.toList first') (ls.length + 1) ls with
      | error f' =>
        rw [hone, htwo] at hread
        cases hread
      | ok r' =>
        rw [hone, htwo] at hread
        have hsame : r'.1.map (HeaderStatement.withLine 0) = r.1.map (.withLine 0) :=
          congrArg Prod.fst (Except.ok.inj hread)
        exact congrArg (fun ss => Except.ok (Header.mk ss)) hsame

/-- **Positions in a header are exact**, if its lines and columns are 32-bit words. An error stands
between two characters of the text, on the line and in the column that are counted from the line
feeds and the characters before it. Each statement is on the line that is counted at its first
token, and these lines do not decrease. All else is the same whichever line the text begins on. -/
theorem parseHeaderAt_positions {text : String} {first : Nat} (hfirst : 1 ≤ first)
    (hlines : first + text.toList.count '\n' < 4294967296)
    (hcolumns : ∀ line, line <:+: text.toList → '\n' ∉ line → line.length < 4294967295) :
    (∀ e, parseHeaderAt text first = .error e → e.StandsIn first text.toList) ∧
    (∀ header, parseHeaderAt text first = .ok header → ∃ ls os, tokenize text.toList = .ok ls ∧
      Stated (lineAt text.toList first) ls os ∧ header.statements = os.map (·.2) ∧
      (∀ o ∈ os, o.1 ∈ ls ∧ ∃ before after,
        text.toList = before ++ (o.1.token.text.toList ++ after) ∧
        o.1.start = String.utf8Len before ∧ o.2.line = first + before.count '\n') ∧
      (header.statements.map (·.line)).Pairwise (· ≤ ·)) ∧
    ∀ first', unlined (parseHeaderAt text first') = unlined (parseHeaderAt text first) := by
  refine ⟨fun e he => ?_, fun header hheader => ?_, parseHeaderAt_unlined text first⟩
  · obtain ⟨offset, expected, found, hoffset, rfl⟩ := parseHeaderAt_error he
    exact SignatureError.locate_standsIn hfirst hlines hcolumns hoffset expected found
  · obtain ⟨ls, os, hls, hos, hstatements⟩ := parseHeaderAt_iff.mp hheader
    refine ⟨ls, os, tokenize_iff.mpr hls, hos, hstatements, fun o ho => ⟨hos.mem ho, ?_⟩, ?_⟩
    · obtain ⟨before, after, htext, hstart⟩ := hls.stands o.1 (hos.mem ho)
      rw [Nat.zero_add] at hstart
      refine ⟨before, after, htext, hstart, ?_⟩
      rw [hos.line ho, lineAt_eq hlines, hstart, htext, charsBefore_utf8Len]
    · rw [hstatements, List.map_map]
      exact hos.ascending hlines hls

/-- A header whose second statement has no type, after a comment that is not in ASCII. -/
def unfinishedHeader : String := "a : Number\n/* é */ b :\n;"

/-- A header with its statements on the second line and the fourth. -/
def spacedHeader : String := "\na : Number\n\nexport default a"

theorem parseHeaderAt_positions_samples :
    (∃ e, parseHeaderAt unfinishedHeader 7 = .error e ∧ e.StandsIn 7 unfinishedHeader.toList) ∧
    ∃ header, parseHeaderAt spacedHeader 7 = .ok header ∧
      (header.statements.map (·.line)).Pairwise (· ≤ ·) := by
  have hshort : ∀ text : String, text.toList.length < 4294967295 →
      ∀ line, line <:+: text.toList → '\n' ∉ line → line.length < 4294967295 :=
    fun text hlength line hinfix _ => Nat.lt_of_le_of_lt hinfix.length_le hlength
  have hfails : (parseHeaderAt unfinishedHeader 7).isOk = false := by decide +kernel
  have hreads : (parseHeaderAt spacedHeader 7).isOk = true := by decide +kernel
  constructor
  · obtain ⟨e, h⟩ := error_of_isOk hfails
    exact ⟨e, h, (parseHeaderAt_positions (by decide) (by decide)
      (hshort unfinishedHeader (by decide))).1 e h⟩
  · obtain ⟨header, h⟩ := ok_of_isOk hreads
    obtain ⟨ls, os, -, -, -, -, hascending⟩ := (parseHeaderAt_positions (by decide) (by decide)
      (hshort spacedHeader (by decide))).2.1 header h
    exact ⟨header, h, hascending⟩

end Countersign
