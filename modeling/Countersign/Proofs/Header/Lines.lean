/-
# Lines of inline headers

A header in a comment is read as a text of its own that begins on some line of the file. Its lines
are counted by line feeds, while a file's lines may also end with a lone carriage return, a line
separator or a paragraph separator. So the line of a statement, or of a fault, is the file's line of
the place where it stands, less the breaks of those other kinds between the start of the comment and
that place.

Key definitions: `LineMap.lineEnds`, `strayBreaks`, `fileOffset`.
Key theorems: `LineMap.lineNumber_add`, `Script.comments_stand`, `headerLine_eq`,
`inlineHeader_lines`.
-/
import Countersign.Proofs.Header.Positions
import Countersign.Proofs.Text.LineMap
import Countersign.Proofs.Script.Positions
import Countersign.Proofs.Script.Whole
import Countersign.Project.Load

namespace Countersign

/-! ### Ends of lines -/

namespace LineMap

/-- The characters that end a line among the first `n` of a text. A carriage return before a line
feed leaves that to it. -/
def lineEnds : Nat → List Char → List Char
  | 0, _ => []
  | _ + 1, [] => []
  | n + 1, '\r' :: '\n' :: rest => lineEnds n ('\n' :: rest)
  | n + 1, c :: rest => if Text.isLineBreak c then c :: lineEnds n rest else lineEnds n rest

theorem lineEnds_nil (n : Nat) : lineEnds n [] = [] := by
  cases n <;> rfl

theorem lineEnds_add (n m : Nat) (text : List Char) :
    lineEnds (n + m) text = lineEnds n text ++ lineEnds m (text.drop n) := by
  fun_induction lineEnds n text with
  | case1 text => rw [Nat.zero_add, List.drop_zero, List.nil_append]
  | case2 n => rw [lineEnds_nil, List.drop_nil, lineEnds_nil, List.append_nil]
  | case3 n rest ih => rw [Nat.succ_add, lineEnds, ih, List.drop_succ_cons]
  | case4 n c rest hpair hbreak ih =>
    rw [Nat.succ_add, lineEnds, if_pos hbreak, ih, List.drop_succ_cons, List.cons_append]
    exact hpair
  | case5 n c rest hpair hbreak ih =>
    rw [Nat.succ_add, lineEnds, if_neg hbreak, ih, List.drop_succ_cons]
    exact hpair

/-- Every line feed ends a line. -/
theorem count_lineEnds (n : Nat) (text : List Char) :
    (lineEnds n text).count '\n' = (text.take n).count '\n' := by
  fun_induction lineEnds n text with
  | case1 text => rfl
  | case2 n => rfl
  | case3 n rest ih => rw [ih, List.take_succ_cons, List.count_cons_of_ne (by decide)]
  | case4 n c rest hpair hbreak ih => rw [List.take_succ_cons, List.count_cons, List.count_cons, ih]
  | case5 n c rest hpair hbreak ih =>
    rw [List.take_succ_cons, List.count_cons_of_ne, ih]
    rintro rfl
    exact hbreak (by decide)

/-- No line starts before its text does. -/
theorem countP_startsFrom_eq_zero {i p : Nat} (text : List Char) (h : p ≤ i) :
    (startsFrom i text).countP (· ≤ p) = 0 := by
  rw [List.countP_eq_zero]
  intro q hq
  have hlt := lt_of_mem_startsFrom hq
  exact decide_eq_true_iff.not.mpr (by omega)

/-- As many lines start up to an offset as end before it. -/
theorem countP_startsFrom (i n : Nat) (text : List Char) :
    (startsFrom i text).countP (· ≤ i + n) = (lineEnds n text).length := by
  fun_induction startsFrom i text generalizing n with
  | case1 => rw [lineEnds_nil, List.countP_nil, List.length_nil]
  | case2 i rest ih =>
    rcases Nat.lt_or_ge n 2 with hn | hn
    · rw [List.countP_cons_of_neg (by simp; omega), countP_startsFrom_eq_zero rest (by omega)]
      interval_cases n
      · rfl
      · rfl
    · obtain ⟨n, rfl⟩ := Nat.exists_eq_add_of_le' hn
      rw [List.countP_cons_of_pos (by simp), show i + (n + 2) = i + 2 + n by omega, ih]
      rfl
  | case3 i c rest hpair hbreak ih =>
    cases n with
    | zero =>
      rw [List.countP_cons_of_neg (by simp), countP_startsFrom_eq_zero rest (by omega)]
      rfl
    | succ n =>
      rw [List.countP_cons_of_pos (by simp), show i + (n + 1) = i + 1 + n by omega, ih, lineEnds,
        if_pos hbreak, List.length_cons]
      exact hpair
  | case4 i c rest hpair hbreak ih =>
    cases n with
    | zero => exact countP_startsFrom_eq_zero rest (by omega)
    | succ n =>
      rw [show i + (n + 1) = i + 1 + n by omega, ih, lineEnds, if_neg hbreak]
      exact hpair

theorem lineNumber_eq (text : String) (p : Nat) :
    (ofText text).lineNumber p = (lineEnds p text.toList).length + 1 := by
  have hcount := countP_startsFrom 0 p text.toList
  rw [Nat.zero_add] at hcount
  rw [lineNumber, lineIndex_eq]
  exact congrArg (· + 1) hcount

end LineMap

/-- How many lines of a text end between two offsets with something other than a line feed. -/
def strayBreaks (text : String) (start p : Nat) : Nat :=
  (LineMap.lineEnds (p - start) (text.toList.drop start)).countP (· ≠ '\n')

/-- **Lines are counted in two parts**: those that line feeds end, and the others. -/
theorem LineMap.lineNumber_add (text : String) (start n : Nat) :
    (ofText text).lineNumber (start + n) = (ofText text).lineNumber start +
      ((text.toList.drop start).take n).count '\n' + strayBreaks text start (start + n) := by
  have hfeeds := count_lineEnds n (text.toList.drop start)
  have hparts : (lineEnds n (text.toList.drop start)).length =
      ((text.toList.drop start).take n).count '\n' + strayBreaks text start (start + n) := by
    rw [← hfeeds, strayBreaks, Nat.add_sub_cancel_left, List.count_eq_countP,
      List.length_eq_countP_add_countP (· == '\n')]
    simp
  rw [lineNumber_eq, lineNumber_eq, lineEnds_add, List.length_append, hparts]
  omega

/-! ### Comments of a program -/

namespace Script

/-- A program that is read without an error is read in its text. -/
theorem read_text {bound : Nat} {text : String} {ss : List Stmt} {s : ParseState}
    (hread : (Parse.next >>= fun _ => Rule.program (Rules.within bound bound) bound)
      (ParseState.ofText text) = some (ss, s)) (herrors : s.errors = []) :
    s.scanner.text = text.toList := by
  obtain ⟨u, s₁, hnext, hprogram⟩ := bind_some hread
  have hstart : Covered text.toList s₁.scanner.token [] s₁ := by
    rw [Parse.next_state] at hnext
    cases hnext
    refine .start ((scan_text _).trans (skipShebang_text _)) ?_
    rw [scan_token]
    exact scanAt_solid _ _
  have htell := Rules.within_tell text.toList bound bound
  exact ((Rule.program_tells htell bound [] s₁ ss s trivial hprogram herrors).2 _ hstart).text_eq

/-- **The comments of a program stand in its text.** -/
theorem comments_stand {text : String} (herrors : (parse text).errors = []) :
    ∀ c ∈ (parse text).comments, c.StandsIn text.toList := by
  rw [parse] at herrors ⊢
  cases hread : parseWithin (text.length + 3) text with
  | none => exact fun c hc => absurd hc List.not_mem_nil
  | some script =>
    rw [hread] at herrors
    obtain ⟨⟨ss, s⟩, hrun, hscript⟩ := Option.bind_eq_some_iff.mp hread
    cases hscript
    have hnone : s.errors = [] :=
      List.reverse_eq_nil_iff.mp (List.append_eq_nil_iff.mp (sortErrors_eq_nil herrors)).2
    have hcomments := (read_fine hrun).1.comments
    unfold Scanner.Faithful at hcomments
    rw [read_text hrun hnone] at hcomments
    exact hcomments

/-- The body of a comment stands behind the two characters that open it. -/
theorem Comment.StandsIn.body {text : List Char} {c : Comment} (h : c.StandsIn text) :
    ∃ after, text.drop c.span.pos = '/' :: '*' :: (c.body.toList ++ after) := by
  obtain ⟨inner, hinner⟩ := h.opens
  obtain ⟨after, hafter⟩ := h.written
  have hopened : "/*".toList.isPrefixOf? c.text.toList = some inner := by
    rw [← hinner]
    rfl
  have hbody : c.body.toList <+: inner := by
    unfold Comment.body
    rw [hopened]
    simp only [Option.getD_some, String.toList_ofList]
    cases hclosed : "/*".toList.isPrefixOf? inner.reverse with
    | none => exact List.prefix_rfl
    | some reversed =>
      refine List.reverse_suffix.mp ⟨"/*".toList, ?_⟩
      rw [Option.map_some, Option.getD_some, List.reverse_reverse]
      exact List.isPrefixOf?_eq_some_iff_append_eq.mp hclosed
  obtain ⟨closing, hclosing⟩ := hbody
  refine ⟨closing ++ after, ?_⟩
  rw [← hafter, ← hinner, ← hclosing]
  simp

end Script

/-! ### Headers in comments -/

open Signature

/-- A header in a comment ends the body of the comment. -/
theorem inlineHeaderBody?_suffix {body text : String} (h : inlineHeaderBody? body = some text) :
    text.toList <:+ body.toList := by
  have hblanks : body.toList.dropWhile Text.isBlank <:+ body.toList := List.dropWhile_suffix _
  unfold inlineHeaderBody? at h
  split at h
  · cases h
  · cases h
    exact List.nil_suffix
  · rename_i c rest hmarker
    split at h
    · cases h
      rw [String.toList_ofList]
      exact List.IsSuffix.trans ⟨_, List.isPrefixOf?_eq_some_iff_append_eq.mp hmarker⟩ hblanks
    · cases h

theorem inlineHeader_of_body {lines : LineMap} {c : Script.Comment} {text : String}
    (h : inlineHeaderBody? c.body = some text) :
    inlineHeader lines c = parseHeaderAt text (inlineHeaderLine lines c text) := by
  unfold inlineHeader
  simp only [h]

/-- The offset in the file of a byte offset in the header text of a comment. -/
def fileOffset (c : Script.Comment) (text : String) (offset : Nat) : Nat :=
  c.span.pos + 2 + (c.body.length - text.length) + (charsBefore offset text.toList).length

/-- The line of offset `p` of a file, as it is counted from the start of a comment on: breaks other
than line feeds do not count. By `LineMap.lineNumber_add` they are fewer than the lines up to `p`. -/
def countedLine (source : String) (start p : Nat) : Nat :=
  lineWord ((LineMap.ofText source).lineNumber p - strayBreaks source start p)

section InlineHeaders

variable {source text : String} {c : Script.Comment}

/-- Where the header text falls in two parts, so does the file from the start of the comment on. -/
theorem file_parts (hc : c.StandsIn source.toList) (htext : inlineHeaderBody? c.body = some text)
    {before behind : List Char} (h : text.toList = before ++ behind) : ∃ between after,
      source.toList.drop c.span.pos = between ++ (behind ++ after) ∧
      between.length = 2 + (c.body.length - text.length) + before.length ∧
      ∀ lines : LineMap, lines.lineNumber c.span.pos + between.count '\n' =
        before.count '\n' + inlineHeaderLine lines c text := by
  obtain ⟨after, hafter⟩ := hc.body
  obtain ⟨skipped, hskipped⟩ := inlineHeaderBody?_suffix htext
  have hlength : c.body.length - text.length = skipped.length := by
    rw [← String.length_toList, ← hskipped, List.length_append, String.length_toList,
      Nat.add_sub_cancel]
  have htake : c.body.toList.take skipped.length = skipped := by rw [← hskipped, List.take_left]
  refine ⟨'/' :: '*' :: (skipped ++ before), after, ?_, ?_, fun lines => ?_⟩
  · rw [hafter, ← hskipped, h]
    simp
  · rw [hlength, List.length_cons, List.length_cons, List.length_append]
    omega
  · rw [List.count_cons_of_ne (by decide), List.count_cons_of_ne (by decide), List.count_append]
    simp only [inlineHeaderLine, hlength, htake]
    omega

/-- **Lines of a header are lines of its file, less the stray breaks** from the start of the comment
on. -/
theorem headerLine_eq (hc : c.StandsIn source.toList) (htext : inlineHeaderBody? c.body = some text)
    (offset : Nat) :
    (charsBefore offset text.toList).count '\n' + inlineHeaderLine (.ofText source) c text =
      (LineMap.ofText source).lineNumber (fileOffset c text offset) -
        strayBreaks source c.span.pos (fileOffset c text offset) := by
  obtain ⟨behind, hbehind⟩ := charsBefore_prefix offset text.toList
  obtain ⟨between, after, hdrop, hlength, hcount⟩ := file_parts hc htext hbehind.symm
  have hoffset : fileOffset c text offset = c.span.pos + between.length := by
    rw [fileOffset, hlength]
    omega
  have hline := LineMap.lineNumber_add source c.span.pos between.length
  rw [hdrop, List.take_left, hcount, ← hoffset] at hline
  rw [hline, Nat.add_sub_cancel]

/-- What stands in the header text behind some characters stands in the file. -/
theorem stands_at_fileOffset (hc : c.StandsIn source.toList)
    (htext : inlineHeaderBody? c.body = some text) {before word behind : List Char}
    (h : text.toList = before ++ (word ++ behind)) :
    word <+: source.toList.drop (fileOffset c text (String.utf8Len before)) := by
  obtain ⟨between, after, hdrop, hlength, -⟩ := file_parts hc htext h
  have hoffset : fileOffset c text (String.utf8Len before) = c.span.pos + between.length := by
    rw [fileOffset, h, charsBefore_utf8Len, hlength]
    omega
  rw [hoffset, ← List.drop_drop, hdrop, List.drop_left, List.append_assoc]
  exact List.prefix_append _ _

end InlineHeaders

/-- The line of an error is that of its offset. -/
theorem parseHeaderAt_error_line {text : String} {first : Nat} {e : SignatureError}
    (hfirst : 0 < first) (h : parseHeaderAt text first = .error e) :
    e.line = lineAt text.toList first e.offset := by
  obtain ⟨offset, expected, found, ⟨before, after, htext, hoffset⟩, rfl⟩ := parseHeaderAt_error h
  rw [Nat.zero_add] at hoffset
  rw [hoffset, htext, SignatureError.locate_behind]
  dsimp only
  rw [lineAt, charsBefore_utf8Len, Nat.add_assoc, Nat.add_sub_cancel' hfirst]

/-- **The lines of an inline header**, of its statements and of the fault if it cannot be read, are
those of the file at the places where these stand, less the breaks other than line feeds that end a
line between the start of the comment and that place. -/
theorem inlineHeader_lines {source text : String} {c : Script.Comment}
    (herrors : (Script.parse source).errors = []) (hc : c ∈ (Script.parse source).comments)
    (htext : inlineHeaderBody? c.body = some text) :
    text.toList <+: source.toList.drop (fileOffset c text 0) ∧
    (∀ header, inlineHeader (.ofText source) c = .ok header →
      ∃ ls os, tokenize text.toList = .ok ls ∧
        Stated (lineAt text.toList (inlineHeaderLine (.ofText source) c text)) ls os ∧
        header.statements = os.map (·.2) ∧
        ∀ o ∈ os, o.1.token.text.toList <+: source.toList.drop (fileOffset c text o.1.start) ∧
          o.2.line = countedLine source c.span.pos (fileOffset c text o.1.start)) ∧
    ∀ e, inlineHeader (.ofText source) c = .error e →
      e.line = countedLine source c.span.pos (fileOffset c text e.offset) := by
  have hstands := Script.comments_stand herrors c hc
  have hline : ∀ offset, lineAt text.toList (inlineHeaderLine (.ofText source) c text) offset =
      countedLine source c.span.pos (fileOffset c text offset) :=
    fun offset => congrArg lineWord (headerLine_eq hstands htext offset)
  refine ⟨?_, fun header hheader => ?_, fun e he => ?_⟩
  · have hwhole : text.toList = [] ++ (text.toList ++ []) := (List.append_nil _).symm
    exact stands_at_fileOffset hstands htext hwhole
  · rw [inlineHeader_of_body htext] at hheader
    obtain ⟨ls, os, hls, hos, hstatements⟩ := parseHeaderAt_iff.mp hheader
    refine ⟨ls, os, tokenize_iff.mpr hls, hos, hstatements, fun o ho => ⟨?_, ?_⟩⟩
    · obtain ⟨before, after, hbefore, hstart⟩ := hls.stands o.1 (hos.mem ho)
      rw [hstart, Nat.zero_add]
      exact stands_at_fileOffset hstands htext hbefore
    · rw [hos.line ho, hline]
  · have hfirst : 0 < inlineHeaderLine (.ofText source) c text :=
      Nat.lt_add_right _ (Nat.succ_pos _)
    rw [inlineHeader_of_body htext] at he
    rw [parseHeaderAt_error_line hfirst he, hline]

/-- A header whose lines end in three ways. -/
def mixedHeader : String := "\r\na : Number\u2028export default a\n"

/-- A program with that header in a comment. -/
def mixedSource : String := "var a;\r\n/*@jsig\r\na : Number\u2028export default a\n*/"

/-- The comment with the header. -/
def mixedComment : Script.Comment :=
  ⟨⟨8, 47⟩, "/*@jsig\r\na : Number\u2028export default a\n*/"⟩

theorem inlineHeader_lines_mixed :
    (Script.parse mixedSource).errors = [] ∧ mixedComment ∈ (Script.parse mixedSource).comments ∧
    inlineHeaderBody? mixedComment.body = some mixedHeader ∧
    ∃ header, inlineHeader (.ofText mixedSource) mixedComment = .ok header ∧
      ∃ os : List (Lexeme × HeaderStatement), header.statements = os.map (·.2) ∧
        ∀ o ∈ os,
          o.2.line = countedLine mixedSource 8 (fileOffset mixedComment mixedHeader o.1.start) := by
  have herrors : (Script.parse mixedSource).errors = [] := by decide +kernel
  have hcomment : mixedComment ∈ (Script.parse mixedSource).comments := by decide +kernel
  have htext : inlineHeaderBody? mixedComment.body = some mixedHeader := by decide +kernel
  have hread : (inlineHeader (.ofText mixedSource) mixedComment).isOk = true := by decide +kernel
  refine ⟨herrors, hcomment, htext, ?_⟩
  obtain ⟨header, h⟩ := ok_of_isOk hread
  obtain ⟨ls, os, -, -, hstatements, hlines⟩ :=
    (inlineHeader_lines herrors hcomment htext).2.1 header h
  exact ⟨header, h, os, hstatements, fun o ho => (hlines o ho).2⟩

/-- A program with a header whose lines end with a carriage return. -/
def returnSource : String := "/*@jsig\rexport default Number\r*/\n"

/-- Its statement stands on the second line of the file, and is recorded on the first. -/
theorem inlineHeader_line_short : (Script.parse returnSource).errors = [] ∧
    (∃ c ∈ (Script.parse returnSource).comments,
      (inlineHeader (.ofText returnSource) c).toOption.map (·.statements.map (·.line)) = some [1]) ∧
    "export".toList <+: returnSource.toList.drop 8 ∧
    (LineMap.ofText returnSource).lineNumber 8 = 2 := by
  have hcomment : ⟨⟨0, 32⟩, "/*@jsig\rexport default Number\r*/"⟩ ∈
      (Script.parse returnSource).comments := by decide +kernel
  exact ⟨by decide +kernel, ⟨_, hcomment, by decide +kernel⟩, by decide +kernel, by decide +kernel⟩

end Countersign
