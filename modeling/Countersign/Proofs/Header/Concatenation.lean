/-
# Headers one after the other

Two header texts with a semicolon on a line of its own between them are read as one header with the
statements of both, each on the line where it stands. The semicolon ends the last statement of the
first text, and the line feeds around it end the comment or the word that a text may end with.

Key theorems: `Stated.carried`, `splits_join`, `parseHeader_join`.
-/
import Countersign.Proofs.Header.Statements

namespace Countersign
namespace Signature

/-! ### Statements one after the other -/

/-- **Statements that are moved, with more behind them**, are the same statements and then those of
what follows, each on the line where it now stands. -/
theorem Stated.carried {lineOf lineOf' : Nat → Nat} {ls more : List Lexeme}
    {os ps : List (Lexeme × HeaderStatement)} (h : Stated lineOf ls os) (k : Nat)
    (hmore : Fenced more) (hps : Stated lineOf' more ps)
    (hlines : ∀ l ∈ ls, lineOf' (l.start + k) = lineOf l.start) :
    Stated lineOf' (carried k more ls) (os.map (fun o => (o.1.moved k, o.2)) ++ ps) := by
  induction h with
  | done => exact hps
  | semicolon hl _ ih => exact .semicolon hl (ih fun l hl => hlines l (List.mem_cons_of_mem _ hl))
  | @statement l ls rest s os hl hs _ ih =>
    obtain ⟨hsuffix, hread⟩ := statement_carries (k := k) hmore _ hs
    rw [← hlines l List.mem_cons_self] at hread
    exact .statement hl hread (ih fun l hl => hlines l (List.mem_cons_of_mem _ (hsuffix.subset hl)))

/-! ### Texts one after the other -/

/-- The characters before a token are the text before it. -/
theorem charsBefore_of_standsIn {l : Lexeme} {text : List Char} (h : l.StandsIn 0 text)
    (start more : List Char) : ∃ before, charsBefore l.start text = before ∧
      charsBefore (l.start + String.utf8Len start) (start ++ (text ++ more)) = start ++ before := by
  obtain ⟨before, after, rfl, hstart⟩ := h
  rw [Nat.zero_add] at hstart
  refine ⟨before, ?_, ?_⟩
  · rw [hstart, charsBefore_utf8Len]
  · rw [Nat.add_comm, charsBefore_append, hstart, List.append_assoc, charsBefore_utf8Len]

/-- The tokens of two texts with a semicolon on a line of its own between them. -/
theorem splits_join {a b : List Char} {ls ls' : List Lexeme} (ha : Splits 0 a ls)
    (hb : Splits 0 b ls') : Splits 0 (a ++ '\n' :: ';' :: '\n' :: b)
      (ls ++ ⟨.punct .semicolon, String.utf8Len a + 1⟩ ::
        ls'.map (Lexeme.moved (String.utf8Len a + 3))) := by
  refine ha.line ?_
  rw [Nat.zero_add]
  refine .token (skipTrivia_of_not_isBlank (by decide) (by decide) _) rfl ?_
  have hbehind := hb.moved (String.utf8Len a + 3)
  rw [Nat.zero_add] at hbehind
  exact hbehind.of_skip (skipTrivia_of_isBlank (by decide) _ _)

theorem carried_zero (more ls : List Lexeme) : carried 0 more ls = ls ++ more := by
  have hmoved : Lexeme.moved 0 = id := rfl
  rw [carried, hmoved, List.map_id]

/-- A token of the first text is on its line of the joined text. -/
theorem lineAt_first {a : List Char} {l : Lexeme} (h : l.StandsIn 0 a) (more : List Char) :
    lineAt (a ++ more) 1 l.start = lineAt a 1 l.start := by
  obtain ⟨before, hbefore, hjoined⟩ := charsBefore_of_standsIn h [] more
  rw [lineAt, lineAt, hbefore]
  exact congrArg (fun cs => lineWord (cs.count '\n' + 1)) hjoined

/-- A token of the second text is as many lines down in the joined text as that begins lower. -/
theorem lineAt_second (a : List Char) {b : List Char} {l : Lexeme} (h : l.StandsIn 0 b) :
    lineAt (a ++ '\n' :: ';' :: '\n' :: b) 1 (l.start + (String.utf8Len a + 3)) =
      lineAt b (3 + a.count '\n') l.start := by
  obtain ⟨before, hbefore, hjoined⟩ := charsBefore_of_standsIn h (a ++ ['\n', ';', '\n']) []
  have hbytes : String.utf8Len (a ++ ['\n', ';', '\n']) = String.utf8Len a + 3 := by
    rw [String.utf8Len_append]
    rfl
  rw [hbytes, List.append_nil, List.append_assoc] at hjoined
  have hcount : (a ++ ['\n', ';', '\n'] ++ before).count '\n' + 1 =
      before.count '\n' + (3 + a.count '\n') := by
    simp only [List.count_append, List.count_cons_self, List.count_nil,
      List.count_cons_of_ne (show ';' ≠ '\n' by decide)]
    omega
  rw [lineAt, lineAt, hbefore, ← hcount]
  exact congrArg (fun cs => lineWord (cs.count '\n' + 1)) hjoined

end Signature

open Signature

/-- **Headers are joined by a semicolon on a line of its own.** The text of two headers is read as the
statements of the first and then those of the second, which keep the lines that they have in a file
where their text begins two lines below the end of the other. -/
theorem parseHeader_join {a b : String} {h h' : Header} (ha : parseHeader a = .ok h)
    (hb : parseHeaderAt b (3 + a.toList.count '\n') = .ok h') :
    parseHeader (a ++ "\n;\n" ++ b) = .ok (h.append h') := by
  obtain ⟨ls, os, hls, hos, hstatements⟩ := parseHeaderAt_iff.mp ha
  obtain ⟨ls', os', hls', hos', hstatements'⟩ := parseHeaderAt_iff.mp hb
  have htext : (a ++ "\n;\n" ++ b).toList = a.toList ++ '\n' :: ';' :: '\n' :: b.toList := by
    simp
  -- The second text is moved behind the semicolon, and nothing follows it.
  have hbehind := hos'.carried (String.utf8Len a.toList + 3) fenced_nil .done fun l hl =>
    lineAt_second a.toList (hls'.stands l hl)
  rw [carried, List.append_nil, List.append_nil] at hbehind
  -- The first text stays where it is, with the semicolon and the second text behind it.
  have hfenced : Fenced (⟨.punct .semicolon, String.utf8Len a.toList + 1⟩ ::
      ls'.map (Lexeme.moved (String.utf8Len a.toList + 3))) := by
    rintro l ⟨⟩
    rfl
  have hjoined := hos.carried 0 hfenced (.semicolon rfl hbehind) fun l hl =>
    lineAt_first (hls.stands l hl) _
  rw [carried_zero] at hjoined
  have hsplits := splits_join hls hls'
  rw [← htext] at hsplits hjoined
  refine parseHeaderAt_iff.mpr ⟨_, _, hsplits, hjoined, ?_⟩
  rw [Header.append, hstatements, hstatements', List.map_append, List.map_map, List.map_map]
  rfl

/-- A header that ends in a type that could go on, and in a comment. -/
def keyHeader : String := "type Key<T> : T | String;\nfind : (key: Key<Number>) => Key<Number> // found"

theorem parseHeader_join_comment : ∃ h h', parseHeader keyHeader = .ok h ∧
    parseHeaderAt "export default find" 4 = .ok h' ∧
    parseHeader (keyHeader ++ "\n;\n" ++ "export default find") = .ok (h.append h') := by
  have hfirst : (parseHeader keyHeader).isOk = true := by decide +kernel
  have hsecond : (parseHeaderAt "export default find" 4).isOk = true := by decide +kernel
  obtain ⟨first, h⟩ := ok_of_isOk hfirst
  obtain ⟨second, h'⟩ := ok_of_isOk hsecond
  exact ⟨first, second, h, h', parseHeader_join h h'⟩

end Countersign
