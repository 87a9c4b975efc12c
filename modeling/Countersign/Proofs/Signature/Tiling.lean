/-
# Signature tokens tile the text

The tokens of a signature text and the gaps between them are all of the text, in order, and each
token is spelled out where it stands. What stands in a gap does not matter: blanks and comments can
be put in where a token begins or ends, and the tokens stay what they are. One place is not free: at
the end of a text that ends within a line comment, what is put in first goes on with that comment,
and a block comment that spans lines leaves a rest behind the first of them.

Key definitions: `Tiles`, `Piece`, `EndsInLine`, `AtEdge`.
Key theorems: `Splits.tiles`, `Splits.insert`, `tokenize_tiles`.
-/
import Countersign.Proofs.Signature.ByteTokens

namespace Countersign
namespace Signature

open Value Text
open Bytes (Placed placed)

/-! ### Tokens and gaps -/

/-- The text, which starts at offset `pos`, has `part` from offset `start` up to `stop`, between two
characters each, and `after` behind it. -/
def Slice (pos : ℕ) (text : List Char) (start stop : ℕ) (part after : List Char) : Prop :=
  ∃ before, text = before ++ (part ++ after) ∧ start = pos + String.utf8Len before ∧
    stop = start + String.utf8Len part

/-- How the token is written; the end of the text is not. -/
def Bytes.Placed.spelling (s : Placed) : List Char :=
  match s.token with
  | some t => t.text.toList
  | none => []

/-- The stretches in front of each of the tokens, from offset `pos` on. -/
def between : ℕ → List Placed → List (ℕ × ℕ)
  | _, [] => []
  | pos, s :: more => (pos, s.start) :: between s.stop more

/-- The tokens tile the text, which starts at offset `pos`. -/
structure Tiles (pos : ℕ) (text : List Char) (tiles : List Placed) : Prop where
  /-- No two meet, and each begins after those before it. -/
  ordered : tiles.Pairwise fun r s => r.start < s.start ∧ r.stop ≤ s.start
  /-- The end of the text comes last and only once, and nothing else is empty. -/
  ends : ∃ ts, tiles = ts ++ [⟨none, pos + String.utf8Len text, pos + String.utf8Len text⟩] ∧
    ∀ s ∈ ts, s.token.isSome = true ∧ s.start < s.stop
  /-- Each begins and ends between two characters and is what the text has there. -/
  slices : ∀ s ∈ tiles, ∃ after, Slice pos text s.start s.stop s.spelling after
  /-- There are only blanks and comments between them. -/
  gaps : ∀ g ∈ between pos tiles, ∃ gap after, Slice pos text g.1 g.2 gap after ∧ Gap after gap

theorem Slice.append {pos start stop : ℕ} {before text part after : List Char}
    (h : Slice (pos + String.utf8Len before) text start stop part after) :
    Slice pos (before ++ text) start stop part after := by
  obtain ⟨more, rfl, rfl, hstop⟩ := h
  refine ⟨before ++ more, (List.append_assoc _ _ _).symm, ?_, hstop⟩
  rw [String.utf8Len_append, Nat.add_assoc]

/-- A gap alone has only the end of the text to tile it. -/
theorem Tiles.of_gap {pos : ℕ} {gap : List Char} (h : Gap [] gap) :
    Tiles pos gap [⟨none, pos + String.utf8Len gap, pos + String.utf8Len gap⟩] := by
  refine ⟨List.pairwise_singleton _ _, ⟨[], rfl, nofun⟩, ?_, ?_⟩
  · refine List.forall_mem_singleton.mpr ⟨[], gap, ?_, rfl, rfl⟩
    simp [Bytes.Placed.spelling]
  · exact List.forall_mem_singleton.mpr ⟨gap, [], ⟨[], by simp, rfl, rfl⟩, h⟩

/-- A gap and a token come before the tiles of what is left. -/
theorem Tiles.cons {pos start stop : ℕ} {t : Token} {gap rest : List Char} {tiles : List Placed}
    (hgap : Gap (t.text.toList ++ rest) gap) (hstart : start = pos + String.utf8Len gap)
    (hstop : stop = pos + String.utf8Len (gap ++ t.text.toList)) (hsolid : start < stop)
    (h : Tiles stop rest tiles) :
    Tiles pos (gap ++ (t.text.toList ++ rest)) (⟨some t, start, stop⟩ :: tiles) := by
  have hrest : ∀ {start' stop' : ℕ} {part after : List Char},
      Slice stop rest start' stop' part after →
        Slice pos (gap ++ (t.text.toList ++ rest)) start' stop' part after := by
    intro start' stop' part after hslice
    rw [← List.append_assoc]
    rw [hstop] at hslice
    exact hslice.append
  refine ⟨List.pairwise_cons.mpr ⟨fun s hs => ?_, h.ordered⟩, ?_, ?_, ?_⟩
  · obtain ⟨after, before, -, hbegins, -⟩ := h.slices s hs
    show start < s.start ∧ stop ≤ s.start
    omega
  · obtain ⟨ts, hts, hall⟩ := h.ends
    refine ⟨⟨some t, start, stop⟩ :: ts, ?_, List.forall_mem_cons.mpr ⟨⟨rfl, hsolid⟩, hall⟩⟩
    have hend : pos + String.utf8Len (gap ++ (t.text.toList ++ rest)) =
        stop + String.utf8Len rest := by
      rw [hstop, ← List.append_assoc, String.utf8Len_append, Nat.add_assoc]
    rw [hts, hend, List.cons_append]
  · refine List.forall_mem_cons.mpr ⟨⟨rest, gap, rfl, hstart, ?_⟩, fun s hs => ?_⟩
    · show stop = start + String.utf8Len t.text.toList
      rw [hstop, hstart, String.utf8Len_append, Nat.add_assoc]
    · obtain ⟨after, hslice⟩ := h.slices s hs
      exact ⟨after, hrest hslice⟩
  · refine List.forall_mem_cons.mpr ⟨⟨gap, _, ⟨[], rfl, rfl, hstart⟩, hgap⟩, fun g hg => ?_⟩
    obtain ⟨gap', after, hslice, hgap'⟩ := h.gaps g hg
    exact ⟨gap', after, hrest hslice, hgap'⟩

/-- **The tokens of a text tile it.** -/
theorem Splits.tiles {pos : ℕ} {text : List Char} {ls : List Lexeme} (h : Splits pos text ls) :
    Tiles pos text (placed pos text ls) := by
  induction h with
  | @done pos start text hskip =>
    obtain ⟨gap, htext, -, hgap⟩ := skipTrivia_passes hskip
    rw [List.append_nil] at htext
    rw [htext]
    exact .of_gap hgap
  | @token pos start c text behind rest t ls hskip hscan _ ih =>
    obtain ⟨gap, cs, rfl, hgap, hspelled, -, hstart, hstop⟩ := front_of_token hskip hscan
    have hsolid : start < Lexeme.stop ⟨t, start⟩ := by
      have hc := c.utf8Size_pos
      rw [hstop, hstart, hspelled, String.utf8Len_append, String.utf8Len_cons]
      omega
    have hend : pos + String.utf8Len (gap ++ (t.text.toList ++ rest)) =
        Lexeme.stop ⟨t, start⟩ + String.utf8Len rest := by
      rw [hstop, ← List.append_assoc, String.utf8Len_append, Nat.add_assoc]
    rw [placed, hend]
    exact ih.cons (hgap _) hstart hstop hsolid

/-! ### What may be put in -/

/-- Blanks, or a comment that is complete: a line comment with its line feed, or a block comment
that is closed. -/
inductive Piece : List Char → Prop
  | blanks {c : Char} {cs : List Char} : (∀ d ∈ c :: cs, isBlank d = true) → Piece (c :: cs)
  | line {body : List Char} : '\n' ∉ body → Piece ('/' :: '/' :: (body ++ ['\n']))
  | block {body : List Char} : ¬ ['*', '/'] <:+: body →
      Piece ('/' :: '*' :: (body ++ ['*', '/']))

/-- A block comment of several lines. -/
def SpansLines (piece : List Char) : Prop :=
  ∃ body, piece = '/' :: '*' :: (body ++ ['*', '/']) ∧ '\n' ∈ body

/-- Behind its last token the text, which starts at offset `pos`, has a line comment that no line
feed ends. -/
def EndsInLine (pos : ℕ) (text : List Char) (ls : List Lexeme) : Prop :=
  ∃ before gap body, text = before ++ (gap ++ '/' :: '/' :: body) ∧
    pos + String.utf8Len before = (ls.getLast?.map Lexeme.stop).getD pos ∧
    Gap ('/' :: '/' :: body) gap ∧ '\n' ∉ body

section Pieces

variable {piece : List Char}

theorem gap_of_blanks (rest : List Char) : ∀ {cs : List Char}, (∀ d ∈ cs, isBlank d = true) →
    Gap rest cs
  | [], _ => .nil
  | _ :: _, h => .blank (List.forall_mem_cons.mp h).1 (gap_of_blanks rest (List.forall_mem_cons.mp h).2)

theorem Piece.gap (h : Piece piece) (rest : List Char) : Gap rest piece := by
  cases h with
  | blanks hblank => exact gap_of_blanks rest hblank
  | line hbody => exact .line hbody (by simp) (.blank (by decide) .nil)
  | block hbody => exact .block hbody .nil

theorem Piece.setsApart (h : Piece piece) : ∃ c cs, piece = c :: cs ∧ SetsApart c := by
  cases h with
  | @blanks c cs hblank => exact ⟨c, cs, rfl, .inl (hblank c List.mem_cons_self)⟩
  | line => exact ⟨_, _, rfl, .inr rfl⟩
  | block => exact ⟨_, _, rfl, .inr rfl⟩

/-- Up to its first line feed a piece goes on with a line comment that is open, and what is left of
it is a gap, unless it is a block comment. -/
theorem Piece.gap_in_line (h : Piece piece) (hlines : ¬ SpansLines piece) {body : List Char}
    (hbody : '\n' ∉ body) : Gap [] ('/' :: '/' :: (body ++ piece)) := by
  have hshort : ∀ {p : List Char}, '\n' ∉ p → Gap [] ('/' :: '/' :: (body ++ p)) := by
    intro p hp
    have hline : Gap [] ('/' :: '/' :: (body ++ p ++ [])) :=
      .line (by simp [hbody, hp]) nofun .nil
    rwa [List.append_nil] at hline
  have hlong : ∀ {p q : List Char}, '\n' ∉ p → Gap [] ('\n' :: q) →
      Gap [] ('/' :: '/' :: (body ++ (p ++ '\n' :: q))) := by
    intro p q hp hq
    rw [← List.append_assoc]
    exact .line (by simp [hbody, hp]) (by simp) hq
  cases h with
  | @blanks c cs hblank =>
    by_cases hmem : '\n' ∈ c :: cs
    · obtain ⟨p, q, hsplit, hp⟩ := List.eq_append_cons_of_mem hmem
      rw [hsplit] at hblank ⊢
      exact hlong hp (gap_of_blanks [] fun d hd => hblank d (List.mem_append_right _ hd))
    · exact hshort hmem
  | @line body' hbody' =>
    have hp : '\n' ∉ '/' :: '/' :: body' := by simp [hbody']
    exact hlong (p := '/' :: '/' :: body') hp (.blank (by decide) .nil)
  | @block body' _ =>
    refine hshort ?_
    have hbody' : '\n' ∉ body' := fun hmem => hlines ⟨body', rfl, hmem⟩
    simp [hbody']

end Pieces

/-- Where a first part of a text ends, or later, the text is taken apart behind that part. -/
theorem split_behind {a b before after : List Char} (h : before ++ after = a ++ b)
    (hle : String.utf8Len a ≤ String.utf8Len before) : ∃ c, before = a ++ c ∧ b = c ++ after := by
  rcases List.append_eq_append_iff.mp h with ⟨c, ha, hafter⟩ | ⟨c, hbefore, hb⟩
  · have hnil : c = [] := by
      rw [ha, String.utf8Len_append] at hle
      exact String.utf8Len_eq_zero.mp (by omega)
    subst hnil
    exact ⟨[], by rw [ha, List.append_nil, List.append_nil], hafter.symm⟩
  · exact ⟨c, hbefore, hb⟩

/-- The text or one of its tokens begins or ends between the two parts. -/
def AtEdge (pos : ℕ) (before after : List Char) (ls : List Lexeme) : Prop :=
  before = [] ∨ after = [] ∨
    ∃ l ∈ ls, pos + String.utf8Len before = l.start ∨ pos + String.utf8Len before = l.stop

/-- The two parts meet in front of the text, where its first token begins, or behind that token. -/
theorem AtEdge.front {pos start : ℕ} {t : Token} {ls : List Lexeme}
    {before after gap rest : List Char} (hedge : AtEdge pos before after (⟨t, start⟩ :: ls))
    (hsplit : before ++ after = gap ++ (t.text.toList ++ rest))
    (hstart : start = pos + String.utf8Len gap)
    (hstop : Lexeme.stop ⟨t, start⟩ = pos + String.utf8Len (gap ++ t.text.toList))
    (hrest : Splits (Lexeme.stop ⟨t, start⟩) rest ls) :
    before = [] ∨ (before = gap ∧ after = t.text.toList ++ rest) ∨
      ∃ more, before = gap ++ (t.text.toList ++ more) ∧ rest = more ++ after ∧
        AtEdge (Lexeme.stop ⟨t, start⟩) more after ls := by
  have hlength := congrArg String.utf8Len hsplit
  rw [String.utf8Len_append] at hstop
  simp only [String.utf8Len_append] at hlength
  have hplace : before = [] ∨ String.utf8Len before = String.utf8Len gap ∨
      Lexeme.stop ⟨t, start⟩ ≤ pos + String.utf8Len before := by
    rcases hedge with hnil | rfl | ⟨l, hl, hl'⟩
    · exact .inl hnil
    · rw [String.utf8Len_nil] at hlength
      omega
    · rcases List.mem_cons.mp hl with rfl | hl
      · dsimp only at hl'
        omega
      · obtain ⟨_, _, -, hbegins⟩ := hrest.stands l hl
        have hends : l.start ≤ l.stop := Nat.le_add_right _ _
        omega
  rcases hplace with hnil | hhere | hlate
  · exact .inl hnil
  · obtain ⟨more, rfl, hafter⟩ := split_behind hsplit hhere.ge
    rw [String.utf8Len_append] at hhere
    obtain rfl : more = [] := String.utf8Len_eq_zero.mp (by omega)
    exact .inr (.inl ⟨List.append_nil gap, hafter.symm⟩)
  · rw [← List.append_assoc] at hsplit
    obtain ⟨more, rfl, rfl⟩ := split_behind hsplit (by rw [String.utf8Len_append]; omega)
    refine .inr (.inr ⟨more, List.append_assoc _ _ _, rfl, ?_⟩)
    rcases hedge with hnil | hnil | ⟨l, hl, hl'⟩
    · exact .inl (List.append_eq_nil_iff.mp hnil).2
    · exact .inr (.inl hnil)
    · simp only [String.utf8Len_append] at hl' hlate
      rcases List.mem_cons.mp hl with rfl | hl
      · dsimp only at hl'
        exact .inl (String.utf8Len_eq_zero.mp (by omega))
      · exact .inr (.inr ⟨l, hl, by omega⟩)

namespace Splits

variable {pos : ℕ} {text : List Char} {ls : List Lexeme}

/-- A gap in front of a text moves its tokens. -/
theorem behind_gap {gap : List Char} (h : Splits pos text ls) (hgap : Gap text gap) :
    Splits pos (gap ++ text) (ls.map (Lexeme.moved (String.utf8Len gap))) :=
  (h.moved _).of_skip (hgap.skipped pos)

theorem of_gap {gap : List Char} (hgap : Gap [] gap) (pos : ℕ) : Splits pos gap [] := by
  have hskip := hgap.skipped pos
  rw [List.append_nil] at hskip
  exact .done hskip

theorem map_moved (k : ℕ) (ls : List Lexeme) :
    (ls.map (Lexeme.moved k)).map (·.token) = ls.map (·.token) := by
  rw [List.map_map]
  rfl

/-- Put in behind all tokens, a piece may go on with a line comment that is open there. -/
theorem insert_end {gap : List Char} (hgap : Gap [] gap) {piece : List Char} (hpiece : Piece piece)
    (hfits : EndsInLine pos gap [] → ¬ SpansLines piece) : Gap [] (gap ++ piece) := by
  rcases hgap.ends with hany | ⟨before, body, rfl, hbody, hbefore⟩
  · exact (hany _).append (hpiece.gap [])
  · have hlines := hfits ⟨[], before, body, rfl, rfl, hbefore _, hbody⟩
    rw [List.append_assoc]
    exact (hbefore _).append (hpiece.gap_in_line hlines hbody)

/-- Behind a token the text ends in a line comment if it does so behind those that follow. -/
theorem endsInLine_cons {start : ℕ} {t : Token} {front rest : List Char}
    (hstop : Lexeme.stop ⟨t, start⟩ = pos + String.utf8Len front)
    (h : EndsInLine (Lexeme.stop ⟨t, start⟩) rest ls) :
    EndsInLine pos (front ++ rest) (⟨t, start⟩ :: ls) := by
  obtain ⟨before, gap, body, rfl, hbefore, hgap, hbody⟩ := h
  refine ⟨front ++ before, gap, body, (List.append_assoc _ _ _).symm, ?_, hgap, hbody⟩
  rw [hstop] at hbefore
  rw [String.utf8Len_append, ← Nat.add_assoc, hbefore, List.getLast?_cons]
  cases ls.getLast? with
  | none => exact hstop.symm
  | some l => rfl

section Token

variable {start : ℕ} {c : Char} {gap behind rest : List Char} {t : Token} {piece : List Char}

/-- A piece is put in between the gap in front of a token and the token. -/
theorem insert_before (hgap : ∀ rest, Gap rest gap) (hstart : start = pos + String.utf8Len gap)
    (hc : isBlank c = false ∧ c ≠ '/') (hscan : scanToken start c behind = .ok (t, rest))
    (hrest : Splits (Lexeme.stop ⟨t, start⟩) rest ls) (hpiece : Piece piece) :
    ∃ ls', Splits pos (gap ++ (piece ++ c :: behind)) ls' ∧
      ls'.map (·.token) = (⟨t, start⟩ :: ls).map Lexeme.token := by
  have htoken : Splits start (c :: behind) (⟨t, start⟩ :: ls) :=
    of_front .nil rfl hc hscan hrest
  refine ⟨_, (htoken.behind_gap (hpiece.gap _)).of_skip ?_, map_moved _ _⟩
  rw [(hgap _).skipped pos, hstart]

/-- A piece that is put in further on leaves the token as it is. -/
theorem insert_behind {before after : List Char} (hgap : ∀ rest, Gap rest gap)
    (hstart : start = pos + String.utf8Len gap) (hc : isBlank c = false ∧ c ≠ '/')
    (hscan : scanToken start c behind = .ok (t, before ++ after)) (hpiece : Piece piece)
    (hrest : Splits (Lexeme.stop ⟨t, start⟩) (before ++ (piece ++ after)) ls) :
    Splits pos (gap ++ (t.text.toList ++ (before ++ (piece ++ after)))) (⟨t, start⟩ :: ls) := by
  obtain ⟨sep, more, rfl, hsep⟩ := hpiece.setsApart
  obtain ⟨cs, hcs, hscan'⟩ := scanToken_apart hscan hsep (more ++ after) start
  rw [hcs, List.cons_append]
  exact of_front (hgap _) hstart hc hscan' hrest

end Token

/-- **Blanks and comments can be put in where a token begins or ends**, or in front of the text. -/
theorem insert (h : Splits pos text ls) {piece : List Char} (hpiece : Piece piece) :
    ∀ {before after : List Char}, text = before ++ after → AtEdge pos before after ls →
      (after = [] → EndsInLine pos text ls → ¬ SpansLines piece) →
        ∃ ls', Splits pos (before ++ (piece ++ after)) ls' ∧
          ls'.map (·.token) = ls.map (·.token) := by
  induction h with
  | @done pos start text hskip =>
    intro before after htext hedge hfits
    obtain ⟨gap, hgaptext, -, hgap⟩ := skipTrivia_passes hskip
    rw [List.append_nil] at hgaptext
    subst hgaptext
    rcases hedge with rfl | rfl | ⟨l, hl, -⟩
    · subst htext
      exact ⟨_, (Splits.done hskip).behind_gap (hpiece.gap _), rfl⟩
    · rw [List.append_nil] at htext
      subst htext
      refine ⟨[], of_gap ?_ pos, rfl⟩
      rw [List.append_nil]
      exact insert_end hgap hpiece (hfits rfl)
    · cases hl
  | @token pos start c text behind rest t ls hskip hscan hrest ih =>
    intro before after htext hedge hfits
    obtain ⟨gap, cs, htok, hgap, -, hc, hstart, hstop⟩ := front_of_token hskip hscan
    rcases hedge.front (htext.symm.trans htok) hstart hstop hrest with
      rfl | ⟨rfl, rfl⟩ | ⟨more, rfl, rfl, hedge⟩
    · subst htext
      exact ⟨_, (Splits.token hskip hscan hrest).behind_gap (hpiece.gap _), map_moved _ _⟩
    · rw [← (scanToken_cases hscan).1]
      exact insert_before hgap hstart hc hscan hrest hpiece
    · have hfits' : after = [] → EndsInLine (Lexeme.stop ⟨t, start⟩) (more ++ after) ls →
          ¬ SpansLines piece := by
        intro hnil hline
        refine hfits hnil ?_
        rw [htok, ← List.append_assoc]
        exact endsInLine_cons hstop hline
      obtain ⟨ls', hls', htokens⟩ := ih rfl hedge hfits'
      refine ⟨⟨t, start⟩ :: ls', ?_, congrArg (t :: ·) htokens⟩
      rw [List.append_assoc, List.append_assoc]
      exact insert_behind hgap hstart hc hscan hpiece hls'

end Splits

/-! ### Texts -/

/-- The offset is one where a token of the text or its end begins or ends. -/
def Edge (tiles : List Placed) (offset : ℕ) : Prop :=
  ∃ s ∈ tiles, offset = s.start ∨ offset = s.stop

/-- **Signature tokens tile the text on character boundaries.** Splitting a text byte by byte comes
to an end, with every slice between two characters, and to the tokens of the text. These tile it,
and blanks and complete comments can be put in where a token begins or ends; only a block comment of
several lines cannot at the end of a text that ends within a line comment. -/
theorem tokenize_tiles (text : List Char) :
    Bytes.tokenize (encode text) = some ((tokenize text).map (placed 0 text)) ∧
      ∀ ls, tokenize text = .ok ls → Tiles 0 text (placed 0 text ls) ∧
        ∀ before after piece, text = before ++ after →
          Edge (placed 0 text ls) (String.utf8Len before) → Piece piece →
          (after = [] → EndsInLine 0 text ls → ¬ SpansLines piece) →
            ∃ ls', tokenize (before ++ (piece ++ after)) = .ok ls' ∧
              ls'.map (·.token) = ls.map (·.token) := by
  refine ⟨Bytes.tokenize_encode text, fun ls hls => ?_⟩
  have hsplits := tokenize_iff.mp hls
  refine ⟨hsplits.tiles, fun before after piece htext hedge hpiece hfits => ?_⟩
  have hedge' : AtEdge 0 before after ls := by
    obtain ⟨s, hs, hs'⟩ := hedge
    rcases List.mem_append.mp hs with hs | hs
    · obtain ⟨l, hl, rfl⟩ := List.mem_map.mp hs
      exact .inr (.inr ⟨l, hl, by rwa [Nat.zero_add]⟩)
    · obtain rfl := List.mem_singleton.mp hs
      refine .inr (.inl (String.utf8Len_eq_zero.mp ?_))
      rw [htext, String.utf8Len_append] at hs'
      dsimp only at hs'
      omega
  obtain ⟨ls', hls', htokens⟩ := hsplits.insert hpiece htext hedge' hfits
  exact ⟨ls', tokenize_iff.mpr hls', htokens⟩

/-- A block comment between a name and an arrow, where characters take up to three bytes. -/
theorem tokenize_tiles_arrow :
    tokenize "é=>'€'".toList =
        .ok [⟨.name "é", 0⟩, ⟨.punct .arrow, 2⟩, ⟨.value ⟨"'€'", .string⟩, 4⟩] ∧
      ∃ ls', tokenize "é/* ü
 */=>'€'".toList = .ok ls' ∧
        ls'.map (·.token) = [.name "é", .punct .arrow, .value ⟨"'€'", .string⟩] := by
  have hls : tokenize "é=>'€'".toList =
      .ok [⟨.name "é", 0⟩, ⟨.punct .arrow, 2⟩, ⟨.value ⟨"'€'", .string⟩, 4⟩] := by decide +kernel
  have hpiece : Piece "/* ü
 */".toList := @Piece.block " ü
 ".toList (by decide)
  have hedge : Edge (placed 0 "é=>'€'".toList
      [⟨.name "é", 0⟩, ⟨.punct .arrow, 2⟩, ⟨.value ⟨"'€'", .string⟩, 4⟩])
      (String.utf8Len "é".toList) :=
    ⟨⟨some (.punct .arrow), 2, 4⟩,
      List.mem_append_left _ (List.mem_cons_of_mem _ List.mem_cons_self), .inl rfl⟩
  exact ⟨hls, ((tokenize_tiles "é=>'€'".toList).2 _ hls).2 "é".toList "=>'€'".toList
    "/* ü
 */".toList (by decide) hedge hpiece (fun h => absurd h (by decide))⟩

/-- At the end of a line comment, a block comment of several lines leaves its second line behind. -/
theorem block_put_in_line : ¬ ∀ text ls before after piece, tokenize text = .ok ls →
    text = before ++ after → Edge (placed 0 text ls) (String.utf8Len before) → Piece piece →
      ∃ ls', tokenize (before ++ (piece ++ after)) = .ok ls' ∧
        ls'.map (·.token) = ls.map (·.token) := by
  intro h
  have hls : tokenize "A // x".toList = .ok [⟨.name "A", 0⟩] := by decide +kernel
  have hedge : Edge (placed 0 "A // x".toList [⟨.name "A", 0⟩]) (String.utf8Len "A // x".toList) :=
    ⟨⟨none, _, _⟩, List.mem_append_right _ (List.mem_singleton_self _), .inl (Nat.zero_add _).symm⟩
  obtain ⟨ls', hls', -⟩ := h _ _ "A // x".toList [] "/* y
*/".toList hls (by decide) hedge
    (@Piece.block " y
".toList (by decide))
  have herror : tokenize ("A // x".toList ++ ("/* y
*/".toList ++ [])) =
      .error ⟨11, .type, .text "*"⟩ := by decide +kernel
  rw [herror] at hls'
  cases hls'

end Signature
end Countersign
