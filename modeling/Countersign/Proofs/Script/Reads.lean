/-
# Reading in order

Reading a program never goes back: every step of the scanner ends no sooner than it starts, and
past the start of a reserved word. What was noted at offsets before the current token therefore
stays before it, whatever is read next, and the offset of a reserved word that is passed comes after
everything noted so far. The comments that are come across on the way stand in the text.

`Reads` says so for one piece of reading, with a lemma for each way of putting pieces together.

Key definitions: `Within`, `Reads`, `Gives`.
Key theorems: `Reads.bind`, `Parse.next_word`, `Parse.repeatWhile_gives`.
-/
import Countersign.Proofs.Script.Scanner

namespace Countersign
namespace Script

/-! ### Tokens follow each other -/

theorem skipTrivia_pos (t : Trivia) (pos : Nat) (text : List Char) :
    pos ≤ (skipTrivia t pos text).pos := by
  fun_induction skipTrivia t pos text <;> first
    | exact le_refl _
    | omega
    | (simp only [Skipped.after, Skipped.afterComment]; omega)

theorem lexNumber_kind (text : List Char) : (lexNumber text).kind = .number := by
  unfold lexNumber
  split
  · split <;> rfl
  · rfl

theorem lexMark_kind (text : List Char) (w : Word) : (lexMark text).kind ≠ .word w := by
  unfold lexMark
  split <;> exact TokenKind.noConfusion

/-- A reserved word has at least one letter. -/
theorem lexToken_word {text : List Char} {w : Word} (h : (lexToken text).kind = .word w) :
    0 < (lexToken text).length := by
  cases text with
  | nil => cases h
  | cons c text =>
    simp only [lexToken] at h ⊢
    split at h
    · cases h
    · split at h
      · rw [lexNumber_kind] at h
        cases h
      · split at h
        · rename_i hquote hdigit hstart
          rw [if_neg hquote, if_neg hdigit, if_pos hstart]
          exact Nat.succ_pos _
        · exact absurd h (lexMark_kind _ w)

/-- The token ends no sooner than it starts, and later if it is a reserved word. -/
def Token.Fine (t : Token) : Prop :=
  t.span.pos ≤ t.span.stop ∧ ∀ w, t.kind = .word w → t.span.pos < t.span.stop

theorem scanAt_fine (text : List Char) (pos : Nat) :
    pos ≤ (scanAt text pos).token.span.pos ∧ (scanAt text pos).token.Fine := by
  refine ⟨skipTrivia_pos _ _ _, Nat.le_add_right _ _, fun w hw => ?_⟩
  have hlength := lexToken_word hw
  show _ < _ + _
  exact Nat.lt_add_of_pos_right hlength

/-! ### Offsets in order -/

/-- The offsets grow, from `lo` on and below `hi`. -/
structure Within (lo : Nat) (ms : List Nat) (hi : Nat) : Prop where
  increasing : ms.Pairwise (· < ·)
  bounds : ∀ m ∈ ms, lo ≤ m ∧ m < hi
  ordered : lo ≤ hi

theorem Within.widen {lo hi hi' : Nat} {ms : List Nat} (h : Within lo ms hi) (hle : hi ≤ hi') :
    Within lo ms hi' where
  increasing := h.increasing
  bounds m hm := ⟨(h.bounds m hm).1, (h.bounds m hm).2.trans_le hle⟩
  ordered := h.ordered.trans hle

theorem Within.sublist {lo hi : Nat} {ms ns : List Nat} (h : Within lo ms hi) (hsub : ns.Sublist ms) :
    Within lo ns hi where
  increasing := h.increasing.sublist hsub
  bounds m hm := h.bounds m (hsub.subset hm)
  ordered := h.ordered

/-- The place where reading stands comes after everything that was read. -/
theorem Within.snoc {lo hi hi' : Nat} {ms : List Nat} (h : Within lo ms hi) (hlt : hi < hi') :
    Within lo (ms ++ [hi]) hi' where
  increasing := by
    rw [List.pairwise_append]
    refine ⟨h.increasing, List.pairwise_singleton _ _, fun m hm n hn => ?_⟩
    rw [List.mem_singleton.mp hn]
    exact (h.bounds m hm).2
  bounds m hm := by
    rcases List.mem_append.mp hm with hm | hm
    · exact ⟨(h.bounds m hm).1, (h.bounds m hm).2.trans hlt⟩
    · rw [List.mem_singleton.mp hm]
      exact ⟨h.ordered, hlt⟩
  ordered := h.ordered.trans hlt.le

/-! ### Reading in order -/

/-- Where reading stands: the start of the current token. -/
def ParseState.here (s : ParseState) : Nat := s.scanner.token.span.pos

/-- The current token is fine, and the comments so far stand in the text. -/
structure ParseState.Fine (s : ParseState) : Prop where
  token : s.scanner.token.Fine
  comments : s.scanner.Faithful

/-- After the offsets `before` from `lo` on, reading leads to the offsets `total`. -/
def Reads {α : Type} (p : Parse α) (lo : Nat) (before : List Nat) (total : α → List Nat) : Prop :=
  ∀ s a s', s.Fine → Within lo before s.here → p s = some (a, s') →
    s'.Fine ∧ Within lo (total a) s'.here

/-- After whatever was read before, reading adds the offsets of its result. -/
def Gives {α : Type} (p : Parse α) (m : α → List Nat) : Prop :=
  ∀ lo before, Reads p lo before fun a => before ++ m a

section Reads

variable {α β : Type} {lo : Nat} {before : List Nat}

theorem bind_some {p : Parse α} {f : α → Parse β} {s s'' : ParseState} {b : β}
    (h : (p >>= f) s = some (b, s'')) : ∃ a s', p s = some (a, s') ∧ f a s' = some (b, s'') := by
  obtain ⟨⟨a, s'⟩, hp, hf⟩ := Option.bind_eq_some_iff.mp h
  exact ⟨a, s', hp, hf⟩

theorem Reads.bind {p : Parse α} {f : α → Parse β} {mid : α → List Nat} {total : β → List Nat}
    (hp : Reads p lo before mid) (hf : ∀ a, Reads (f a) lo (mid a) total) :
    Reads (p >>= f) lo before total := by
  intro s b s'' hfine hwithin h
  obtain ⟨a, s', hp', hf'⟩ := bind_some h
  obtain ⟨hfine', hwithin'⟩ := hp s a s' hfine hwithin hp'
  exact hf a s' b s'' hfine' hwithin' hf'

theorem Reads.pure {a : α} {total : α → List Nat} (h : total a = before) :
    Reads (Pure.pure a) lo before total := by
  intro s b s' hfine hwithin hpure
  cases hpure
  rw [h]
  exact ⟨hfine, hwithin⟩

theorem Reads.done {a : α} : Reads (Pure.pure a) lo before fun _ => before := .pure rfl

theorem Reads.map {p : Parse α} {f : α → β} {mid : α → List Nat} {total : β → List Nat}
    (hp : Reads p lo before mid) (hf : ∀ a, total (f a) = mid a) :
    Reads (f <$> p) lo before total := by
  intro s b s' hfine hwithin h
  obtain ⟨⟨a, s₁⟩, hp', hmap⟩ := Option.bind_eq_some_iff.mp h
  cases hmap
  rw [hf]
  exact hp s a _ hfine hwithin hp'

theorem Reads.mapped {p : Parse α} {f : α → β} (hp : Reads p lo before fun _ => before) :
    Reads (f <$> p) lo before fun _ => before := hp.map fun _ => rfl

/-- The offsets of what may be absent. -/
@[simp]
def maybe (m : α → List Nat) : Option α → List Nat
  | none => []
  | some a => m a

theorem Reads.optional {p : Parse α} {m : α → List Nat}
    (hp : Reads p lo before fun a => before ++ m a) :
    Reads (some <$> p) lo before fun a => before ++ maybe m a := hp.map fun _ => rfl

theorem Reads.absent (m : α → List Nat) :
    Reads (Pure.pure none) lo before fun a => before ++ maybe m a := .pure (List.append_nil _)

/-- What is absent from a list adds nothing to it. -/
theorem flatMap_filterMap (m : α → List Nat) (as : List (Option α)) :
    (as.filterMap id).flatMap m = as.flatMap (maybe m) := by
  induction as with
  | nil => rfl
  | cons a as ih =>
    cases a with
    | none => exact ih
    | some a => exact congrArg (m a ++ ·) ih

theorem Reads.ite {p q : Parse α} {total : α → List Nat} {c : Prop} [Decidable c]
    (hp : Reads p lo before total) (hq : Reads q lo before total) :
    Reads (if c then p else q) lo before total := by
  split
  · exact hp
  · exact hq

theorem Reads.stuck {total : α → List Nat} : Reads Parse.stuck lo before total := by
  intro s a s' _ _ h
  cases h

/-- What only looks at the state leads to nothing new. -/
theorem Reads.look {p : Parse α} (f : ParseState → α) (h : ∀ s, p s = some (f s, s)) :
    Reads p lo before fun _ => before := by
  intro s a s' hfine hwithin hp
  rw [h] at hp
  cases hp
  exact ⟨hfine, hwithin⟩

/-- What leaves the current token alone leads to nothing new. -/
theorem Reads.keep {p : Parse α}
    (h : ∀ s a s', p s = some (a, s') → s'.scanner.token = s.scanner.token ∧
      (s.scanner.Faithful → s'.scanner.Faithful)) :
    Reads p lo before fun _ => before := by
  intro s a s' hfine hwithin hp
  obtain ⟨htoken, hcomments⟩ := h s a s' hp
  unfold ParseState.here at *
  rw [htoken]
  refine ⟨⟨?_, hcomments hfine.comments⟩, hwithin⟩
  rw [htoken]
  exact hfine.token

/-- What leads to nothing new gives nothing. -/
theorem gives_of_reads {p : Parse α} (h : ∀ lo before, Reads p lo before fun _ => before) :
    Gives p fun _ => [] := by
  intro lo before
  simpa using h lo before

end Reads

/-! ### Basic moves -/

namespace Parse

variable {α : Type} {lo : Nat} {before : List Nat}

theorem next_state (s : ParseState) : next s =
    some ((), { s with lastEnd := s.scanner.token.span.stop, scanner := s.scanner.scan }) := rfl

theorem scan_fine (s : Scanner) : s.token.span.stop ≤ s.scan.token.span.pos ∧ s.scan.token.Fine := by
  rw [scan_token]
  exact scanAt_fine _ _

theorem next_reads : Reads next lo before fun _ => before := by
  intro s a s' hfine hwithin h
  rw [next_state] at h
  cases h
  obtain ⟨hpos, hfine'⟩ := scan_fine s.scanner
  exact ⟨⟨hfine', hfine.comments.scan⟩, hwithin.widen (hfine.token.1.trans hpos)⟩

/-- Passing a reserved word, its offset is left behind. -/
theorem next_word {s s' : ParseState} {u : Unit} {w : Word} (hfine : s.Fine)
    (hword : s.scanner.token.kind = .word w) (hwithin : Within lo before s.here)
    (h : next s = some (u, s')) : s'.Fine ∧ Within lo (before ++ [s.here]) s'.here := by
  rw [next_state] at h
  cases h
  obtain ⟨hpos, hfine'⟩ := scan_fine s.scanner
  exact ⟨⟨hfine', hfine.comments.scan⟩, hwithin.snoc ((hfine.token.2 w hword).trans_le hpos)⟩

theorem expect_of_kind {s : ParseState} {k : TokenKind} (h : s.scanner.token.kind = k) :
    expect k s = next s := by
  have hfound : (s.scanner.token.kind == k) = true := by rw [h, beq_self_eq_true]
  show (if s.scanner.token.kind == k then _ else _ : Parse Bool) s >>= _ = _
  rw [hfound]
  rfl

/-- What follows a token that may be there goes on after it, or where it is not. -/
theorem accept_bind {k : TokenKind} {p q : Parse α} :
    (accept k >>= fun found => if found = true then p else q) =
      (at? k >>= fun found => if found = true then next >>= fun _ => p else q) := by
  funext s
  show (if (s.scanner.token.kind == k) = true then _ else _ : Parse Bool) s >>= _ =
    (if (s.scanner.token.kind == k) = true then _ else _ : Parse α) s
  split <;> rfl

theorem token_reads : Reads token lo before fun _ => before := .look _ fun _ => rfl

theorem kind_reads : Reads kind lo before fun _ => before := .look _ fun _ => rfl

theorem kind_eq {s s' : ParseState} {k : TokenKind} (h : kind s = some (k, s')) :
    s.scanner.token.kind = k ∧ s = s' := by
  cases h
  exact ⟨rfl, rfl⟩

theorem pos_reads : Reads pos lo before fun _ => before := .look _ fun _ => rfl

theorem spanFrom_reads (start : Nat) : Reads (spanFrom start) lo before fun _ => before :=
  .look _ fun _ => rfl

/-- What follows gets a span from where it was asked for. -/
theorem spanFrom_bind {start : Nat} {f : Span → Parse α} {total : α → List Nat}
    (h : ∀ stop, Reads (f ⟨start, stop⟩) lo before total) :
    Reads (spanFrom start >>= f) lo before total := by
  intro s a s' hfine hwithin hread
  obtain ⟨span, s₁, hspan, hread⟩ := bind_some hread
  cases hspan
  exact h _ s a s' hfine hwithin hread

theorem lineBreakBefore_reads : Reads lineBreakBefore lo before fun _ => before :=
  .look _ fun _ => rfl

theorem get_reads : Reads (get : Parse ParseState) lo before fun _ => before := .look _ fun _ => rfl

theorem at?_reads (k : TokenKind) : Reads (at? k) lo before fun _ => before := .look _ fun _ => rfl

theorem atMark_reads (m : Mark) : Reads (atMark m) lo before fun _ => before := .look _ fun _ => rfl

theorem atWord_reads (w : Word) : Reads (atWord w) lo before fun _ => before := .look _ fun _ => rfl

theorem before_reads (m : Mark) : Reads (Parse.before m) lo before fun _ => before :=
  .look _ fun _ => rfl

theorem peekKind_reads : Reads peekKind lo before fun _ => before := by
  refine .keep fun s a s' h => ?_
  cases h
  exact ⟨peek_token s.scanner 1, fun hcomments => hcomments.peek 1⟩

theorem modify_reads {f : ParseState → ParseState} (h : ∀ s, (f s).scanner = s.scanner) :
    Reads (modify f : Parse Unit) lo before fun _ => before := by
  refine .keep fun s a s' hmodify => ?_
  cases hmodify
  rw [h]
  exact ⟨rfl, id⟩

theorem report_reads (f : Fault) : Reads (report f) lo before fun _ => before := by
  refine pos_reads.bind fun pos => modify_reads fun s => ?_
  split <;> rfl

theorem accept_reads (k : TokenKind) : Reads (accept k) lo before fun _ => before := by
  refine (at?_reads k).bind fun found => .ite ?_ (.pure rfl)
  exact next_reads.bind fun _ => .pure rfl

theorem acceptMark_reads (m : Mark) : Reads (acceptMark m) lo before fun _ => before :=
  accept_reads _

theorem expect_reads (k : TokenKind) : Reads (expect k) lo before fun _ => before :=
  (accept_reads k).bind fun _ => .ite (.pure rfl) (report_reads _)

theorem expectMark_reads (m : Mark) : Reads (expectMark m) lo before fun _ => before :=
  expect_reads _

theorem expectSemicolon_reads : Reads expectSemicolon lo before fun _ => before := by
  refine (atMark_reads _).bind fun _ => .ite next_reads ?_
  refine (atMark_reads _).bind fun _ => ?_
  refine (at?_reads _).bind fun _ => ?_
  refine lineBreakBefore_reads.bind fun _ => .ite (.pure rfl) (report_reads _)

theorem withNoIn_reads {p : Parse α} {total : α → List Nat} (noIn : Bool)
    (h : Reads p lo before total) : Reads (withNoIn noIn p) lo before total := by
  refine get_reads.bind fun s => ?_
  refine Reads.bind (modify_reads ?_) fun _ => h.bind fun a => ?_
  · exact fun _ => rfl
  · refine Reads.bind (modify_reads ?_) fun _ => .pure rfl
    exact fun _ => rfl

theorem repeatWhile_gives {more : Parse Bool} {item : Parse α} {m : α → List Nat}
    (hmore : ∀ lo before, Reads more lo before fun _ => before) (hitem : Gives item m) :
    ∀ limit, Gives (repeatWhile more item limit) fun as => as.flatMap m
  | 0, _, _ => .stuck
  | limit + 1, lo, before => by
    refine (hmore lo before).bind fun _ => .ite ?_ (.pure (by simp))
    refine (hitem lo before).bind fun a => ?_
    exact (repeatWhile_gives hmore hitem limit lo _).bind fun _ => .pure (by simp)

theorem commaList_gives {more : Parse Bool} {item : Parse α} {m : α → List Nat}
    (hmore : ∀ lo before, Reads more lo before fun _ => before) (hitem : Gives item m) :
    ∀ limit, Gives (commaList more item limit) fun as => as.flatMap m
  | 0, _, _ => .stuck
  | limit + 1, lo, before => by
    refine (hmore lo before).bind fun _ => .ite ?_ (.pure (by simp))
    refine (hitem lo before).bind fun a => ?_
    refine (acceptMark_reads _).bind fun _ => .ite ?_ (.pure (by simp))
    exact (commaList_gives hmore hitem limit lo _).bind fun _ => .pure (by simp)

end Parse

/-- An operator that is found is the current token. -/
theorem Rule.operator?_some (least : Nat) (s : ParseState) :
    ∃ found, Rule.operator? least s = some (found, s) ∧
      ∀ op, found = some op → s.scanner.token.kind = op.1 ∧ op.1 ≠ .endOfFile := by
  have hrun : Rule.operator? least s =
      (if (s.scanner.token.kind == .word .inWord && s.noIn) = true then (pure none : Parse _)
        else _) s := rfl
  rw [hrun]
  split
  · exact ⟨none, rfl, by simp⟩
  · cases hlevel : s.scanner.token.kind.level? with
    | none => exact ⟨none, rfl, by simp⟩
    | some level =>
      dsimp only
      split
      · refine ⟨some (s.scanner.token.kind, level), rfl, fun op h => ?_⟩
        cases h
        refine ⟨rfl, fun hend => ?_⟩
        dsimp only at hend
        rw [hend] at hlevel
        cases hlevel
      · exact ⟨none, rfl, by simp⟩

end Script
end Countersign
