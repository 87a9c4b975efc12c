/-
# Reading that comes to an end

Reading moves on through a text of which less and less is left. `Moves` says what one piece of
reading does to where reading stands: it never goes back, it leaves the depth of nesting as it was,
and under a condition it passes at least one token. `Lands` says that a piece of reading comes to
an end in such a way, with a lemma for each way of putting pieces together. A loop ends within any
bound that is larger than what is left, if each round but the last passes a token.

How deep expressions are nested is bounded by how many brackets and functions were opened before,
which is what `Ready` and `Room` keep track of.

Key definitions: `left`, `opened`, `Ready`, `Moves`, `Lands`, `Inside`, `Room`.
Key theorems: `Lands.bind`, `Parse.next_lands`, `Parse.repeatWhile_lands`, `Parse.commaList_lands`.
-/
import Countersign.Proofs.Script.Tokens

namespace Countersign
namespace Script

/-! ### What is left of a text, and what was opened in it -/

/-- How many characters of a text are left where reading stands. -/
def left (text : List Char) (s : ParseState) : Nat := text.length - s.here

/-- Tokens that open something an expression may be nested in. -/
def TokenKind.opens : TokenKind → Bool
  | .mark .openParen => true
  | .mark .openBracket => true
  | .mark .openBrace => true
  | .word .functionWord => true
  | _ => false

/-- The kind of the token that is read at an offset of a text. -/
def kindAt (text : List Char) (pos : Nat) : TokenKind := (lexToken (text.drop pos)).kind

/-- At how many offsets before `pos` something is opened. -/
def opened (text : List Char) (pos : Nat) : Nat :=
  (List.range pos).countP fun q => (kindAt text q).opens

section opened

variable {text : List Char} {pos pos' : Nat}

theorem opened_succ (text : List Char) (pos : Nat) :
    opened text (pos + 1) = opened text pos + if (kindAt text pos).opens then 1 else 0 := by
  rw [opened, List.range_succ, List.countP_append, List.countP_singleton]
  rfl

theorem opened_mono (h : pos ≤ pos') : opened text pos ≤ opened text pos' := by
  induction h with
  | refl => exact le_refl _
  | step _ ih =>
    rw [Nat.succ_eq_add_one, opened_succ]
    omega

/-- What is opened at an offset counts after it. -/
theorem opened_lt (h : pos < pos') (hopens : (kindAt text pos).opens = true) :
    opened text pos < opened text pos' := by
  have hsucc : opened text (pos + 1) = opened text pos + 1 := by rw [opened_succ, hopens, if_pos rfl]
  have hmono : opened text (pos + 1) ≤ opened text pos' := opened_mono h
  omega

end opened

/-! ### Where reading stands -/

/-- Reading stands at a token of the text, and no deeper than one expression in each of the things
that were opened. -/
structure Ready (text : List Char) (s : ParseState) : Prop where
  text_eq : s.scanner.text = text
  scanned : ∃ pos, s.scanner.token = (scanAt text pos).token
  depth_le : s.depth ≤ opened text s.here + 1

/-- The kind of the current token. -/
def ParseState.kind (s : ParseState) : TokenKind := s.scanner.token.kind

/-- Reading went on from `s` to `s'`, and passed a token if `c` holds. -/
structure Moves (text : List Char) (c : Prop) (s s' : ParseState) : Prop where
  ready : Ready text s'
  depth_eq : s'.depth = s.depth
  here_le : s.here ≤ s'.here
  passes : c → left text s' < left text s

/-- Reading stands where it stood. -/
structure Stays (s s' : ParseState) : Prop where
  text_eq : s'.scanner.text = s.scanner.text
  token_eq : s'.scanner.token = s.scanner.token
  depth_eq : s'.depth = s.depth

/-- Less than `n` characters are left. -/
structure Inside (text : List Char) (n : Nat) (s : ParseState) : Prop where
  ready : Ready text s
  left_lt : left text s < n

/-- Less than `n` characters are left, and an expression may start here. -/
structure Room (text : List Char) (n : Nat) (s : ParseState) : Prop extends Inside text n s where
  depth_le_opened : s.depth ≤ opened text s.here

section Moves

variable {text : List Char} {c d : Prop} {n : Nat} {s s' s'' : ParseState}

theorem Inside.succ (h : Inside text n s) : Inside text (n + 1) s := ⟨h.ready, Nat.lt_succ_of_lt h.left_lt⟩

theorem Room.succ (h : Room text n s) : Room text (n + 1) s := ⟨h.toInside.succ, h.depth_le_opened⟩

theorem Ready.kind_eq (h : Ready text s) : s.kind = kindAt text s.here := by
  obtain ⟨pos, hpos⟩ := h.scanned
  rw [ParseState.kind, ParseState.here, hpos]
  exact scanAt_kind text pos

theorem Ready.here_lt (h : Ready text s) (hkind : s.kind ≠ .endOfFile) : s.here < text.length := by
  by_contra hge
  rw [h.kind_eq, kindAt, List.drop_eq_nil_of_le (Nat.le_of_not_lt hge)] at hkind
  exact hkind rfl

theorem Ready.fine (h : Ready text s) : s.here ≤ s.scanner.token.span.stop := by
  obtain ⟨pos, hpos⟩ := h.scanned
  rw [ParseState.here, hpos]
  exact (scanAt_fine text pos).2.1

theorem Ready.solid (h : Ready text s) : s.scanner.token.Solid := by
  obtain ⟨pos, hpos⟩ := h.scanned
  rw [hpos]
  exact scanAt_solid text pos

theorem Moves.refl (h : Ready text s) (hc : ¬ c) : Moves text c s s :=
  ⟨h, rfl, le_refl _, fun h => absurd h hc⟩

theorem Moves.left_le (h : Moves text c s s') : left text s' ≤ left text s := by
  have hle := h.here_le
  unfold left
  omega

theorem Moves.mono (h : Moves text c s s') (hcd : d → c) : Moves text d s s' :=
  ⟨h.ready, h.depth_eq, h.here_le, fun hd => h.passes (hcd hd)⟩

theorem Moves.trans (h : Moves text c s s') (h' : Moves text d s' s'') : Moves text (c ∨ d) s s'' where
  ready := h'.ready
  depth_eq := h'.depth_eq.trans h.depth_eq
  here_le := h.here_le.trans h'.here_le
  passes hcd := by
    have hle := h.left_le
    have hle' := h'.left_le
    rcases hcd with hc | hd
    · exact hle'.trans_lt (h.passes hc)
    · exact (h'.passes hd).trans_le hle

/-- What was passed stays passed. -/
theorem Moves.andThen (h : Moves text True s s') (h' : Moves text c s' s'') : Moves text True s s'' :=
  (h.trans h').mono fun _ => .inl trivial

theorem Moves.inside (h : Moves text c s s') (hs : Inside text n s) : Inside text n s' :=
  ⟨h.ready, h.left_le.trans_lt hs.left_lt⟩

theorem Moves.room (h : Moves text c s s') (hs : Room text n s) : Room text n s' where
  toInside := h.inside hs.toInside
  depth_le_opened := by
    rw [h.depth_eq]
    exact hs.depth_le_opened.trans (opened_mono h.here_le)

/-- A token that was passed leaves less of the text. -/
theorem Moves.inside_of_pass (h : Moves text True s s') (hs : Inside text (n + 1) s) :
    Inside text n s' := by
  have hlt := h.passes trivial
  have hs' := hs.left_lt
  exact ⟨h.ready, by omega⟩

theorem Moves.room_of_pass (h : Moves text True s s') (hs : Room text (n + 1) s) : Room text n s' where
  toInside := h.inside_of_pass hs.toInside
  depth_le_opened := (h.room hs).depth_le_opened

/-- After something is opened an expression may start. -/
theorem Moves.room_of_opens (h : Moves text True s s') (hs : Inside text (n + 1) s)
    (hopens : s.kind.opens = true) : Room text n s' where
  toInside := h.inside_of_pass hs
  depth_le_opened := by
    have hlt : s.here < s'.here := by
      have hpasses := h.passes trivial
      unfold left at hpasses
      omega
    rw [hs.ready.kind_eq] at hopens
    have hopened := opened_lt hlt hopens
    have hdepth := hs.ready.depth_le
    rw [h.depth_eq]
    omega

theorem Stays.here_eq (h : Stays s s') : s'.here = s.here := by
  rw [ParseState.here, h.token_eq, ParseState.here]

theorem Stays.kind_eq (h : Stays s s') : s'.kind = s.kind := by
  rw [ParseState.kind, h.token_eq, ParseState.kind]

theorem Stays.left_eq (h : Stays s s') : left text s' = left text s := by
  rw [left, h.here_eq, left]

theorem Stays.ready (h : Stays s s') (hs : Ready text s) : Ready text s' where
  text_eq := h.text_eq.trans hs.text_eq
  scanned := by
    rw [h.token_eq]
    exact hs.scanned
  depth_le := by
    rw [h.depth_eq, h.here_eq]
    exact hs.depth_le

theorem Stays.inside (h : Stays s s') (hs : Inside text n s) : Inside text n s' :=
  ⟨h.ready hs.ready, h.left_eq.trans_lt hs.left_lt⟩

theorem Stays.room (h : Stays s s') (hs : Room text n s) : Room text n s' where
  toInside := h.inside hs.toInside
  depth_le_opened := by
    rw [h.depth_eq, h.here_eq]
    exact hs.depth_le_opened

theorem Stays.moves (h : Stays s s') (h' : Moves text c s' s'') : Moves text c s s'' where
  ready := h'.ready
  depth_eq := h'.depth_eq.trans h.depth_eq
  here_le := h.here_eq.symm.trans_le h'.here_le
  passes hc := (h'.passes hc).trans_eq h.left_eq

end Moves

/-! ### Coming to an end -/

/-- Reading from `s` comes to an end, and passes a token if `c` holds. -/
def Lands {α : Type} (text : List Char) (c : Prop) (p : Parse α) (s : ParseState) : Prop :=
  ∃ a s', p s = some (a, s') ∧ Moves text c s s'

section Lands

variable {α β : Type} {text : List Char} {c d : Prop} {p : Parse α} {f : α → Parse β} {s : ParseState}

theorem bind_of_some {a : α} {s' : ParseState} (h : p s = some (a, s')) : (p >>= f) s = f a s' := by
  show (p s).bind _ = _
  rw [h]
  rfl

theorem Lands.mono (h : Lands text c p s) (hcd : d → c) : Lands text d p s := by
  obtain ⟨a, s', hp, hmoves⟩ := h
  exact ⟨a, s', hp, hmoves.mono hcd⟩

theorem Lands.goes (h : Lands text c p s) : Lands text False p s := h.mono False.elim

/-- What follows may depend on whether a token was passed. -/
theorem Lands.seq (hp : Lands text c p s)
    (hf : ∀ a s', Moves text c s s' → ∃ b s'', f a s' = some (b, s'') ∧ Moves text d s s'') :
    Lands text d (p >>= f) s := by
  obtain ⟨a, s', hp, hmoves⟩ := hp
  obtain ⟨b, s'', hf, hmoves'⟩ := hf a s' hmoves
  exact ⟨b, s'', (bind_of_some hp).trans hf, hmoves'⟩

/-- What is read first passes a token; what follows may stay where it is. -/
theorem Lands.bind (hp : Lands text c p s)
    (hf : ∀ a s', Moves text c s s' → Lands text False (f a) s') : Lands text c (p >>= f) s := by
  refine hp.seq fun a s' h => ?_
  obtain ⟨b, s'', hf, h'⟩ := hf a s' h
  exact ⟨b, s'', hf, (h.trans h').mono .inl⟩

theorem Lands.look {a : α} (h : p s = some (a, s)) (hf : Lands text c (f a) s) :
    Lands text c (p >>= f) s := by
  obtain ⟨b, s', hf, hmoves⟩ := hf
  exact ⟨b, s', (bind_of_some h).trans hf, hmoves⟩

theorem Lands.stay {a : α} {s₁ : ParseState} (h : p s = some (a, s₁)) (hstays : Stays s s₁)
    (hf : Lands text c (f a) s₁) : Lands text c (p >>= f) s := by
  obtain ⟨b, s', hf, hmoves⟩ := hf
  exact ⟨b, s', (bind_of_some h).trans hf, hstays.moves hmoves⟩

theorem Lands.pure {a : α} (h : Ready text s) : Lands text False (Pure.pure a) s :=
  ⟨a, s, rfl, .refl h not_false⟩

theorem Lands.map {g : α → β} (hp : Lands text c p s) : Lands text c (g <$> p) s := by
  obtain ⟨a, s', hp, hmoves⟩ := hp
  refine ⟨g a, s', ?_, hmoves⟩
  show (p s).bind _ = _
  rw [hp]
  rfl

theorem Lands.ite {q : Parse α} {b : Prop} [Decidable b] (hp : Lands text c p s)
    (hq : Lands text c q s) : Lands text c (if b then p else q) s := by
  split
  · exact hp
  · exact hq

end Lands

/-! ### Basic moves -/

namespace Parse

variable {α β : Type} {text : List Char} {c : Prop} {n : Nat} {s : ParseState}

/-- Reading goes on at the token after some offset. -/
theorem moves_to {s' : ParseState} (stop : Nat) (hs : Ready text s)
    (htext : s'.scanner.text = text) (htoken : s'.scanner.token = (scanAt text stop).token)
    (hdepth : s'.depth = s.depth) (hstop : s.here ≤ stop) :
    Moves text (s.kind ≠ .endOfFile ∧ s.here < stop) s s' := by
  have hhere : stop ≤ s'.here := by
    rw [ParseState.here, htoken]
    exact (scanAt_fine text stop).1
  refine ⟨⟨htext, ⟨stop, htoken⟩, ?_⟩, hdepth, hstop.trans hhere, fun ⟨hkind, hlt⟩ => ?_⟩
  · have hopened : opened text s.here ≤ opened text s'.here := opened_mono (hstop.trans hhere)
    have hdepth_le := hs.depth_le
    omega
  · have hlength := hs.here_lt hkind
    unfold left
    omega

/-- Passing the current token, unless it is the end of the text, leaves less of the text. -/
theorem next_lands (hs : Ready text s) : Lands text (s.kind ≠ .endOfFile) next s := by
  refine ⟨(), _, next_state s, Moves.mono (moves_to _ hs ?_ ?_ rfl hs.fine) fun hkind => ⟨hkind, ?_⟩⟩
  · exact (scan_text _).trans hs.text_eq
  · rw [scan_token, hs.text_eq]
  · exact hs.solid hkind

theorem next_passes (hs : Ready text s) (hkind : s.kind ≠ .endOfFile) : Lands text True next s :=
  (next_lands hs).mono fun _ => hkind

theorem next_goes (hs : Ready text s) : Lands text False next s :=
  (next_lands hs).goes

/-- A token of kind `k` is there, or it is not. -/
theorem at?_cases {k : TokenKind} {p q : Parse β} (hp : s.kind = k → Lands text c p s)
    (hq : s.kind ≠ k → Lands text c q s) :
    Lands text c (at? k >>= fun found => if found = true then p else q) s := by
  refine .look (a := s.kind == k) rfl ?_
  split
  · rename_i hfound
    exact hp (beq_iff_eq.mp hfound)
  · rename_i hfound
    exact hq fun hkind => hfound (beq_iff_eq.mpr hkind)

/-- A report leaves reading where it is. -/
theorem report_stays (flt : Fault) (s : ParseState) :
    ∃ s', report flt s = some ((), s') ∧ Stays s s' := by
  refine ⟨if (s.errors.head?.map (·.pos)) == some s.here then s
    else { s with errors := ⟨s.here, flt⟩ :: s.errors }, rfl, ?_⟩
  split <;> exact ⟨rfl, rfl, rfl⟩

theorem report_bind_lands {flt : Fault} {f : Unit → Parse β}
    (hf : ∀ s', Stays s s' → Lands text c (f ()) s') : Lands text c (report flt >>= f) s := by
  obtain ⟨s', hreport, hstays⟩ := report_stays flt s
  exact .stay hreport hstays (hf s' hstays)

/-- What is reported under a condition leaves reading where it is. -/
theorem reportIf_lands {b : Prop} [Decidable b] {flt : Fault} {f : Unit → Parse β}
    (hf : ∀ s', Stays s s' → Lands text c (f ()) s') :
    Lands text c (if b then report flt >>= f else f ()) s :=
  .ite (report_bind_lands hf) (hf s ⟨rfl, rfl, rfl⟩)

theorem report_lands {flt : Fault} (hs : Ready text s) : Lands text False (report flt) s := by
  have h : Lands text False (report flt >>= Pure.pure) s :=
    report_bind_lands fun s' hstays => .pure (hstays.ready hs)
  rwa [bind_pure] at h

/-- Looking one token ahead leaves reading where it is. -/
theorem peekKind_bind_lands {f : TokenKind → Parse β}
    (hf : ∀ k s', Stays s s' → Lands text c (f k) s') : Lands text c (peekKind >>= f) s := by
  have hstays : Stays s { s with scanner := (s.scanner.peek 1).2 } :=
    ⟨peek_text _ _, peek_token _ _, rfl⟩
  exact .stay rfl hstays (hf _ _ hstays)

theorem accept_cases {k : TokenKind} {p q : Parse β} (hs : Ready text s) (hk : k ≠ .endOfFile)
    (hp : ∀ s', Moves text True s s' → Lands text False p s') (hq : Lands text False q s) :
    Lands text False (accept k >>= fun found => if found = true then p else q) s := by
  rw [accept_bind]
  refine at?_cases (fun hkind => ?_) fun _ => hq
  exact ((next_passes hs (hkind.trans_ne hk)).bind fun _ => hp).goes

theorem acceptMark_cases {m : Mark} {p q : Parse β} (hs : Ready text s)
    (hp : ∀ s', Moves text True s s' → Lands text False p s') (hq : Lands text False q s) :
    Lands text False (acceptMark m >>= fun found => if found = true then p else q) s :=
  accept_cases hs nofun hp hq

theorem acceptWord_cases {w : Word} {p q : Parse β} (hs : Ready text s)
    (hp : ∀ s', Moves text True s s' → Lands text False p s') (hq : Lands text False q s) :
    Lands text False (accept (.word w) >>= fun found => if found = true then p else q) s :=
  accept_cases hs nofun hp hq

theorem accept_lands {k : TokenKind} (hs : Ready text s) : Lands text False (accept k) s :=
  at?_cases (fun _ => (next_goes hs).bind fun _ _ h => .pure h.ready) fun _ => .pure hs

theorem expect_lands {k : TokenKind} (hs : Ready text s) : Lands text False (expect k) s :=
  (accept_lands hs).bind fun _ _ h => .ite (.pure h.ready) (report_lands h.ready)

/-- A token that is there is passed. -/
theorem expect_passes {k : TokenKind} (hs : Ready text s) (hkind : s.kind = k)
    (hk : k ≠ .endOfFile) : Lands text True (expect k) s := by
  obtain ⟨a, s', hnext, hmoves⟩ := next_passes hs (hkind.trans_ne hk)
  exact ⟨a, s', (expect_of_kind hkind).trans hnext, hmoves⟩

theorem expectSemicolon_lands (hs : Ready text s) : Lands text False expectSemicolon s := by
  refine at?_cases (fun _ => next_goes hs) fun _ => ?_
  exact .look rfl (.look rfl (.look rfl (.ite (.pure hs) (report_lands hs))))

theorem withNoIn_lands {p : Parse α} {noIn : Bool} (h : ∀ s', Stays s s' → Lands text c p s') :
    Lands text c (withNoIn noIn p) s := by
  have hset : Stays s { s with noIn := noIn } := ⟨rfl, rfl, rfl⟩
  refine .look rfl (.stay rfl hset ((h _ hset).bind fun a s₁ h₁ => ?_))
  have hreset : Stays s₁ { s₁ with noIn := s.noIn } := ⟨rfl, rfl, rfl⟩
  exact .stay rfl hreset (.pure (hreset.ready h₁.ready))

/-- A loop ends if each of its rounds passes a token. -/
theorem repeatWhile_lands {more : Parse Bool} {item : Parse α} (goesOn : Token → Bool)
    (hmore : ∀ s, more s = some (goesOn s.scanner.token, s))
    (hitem : ∀ s, Room text n s → goesOn s.scanner.token = true → Lands text True item s) :
    ∀ limit s, Room text n s → left text s < limit → Lands text False (repeatWhile more item limit) s
  | 0, _, _, hlimit => absurd hlimit (Nat.not_lt_zero _)
  | limit + 1, s, hs, hlimit => by
    refine .look (hmore s) ?_
    split
    · rename_i hgoes
      refine ((hitem s hs hgoes).bind fun a s₁ h₁ => ?_).goes
      have hleft : left text s₁ < limit := by
        have hlt := h₁.passes trivial
        omega
      refine (repeatWhile_lands goesOn hmore hitem limit s₁ (h₁.room hs) hleft).bind fun _ _ h₂ => ?_
      exact .pure h₂.ready
    · exact .pure hs.ready

/-- A list with commas ends if each of its items does, since a round that goes on passes a comma. -/
theorem commaList_lands {more : Parse Bool} {item : Parse α} (goesOn : Token → Bool)
    (hmore : ∀ s, more s = some (goesOn s.scanner.token, s))
    (hitem : ∀ s, Room text n s → goesOn s.scanner.token = true → Lands text False item s) :
    ∀ limit s, Room text n s → left text s < limit → Lands text False (commaList more item limit) s
  | 0, _, _, hlimit => absurd hlimit (Nat.not_lt_zero _)
  | limit + 1, s, hs, hlimit => by
    refine .look (hmore s) ?_
    split
    · rename_i hgoes
      refine (hitem s hs hgoes).bind fun a s₁ h₁ => ?_
      refine acceptMark_cases h₁.ready (fun s₂ h₂ => ?_) (.pure h₁.ready)
      have hleft : left text s₂ < limit := by
        have hle := h₁.left_le
        have hlt := h₂.passes trivial
        omega
      refine (commaList_lands goesOn hmore hitem limit s₂ (h₂.room (h₁.room hs)) hleft).bind fun _ _ h₃ => ?_
      exact .pure h₃.ready
    · exact .pure hs.ready

end Parse

end Script
end Countersign
