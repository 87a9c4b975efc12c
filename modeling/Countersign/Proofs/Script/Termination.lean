/-
# Reading a program comes to an end

Each rule of the grammar comes to an end, given that the rules for what is nested do where less of
the text is left: they are only used after a token has been passed. Every round of a loop passes a
token or is the last one, with one exception. The statements of a clause are read without a check
that they pass a token, and an expression that is nested too deep passes none. So reading comes to an
end for every text without a `switch`, and for every text in which too little is opened for
expressions to be nested too deep.

Key definitions: `Rules.End`, `NotTooDeep`.
Key theorems: `Rule.statement_lands`, `Rules.within_end`, `read_ends`.
-/
import Countersign.Proofs.Script.Lands

namespace Countersign
namespace Script

/-- A text has no `switch`, or too little is opened in it for an expression to be nested too
deep. -/
def NotTooDeep (text : List Char) : Prop :=
  (∀ pos < text.length, kindAt text pos ≠ .word .switchWord) ∨ opened text text.length < maxDepth

/-- What an expression may start with, or what is passed in its place: any token but those that end
a statement or a block. -/
def TokenKind.Starts (k : TokenKind) : Prop :=
  k ≠ .endOfFile ∧ k ≠ .mark .closeBrace ∧ k ≠ .mark .semicolon

/-- Where less than `n` characters are left the rules for what is nested come to an end, and a
statement passes a token unless it is nested too deep. -/
structure Rules.End (text : List Char) (n : Nat) (r : Rules) : Prop where
  bound : text.length < r.bound
  expression : ∀ s, Room text n s → Lands text False r.expression s
  assignment : ∀ s, Inside text n s → Lands text False r.assignment s
  binary : ∀ least s, Inside text n s → Lands text False (r.binary least) s
  unary : ∀ s, Inside text n s → Lands text False r.unary s
  construct : ∀ s, Inside text n s → s.kind = .word .newWord → Lands text False r.construct s
  statement : ∀ s, Room text n s →
    Lands text (s.depth < maxDepth ∧ s.kind ≠ .endOfFile ∧ s.kind ≠ .mark .closeBrace) r.statement s

theorem Rules.End.left_lt {text : List Char} {n : Nat} {r : Rules} (hr : r.End text n)
    (s : ParseState) : left text s < r.bound := by
  have hbound := hr.bound
  unfold left
  omega

namespace Rule

open Parse

variable {text : List Char} {n : Nat} {r : Rules} {s : ParseState}

/-! ### Names and literals -/

theorem identifier_lands (hs : Ready text s) : Lands text (s.kind = .identifier) identifier s := by
  refine .look rfl ?_
  split
  · rename_i hkind
    have hne : s.kind ≠ .endOfFile := (beq_iff_eq.mp hkind).trans_ne nofun
    exact ((next_passes hs hne).bind fun _ _ h => .pure h.ready).mono fun _ => trivial
  · rename_i hkind
    refine Lands.mono (c := False) ?_ fun h => hkind (beq_iff_eq.mpr h)
    refine report_bind_lands fun s' h => .ite (.pure (h.ready hs)) ?_
    exact (next_goes (h.ready hs)).bind fun _ _ h => .pure h.ready

theorem identifier_goes (hs : Ready text s) : Lands text False identifier s :=
  (identifier_lands hs).goes

/-- A name is passed as the name of a property. -/
theorem propertyIdent_lands (hs : Ready text s) : Lands text (s.kind.isName = true) propertyIdent s := by
  refine .look rfl ?_
  split
  · rename_i hword
    have hne : s.kind ≠ .endOfFile := ne_of_apply_ne TokenKind.isWord (hword.trans_ne (by decide))
    exact ((next_passes hs hne).bind fun _ _ h => .pure h.ready).mono fun _ => trivial
  · rename_i hword
    refine (identifier_lands hs).mono fun hname => ?_
    unfold TokenKind.isName at hname
    split at hname
    · assumption
    · rename_i w hkind
      exact absurd (congrArg TokenKind.isWord hkind) hword
    · cases hname

theorem numberLit_lands (hs : Ready text s) (hne : s.kind ≠ .endOfFile) :
    Lands text True numberLit s :=
  .look rfl ((next_passes hs hne).bind fun _ _ h => .pure h.ready)

theorem stringLit_lands (hs : Ready text s) (hne : s.kind ≠ .endOfFile) :
    Lands text True stringLit s :=
  .look rfl (.look rfl ((next_passes hs hne).bind fun _ _ h => .pure h.ready))

theorem single_lands {e : Span → Expr} (hs : Ready text s) (hne : s.kind ≠ .endOfFile) :
    Lands text True (single e) s :=
  .look rfl ((next_passes hs hne).bind fun _ _ h => .pure h.ready)

/-- A regular expression ends after its first slash. -/
theorem regexLit_lands (hs : Ready text s) (hne : s.kind ≠ .endOfFile) :
    Lands text True regexLit s := by
  refine ⟨_, _, rfl, Moves.mono (moves_to (rescanRegex text s.scanner.token).1.span.stop hs ?_ ?_ rfl ?_)
    fun _ => ⟨hne, ?_⟩⟩
  · exact (scan_text _).trans ((rescanSlash_text _).trans hs.text_eq)
  · rw [scan_token, rescanSlash_token, rescanSlash_text, hs.text_eq]
  · show s.scanner.token.span.pos ≤ s.scanner.token.span.pos + 1 + _
    omega
  · show s.scanner.token.span.pos < s.scanner.token.span.pos + 1 + _
    omega

theorem missing_lands (hs : Ready text s) : Lands text s.kind.Starts missing s := by
  refine .look rfl (report_bind_lands fun s' h => ?_)
  split
  · rename_i hends
    refine Lands.mono (.pure (h.ready hs)) fun hstarts => ?_
    obtain ⟨hend, hbrace, hsemicolon⟩ := hstarts
    simp_all [ParseState.kind]
  · rename_i hends
    have hne : s'.kind ≠ .endOfFile := by
      rw [h.kind_eq]
      intro hend
      simp_all [ParseState.kind]
    exact ((next_passes (h.ready hs) hne).bind fun _ _ h => .pure h.ready).mono fun _ => trivial

/-! ### Expressions -/

theorem paren_lands (hr : r.End text n) (hs : Inside text (n + 1) s)
    (hkind : s.kind = .mark .openParen) : Lands text True (paren r) s := by
  refine .look rfl ((expect_passes hs.ready hkind nofun).bind fun _ s₁ h₁ => ?_)
  have hroom : Room text n s₁ := h₁.room_of_opens hs (by rw [hkind]; rfl)
  refine (withNoIn_lands fun s₂ h₂ => hr.expression s₂ (h₂.room hroom)).bind fun _ _ h₂ => ?_
  exact (expect_lands h₂.ready).bind fun _ _ h₃ => .look rfl (.pure h₃.ready)

theorem element_lands (hr : r.End text n) (hs : Inside text n s) : Lands text False (element r) s :=
  at?_cases (fun _ => .look rfl (.pure hs.ready)) fun _ => hr.assignment s hs

/-- Where neither a mark nor the end of the text comes next, both are elsewhere. -/
theorem kind_ne_of_before {m : Mark}
    (h : (!(s.scanner.token.kind == .mark m) && !(s.scanner.token.kind == .endOfFile)) = true) :
    s.kind ≠ .endOfFile ∧ s.kind ≠ .mark m := by
  rw [Bool.and_eq_true, Bool.not_eq_true', Bool.not_eq_true', beq_eq_false_iff_ne,
    beq_eq_false_iff_ne] at h
  exact ⟨h.2, h.1⟩

/-- The items of a list up to the mark that closes it. -/
theorem items_lands {α : Type} {item : Parse α} (hr : r.End text n) (hs : Room text n s) (m : Mark)
    (hitem : ∀ s, Room text n s → s.kind ≠ .endOfFile → Lands text False item s) :
    Lands text False (commaList (before m) item r.bound) s :=
  commaList_lands (fun t => !(t.kind == .mark m) && !(t.kind == .endOfFile)) (fun _ => rfl)
    (fun s hs hgoes => hitem s hs (kind_ne_of_before hgoes).1) _ s hs (hr.left_lt s)

theorem arrayLit_lands (hr : r.End text n) (hs : Inside text (n + 1) s)
    (hkind : s.kind = .mark .openBracket) : Lands text True (arrayLit r) s := by
  refine .look rfl ((expect_passes hs.ready hkind nofun).bind fun _ s₁ h₁ => ?_)
  have hroom : Room text n s₁ := h₁.room_of_opens hs (by rw [hkind]; rfl)
  refine (withNoIn_lands fun s₂ h₂ => items_lands hr (h₂.room hroom) _ fun s₃ h₃ _ =>
    element_lands hr h₃.toInside).bind fun _ _ h₂ => ?_
  exact (expect_lands h₂.ready).bind fun _ _ h₃ => .look rfl (.pure h₃.ready)

theorem arguments_lands (hr : r.End text n) (hs : Inside text (n + 1) s)
    (hkind : s.kind = .mark .openParen) : Lands text True (arguments r) s := by
  refine (expect_passes hs.ready hkind nofun).bind fun _ s₁ h₁ => ?_
  have hroom : Room text n s₁ := h₁.room_of_opens hs (by rw [hkind]; rfl)
  refine (withNoIn_lands fun s₂ h₂ => items_lands hr (h₂.room hroom) _ fun s₃ h₃ _ =>
    hr.assignment s₃ h₃.toInside).bind fun _ _ h₂ => ?_
  exact (expect_lands h₂.ready).bind fun _ _ h₃ => .pure h₃.ready

theorem param_lands (hs : Ready text s) : Lands text False param s :=
  .look rfl ((identifier_goes hs).bind fun _ _ h => .look rfl (.pure h.ready))

theorem params_lands (hr : r.End text n) (hs : Room text n s) : Lands text False (params r) s := by
  refine (expect_lands hs.ready).bind fun _ s₁ h₁ => ?_
  refine (items_lands hr (h₁.room hs) _ fun _ h₂ _ => param_lands h₂.ready).bind fun _ _ h₂ => ?_
  exact (expect_lands h₂.ready).bind fun _ _ h₃ => .pure h₃.ready

theorem synchronize_lands (hr : r.End text n) (hs : Room text n s) :
    Lands text False (synchronize r) s := by
  refine (repeatWhile_lands (fun t => !(t.kind == .endOfFile || t.kind == .mark .closeBrace ||
    t.kind.beginsStatement)) (fun _ => rfl) (fun s₁ h₁ hgoes => ?_) _ s hs (hr.left_lt s)).bind
    fun _ _ h => .pure h.ready
  refine next_passes h₁.ready fun hend => ?_
  rw [ParseState.kind] at hend
  simp [hend] at hgoes

/-- A statement of a list passes a token, if only because one is dropped after it. -/
theorem listedStatement_lands (hr : r.End text n) (hs : Room text n s) (hne : s.kind ≠ .endOfFile) :
    Lands text True (listedStatement r) s := by
  refine .look rfl ((hr.statement s hs).seq fun a s₁ h₁ => ?_)
  show ∃ b s₂, (if (s₁.here == s.here) = true then (do next; synchronize r; return a) else return a :
    Parse Stmt) s₁ = some (b, s₂) ∧ Moves text True s s₂
  by_cases hhere : s₁.here = s.here
  · rw [if_pos (beq_iff_eq.mpr hhere)]
    have hkind : s₁.kind = s.kind := by rw [h₁.ready.kind_eq, hs.ready.kind_eq, hhere]
    have hdrop : Lands text True (do next; synchronize r; return a) s₁ := by
      refine (next_passes h₁.ready (hkind.trans_ne hne)).bind fun _ s₂ h₂ => ?_
      exact (synchronize_lands hr (h₂.room (h₁.room hs))).bind fun _ _ h₃ => .pure h₃.ready
    obtain ⟨b, s₂, hdropped, h₂⟩ := hdrop
    exact ⟨b, s₂, hdropped, (h₁.trans h₂).mono fun _ => .inr trivial⟩
  · rw [if_neg fun h => hhere (beq_iff_eq.mp h)]
    refine ⟨a, s₁, rfl, h₁.ready, h₁.depth_eq, h₁.here_le, fun _ => ?_⟩
    have hle := h₁.here_le
    have hlt := hs.ready.here_lt hne
    unfold left
    omega

theorem statements_lands (hr : r.End text n) (hs : Room text n s) :
    Lands text False (statements r) s :=
  repeatWhile_lands (fun t => !(t.kind == .mark .closeBrace) && !(t.kind == .endOfFile))
    (fun _ => rfl) (fun _ hs hgoes => listedStatement_lands hr hs (kind_ne_of_before hgoes).1)
    _ s hs (hr.left_lt s)

/-- A block comes to an end if there is room after its brace, and passes a token if its brace does. -/
theorem block_lands_of {c : Prop} (hr : r.End text n) (hbrace : Lands text c (expectMark .openBrace) s)
    (hroom : ∀ s', Moves text c s s' → Room text n s') : Lands text c (block r) s := by
  refine .look rfl (hbrace.bind fun _ s₁ h₁ => ?_)
  refine (statements_lands hr (hroom s₁ h₁)).bind fun _ s₂ h₂ => ?_
  exact (expect_lands h₂.ready).bind fun _ s₃ h₃ => .look rfl (.pure h₃.ready)

theorem block_lands (hr : r.End text n) (hs : Room text n s) : Lands text False (block r) s :=
  block_lands_of hr (expect_lands hs.ready) fun _ h => h.room hs

theorem functionBody_lands (hr : r.End text n) (hs : Room text n s) :
    Lands text False (functionBody r) s :=
  withNoIn_lands fun _ h => block_lands hr (h.room hs)

theorem functionExpr_lands (hr : r.End text n) (hs : Inside text (n + 1) s)
    (hkind : s.kind = .word .functionWord) : Lands text True (functionExpr r) s := by
  refine .look rfl ((expect_passes hs.ready hkind nofun).bind fun _ s₁ h₁ => ?_)
  have hroom : Room text n s₁ := h₁.room_of_opens hs (by rw [hkind]; rfl)
  refine at?_cases (fun _ => (identifier_goes hroom.ready).map.bind fun name s₂ h₂ => ?_)
    fun _ => (Lands.pure hroom.ready).bind fun name s₂ h₂ => ?_
  all_goals
    refine (params_lands hr (h₂.room hroom)).bind fun ps s₃ h₃ => ?_
    refine (functionBody_lands hr (h₃.room (h₂.room hroom))).bind fun body s₄ h₄ => ?_
    exact .look rfl (.pure h₄.ready)

theorem atAccessor_bind_lands {α : Type} {c : Prop} {f : Bool → Parse α}
    (hf : ∀ b s', Stays s s' → Lands text c (f b) s') : Lands text c (atAccessor >>= f) s := by
  by_cases hvalue : (s.scanner.token.value == "get" || s.scanner.token.value == "set") = true
  · have hpeek : atAccessor s = (peekKind >>= fun k => pure k.isName) s := by
      show (if _ then _ else _ : Parse Bool) s = _
      rw [if_pos hvalue]
    have hstays : Stays s { s with scanner := (s.scanner.peek 1).2 } :=
      ⟨peek_text _ _, peek_token _ _, rfl⟩
    exact .stay (hpeek.trans rfl) hstays (hf _ _ hstays)
  · have hno : atAccessor s = some (false, s) := by
      show (if _ then _ else _ : Parse Bool) s = _
      rw [if_neg hvalue]
      rfl
    exact .look hno (hf _ _ ⟨rfl, rfl, rfl⟩)

/-- An accessor passes its first token at least. -/
theorem skipAccessor_lands (hr : r.End text n) (hs : Room text n s) (hne : s.kind ≠ .endOfFile) :
    Lands text True (skipAccessor r) s := by
  refine report_bind_lands fun s₁ h₁ => ?_
  have hroom : Room text n s₁ := h₁.room hs
  refine (next_passes hroom.ready (h₁.kind_eq.trans_ne hne)).bind fun _ s₂ h₂ => ?_
  refine (next_goes h₂.ready).bind fun _ s₃ h₃ => ?_
  have hroom₃ : Room text n s₃ := h₃.room (h₂.room hroom)
  refine (params_lands hr hroom₃).bind fun _ s₄ h₄ => ?_
  exact (functionBody_lands hr (h₄.room hroom₃)).bind fun _ _ h₅ => .pure h₅.ready

theorem propertyValue_lands {start : Nat} {name : PropertyName} (hr : r.End text n)
    (hs : Inside text n s) : Lands text False (propertyValue r start name) s := by
  refine (expect_lands hs.ready).bind fun _ s₁ h₁ => ?_
  exact (hr.assignment s₁ (h₁.inside hs)).bind fun _ _ h₂ => .look rfl (.pure h₂.ready)

theorem property_lands (hr : r.End text n) (hs : Room text n s) (hne : s.kind ≠ .endOfFile) :
    Lands text False (property r) s := by
  refine .look rfl ?_
  split
  · exact (stringLit_lands hs.ready hne).goes.bind fun _ _ h => propertyValue_lands hr (h.inside hs.toInside)
  · exact (numberLit_lands hs.ready hne).goes.bind fun _ _ h => propertyValue_lands hr (h.inside hs.toInside)
  · refine .ite (atAccessor_bind_lands fun _ s₁ h₁ => .ite ?_ ?_) ?_
    · have hskip := skipAccessor_lands hr (h₁.room hs) (h₁.kind_eq.trans_ne hne)
      exact hskip.goes.bind fun _ _ h => .pure h.ready
    · refine (propertyIdent_lands (h₁.ready hs.ready)).goes.bind fun _ s₂ h₂ => ?_
      exact propertyValue_lands hr (h₂.inside (h₁.inside hs.toInside))
    · refine report_bind_lands fun s₁ h₁ => ?_
      exact (next_goes (h₁.ready hs.ready)).bind fun _ _ h => .pure h.ready

theorem objectLit_lands (hr : r.End text n) (hs : Inside text (n + 1) s)
    (hkind : s.kind = .mark .openBrace) : Lands text True (objectLit r) s := by
  refine .look rfl ((expect_passes hs.ready hkind nofun).bind fun _ s₁ h₁ => ?_)
  have hroom : Room text n s₁ := h₁.room_of_opens hs (by rw [hkind]; rfl)
  refine (withNoIn_lands fun s₂ h₂ => items_lands hr (h₂.room hroom) _ fun s₃ h₃ hne =>
    property_lands hr h₃ hne).bind fun _ _ h₂ => ?_
  exact (expect_lands h₂.ready).bind fun _ _ h₃ => .look rfl (.pure h₃.ready)

/-- A literal or a name as an expression. -/
theorem leaf_lands {α : Type} {c : Prop} {p : Parse α} {e : α → Expr} (hp : Lands text c p s) :
    Lands text c (do return e (← p)) s := hp.bind fun _ _ h => .pure h.ready

/-- A primary expression passes a token, if only in its place. -/
theorem primary_lands (hr : r.End text n) (hs : Inside text (n + 1) s) :
    Lands text s.kind.Starts (primary r) s := by
  refine .look (a := s.kind) rfl ?_
  generalize hkind : s.kind = k
  have hready := hs.ready
  -- Whatever passes a token in any case does so here.
  suffices hpass : ∀ p : Parse Expr, Lands text True p s → Lands text k.Starts p s by
    split
    case h_1 => exact hpass _ (leaf_lands ((identifier_lands hready).mono fun _ => hkind))
    case h_2 => exact hpass _ (leaf_lands (numberLit_lands hready (hkind.trans_ne nofun)))
    case h_3 => exact hpass _ (leaf_lands (stringLit_lands hready (hkind.trans_ne nofun)))
    case h_4 => exact hpass _ (single_lands hready (hkind.trans_ne nofun))
    case h_5 => exact hpass _ (single_lands hready (hkind.trans_ne nofun))
    case h_6 => exact hpass _ (single_lands hready (hkind.trans_ne nofun))
    case h_7 => exact hpass _ (single_lands hready (hkind.trans_ne nofun))
    case h_8 => exact hpass _ (paren_lands hr hs hkind)
    case h_9 => exact hpass _ (arrayLit_lands hr hs hkind)
    case h_10 => exact hpass _ (objectLit_lands hr hs hkind)
    case h_11 => exact hpass _ (functionExpr_lands hr hs hkind)
    case h_12 => exact hpass _ (regexLit_lands hready (hkind.trans_ne nofun))
    case h_13 => exact hpass _ (regexLit_lands hready (hkind.trans_ne nofun))
    case h_14 => exact hkind ▸ missing_lands hready
  exact fun p hp => hp.mono fun _ => trivial

theorem tail_lands (hr : r.End text n) (calls : Bool) : ∀ limit e s, Inside text (n + 1) s →
    left text s < limit → Lands text False (tail r calls limit e) s
  | 0, _, _, _, hlimit => absurd hlimit (Nat.not_lt_zero _)
  | limit + 1, e, s, hs, hlimit => by
    have hagain : ∀ s' e', Moves text True s s' → Lands text False (tail r calls limit e') s' := by
      intro s' e' h
      have hlt := h.passes trivial
      exact tail_lands hr calls limit e' s' (h.inside hs) (by omega)
    refine .look (a := s.kind) rfl ?_
    generalize hkind : s.kind = k
    split
    · refine ((next_passes hs.ready (hkind.trans_ne nofun)).bind fun _ s₁ h₁ => ?_).goes
      refine (propertyIdent_lands h₁.ready).goes.bind fun name s₂ h₂ => ?_
      exact .look rfl (hagain s₂ _ (h₁.andThen h₂))
    · refine ((next_passes hs.ready (hkind.trans_ne nofun)).bind fun _ s₁ h₁ => ?_).goes
      have hroom : Room text n s₁ := h₁.room_of_opens hs (by rw [hkind]; rfl)
      refine (withNoIn_lands fun s₂ h₂ => hr.expression s₂ (h₂.room hroom)).bind fun _ s₂ h₂ => ?_
      refine (expect_lands h₂.ready).bind fun _ s₃ h₃ => ?_
      exact .look rfl (hagain s₃ _ ((h₁.andThen h₂).andThen h₃))
    · refine .ite ((arguments_lands hr hs hkind).bind fun args s₁ h₁ => ?_).goes (.pure hs.ready)
      exact .look rfl (hagain s₁ _ h₁)
    · exact .pure hs.ready

/-- The members and calls after an expression, as many as there are. -/
theorem tail_ends {calls : Bool} {e : Expr} (hr : r.End text n) (hs : Inside text (n + 1) s) :
    Lands text False (tail r calls r.bound e) s :=
  tail_lands hr calls r.bound e s hs (hr.left_lt s)

theorem construct_lands (hr : r.End text n) (hs : Inside text (n + 1) s)
    (hkind : s.kind = .word .newWord) : Lands text True (construct r) s := by
  refine .look rfl ((expect_passes hs.ready hkind nofun).bind fun _ s₁ h₁ => ?_)
  have hinside : Inside text n s₁ := h₁.inside_of_pass hs
  refine at?_cases (fun hnew => (hr.construct s₁ hinside hnew).bind fun callee s₂ h₂ => ?_)
    fun _ => (primary_lands hr hinside.succ).goes.bind fun callee s₂ h₂ => ?_
  all_goals
    have hinside₂ : Inside text (n + 1) s₂ := (h₂.inside hinside).succ
    refine (tail_ends hr hinside₂).bind fun callee s₃ h₃ => ?_
    have hinside₃ : Inside text (n + 1) s₃ := h₃.inside hinside₂
    refine at?_cases (fun hparen => ?_) fun _ => .look rfl (.pure hinside₃.ready)
    exact (arguments_lands hr hinside₃ hparen).goes.bind fun _ _ h₄ => .look rfl (.pure h₄.ready)

theorem leftHandSide_lands (hr : r.End text n) (hs : Inside text (n + 1) s) :
    Lands text s.kind.Starts (leftHandSide r) s := by
  refine at?_cases (fun hkind => ?_) fun _ => ?_
  · refine Lands.bind ((construct_lands hr hs hkind).mono fun _ => trivial) fun e s₁ h₁ => ?_
    exact tail_ends hr (h₁.inside hs)
  · exact (primary_lands hr hs).bind fun e s₁ h₁ => tail_ends hr (h₁.inside hs)

theorem suffixed_lands (hr : r.End text n) (hs : Inside text (n + 1) s) :
    Lands text s.kind.Starts (suffixed r) s := by
  refine (leftHandSide_lands hr hs).bind fun e s₁ h₁ => .look rfl ?_
  split
  · exact (next_goes h₁.ready).bind fun _ _ h₂ => .pure h₂.ready
  · exact .pure h₁.ready

/-- An operator before its operand is passed. -/
theorem operand_lands {start : Nat} {e : Span → Expr → Expr} (hr : r.End text n)
    (hs : Inside text (n + 1) s) (hne : s.kind ≠ .endOfFile) :
    Lands text True (do next; let operand ← r.unary; return e (← spanFrom start) operand) s := by
  refine (next_passes hs.ready hne).bind fun _ s₁ h₁ => ?_
  exact (hr.unary s₁ (h₁.inside_of_pass hs)).bind fun _ _ h₂ => .look rfl (.pure h₂.ready)

theorem unary_lands (hr : r.End text n) (hs : Inside text (n + 1) s) :
    Lands text s.kind.Starts (unary r) s := by
  refine .look rfl ?_
  split
  all_goals rename_i hop
  · have hne : s.kind ≠ .endOfFile :=
      ne_of_apply_ne TokenKind.beforeMark? (hop.trans_ne (Option.some_ne_none _))
    exact (operand_lands hr hs hne).mono fun _ => trivial
  · have hne : s.kind ≠ .endOfFile :=
      ne_of_apply_ne TokenKind.wordOp? (hop.trans_ne (Option.some_ne_none _))
    exact (operand_lands hr hs hne).mono fun _ => trivial
  · exact suffixed_lands hr hs

theorem binaryTail_lands (hr : r.End text n) (least : Nat) : ∀ limit left' s, Inside text (n + 1) s →
    left text s < limit → Lands text False (binaryTail r least limit left') s
  | 0, _, _, _, hlimit => absurd hlimit (Nat.not_lt_zero _)
  | limit + 1, e, s, hs, hlimit => by
    obtain ⟨found, hfound, hkind⟩ := operator?_some least s
    refine .look hfound ?_
    cases found with
    | none => exact .pure hs.ready
    | some found =>
      obtain ⟨hop, hne⟩ := hkind found rfl
      refine ((next_passes hs.ready (Eq.trans_ne hop hne)).bind fun _ s₁ h₁ => ?_).goes
      refine (hr.binary _ s₁ (h₁.inside_of_pass hs)).bind fun right s₂ h₂ => .look rfl ?_
      have hpass := h₁.andThen h₂
      have hlt := hpass.passes trivial
      exact binaryTail_lands hr least limit _ s₂ (hpass.inside hs) (by omega)

theorem binary_lands (hr : r.End text n) (hs : Inside text (n + 1) s) (least : Nat) :
    Lands text s.kind.Starts (binary r least) s :=
  (unary_lands hr hs).bind fun e s₁ h₁ =>
    binaryTail_lands hr least _ e s₁ (h₁.inside hs) (hr.left_lt s₁)

theorem conditional_lands (hr : r.End text n) (hs : Inside text (n + 1) s) :
    Lands text s.kind.Starts (conditional r) s := by
  refine (binary_lands hr hs 0).bind fun test s₁ h₁ => ?_
  refine acceptMark_cases h₁.ready (fun s₂ h₂ => ?_) (.pure h₁.ready)
  have hinside : Inside text n s₂ := h₂.inside_of_pass (h₁.inside hs)
  refine (withNoIn_lands fun s₃ h₃ => hr.assignment s₃ (h₃.inside hinside)).bind fun yes s₃ h₃ => ?_
  refine (expect_lands h₃.ready).bind fun _ s₄ h₄ => ?_
  refine (hr.assignment s₄ (h₄.inside (h₃.inside hinside))).bind fun no s₅ h₅ => ?_
  exact .look rfl (.pure h₅.ready)

theorem assignment_lands (hr : r.End text n) (hs : Inside text (n + 1) s) :
    Lands text s.kind.Starts (assignment r) s := by
  refine (conditional_lands hr hs).bind fun target s₁ h₁ => .look (a := s₁.kind) rfl ?_
  split
  · rename_i hassign
    have hvalue : ∀ s', Stays s₁ s' → Lands text False (do
        next
        let value ← r.assignment
        return Expr.binary (← spanFrom target.pos) target s₁.kind value) s' := by
      intro s₂ h₂
      have hne : s₂.kind ≠ .endOfFile := fun hend => by
        rw [← h₂.kind_eq, hend] at hassign
        cases hassign
      refine ((next_passes (h₂.ready h₁.ready) hne).bind fun _ s₃ h₃ => ?_).goes
      have hinside : Inside text n s₃ := h₃.inside_of_pass (h₂.inside (h₁.inside hs))
      exact (hr.assignment s₃ hinside).bind fun _ _ h₄ => .look rfl (.pure h₄.ready)
    exact .ite (hvalue s₁ ⟨rfl, rfl, rfl⟩) (report_bind_lands hvalue)
  · exact .pure h₁.ready

theorem commaTail_lands (hr : r.End text n) : ∀ limit e s, Inside text (n + 1) s →
    left text s < limit → Lands text False (commaTail r limit e) s
  | 0, _, _, _, hlimit => absurd hlimit (Nat.not_lt_zero _)
  | limit + 1, e, s, hs, hlimit => by
    refine acceptMark_cases hs.ready (fun s₁ h₁ => ?_) (.pure hs.ready)
    have hinside : Inside text (n + 1) s₁ := h₁.inside hs
    refine (assignment_lands hr hinside).goes.bind fun right s₂ h₂ => .look rfl ?_
    have hlt := (h₁.andThen h₂).passes trivial
    exact commaTail_lands hr limit _ s₂ (h₂.inside hinside) (by omega)

/-- An expression passes a token, if only in its place, unless it is nested too deep. -/
theorem expression_lands (hr : r.End text n) (hs : Room text (n + 1) s) :
    Lands text (s.depth < maxDepth ∧ s.kind.Starts) (expression r) s := by
  refine .look rfl ?_
  split
  · rename_i hdeep
    refine Lands.mono (c := False) ?_ fun h => absurd h.1 (Nat.not_lt_of_le hdeep)
    exact report_bind_lands fun s₁ h₁ => .look rfl (.pure (h₁.ready hs.ready))
  · have hinside : Inside text (n + 1) { s with depth := s.depth + 1 } :=
      ⟨⟨hs.ready.text_eq, hs.ready.scanned, Nat.succ_le_succ hs.depth_le_opened⟩, hs.left_lt⟩
    obtain ⟨first, s₁, hfirst, h₁⟩ := assignment_lands hr hinside
    obtain ⟨e, s₂, htail, h₂⟩ := commaTail_lands hr r.bound first s₁ (h₁.inside hinside) (hr.left_lt s₁)
    have hmoves := h₁.trans h₂
    -- The depth goes up by one for what is inside, and down again after it.
    have hdepth : s₂.depth = s.depth + 1 := hmoves.depth_eq
    refine ⟨e, { s₂ with depth := s₂.depth - 1 }, ?_, ⟨hmoves.ready.text_eq, hmoves.ready.scanned, ?_⟩, ?_,
      hmoves.here_le, fun h => hmoves.passes (.inl h.2)⟩
    · have hdeeper : (modify fun s => { s with depth := s.depth + 1 } : Parse Unit) s =
          some ((), { s with depth := s.depth + 1 }) := rfl
      rw [bind_of_some hdeeper, bind_of_some hfirst, bind_of_some htail]
      rfl
    · have hopened : opened text s.here ≤ opened text s₂.here := opened_mono hmoves.here_le
      have hle := hs.depth_le_opened
      show s₂.depth - 1 ≤ opened text s₂.here + 1
      omega
    · show s₂.depth - 1 = s.depth
      omega

/-! ### Statements -/

theorem decl_lands (hr : r.End text n) (hs : Inside text (n + 1) s) : Lands text False (decl r) s := by
  refine .look rfl ((identifier_goes hs.ready).bind fun name s₁ h₁ => ?_)
  refine acceptMark_cases h₁.ready
    (fun s₂ h₂ => (assignment_lands hr (h₂.inside (h₁.inside hs))).goes.map.bind fun init s₃ h₃ => ?_)
    ((Lands.pure h₁.ready).bind fun init s₃ h₃ => ?_)
  all_goals exact .look rfl (.pure h₃.ready)

theorem decls_lands (hr : r.End text n) : ∀ limit s, Inside text (n + 1) s → left text s < limit →
    Lands text False (decls r limit) s
  | 0, _, _, hlimit => absurd hlimit (Nat.not_lt_zero _)
  | limit + 1, s, hs, hlimit => by
    refine (decl_lands hr hs).bind fun d s₁ h₁ => ?_
    refine acceptMark_cases h₁.ready (fun s₂ h₂ => ?_) (.pure h₁.ready)
    have hle := h₁.left_le
    have hlt := h₂.passes trivial
    refine (decls_lands hr limit s₂ (h₂.inside (h₁.inside hs)) (by omega)).bind fun _ _ h₃ => ?_
    exact .pure h₃.ready

theorem declList_lands (hr : r.End text n) (hs : Inside text (n + 1) s) (hne : s.kind ≠ .endOfFile)
    (k : DeclKind) : Lands text True (declList r k) s := by
  refine .look rfl ((next_passes hs.ready hne).bind fun _ s₁ h₁ => ?_)
  exact (decls_lands hr _ s₁ (h₁.inside hs) (hr.left_lt s₁)).bind fun _ _ h₂ => .look rfl (.pure h₂.ready)

theorem declStatement_lands (hr : r.End text n) (hs : Inside text (n + 1) s)
    (hne : s.kind ≠ .endOfFile) (k : DeclKind) : Lands text True (declStatement r k) s := by
  refine .look rfl ((declList_lands hr hs hne k).bind fun l s₁ h₁ => .look rfl ?_)
  exact (expectSemicolon_lands h₁.ready).bind fun _ _ h₂ => .pure h₂.ready

theorem debuggerStatement_lands (hs : Ready text s) (hne : s.kind ≠ .endOfFile) :
    Lands text True debuggerStatement s := by
  refine .look rfl ((next_passes hs hne).bind fun _ s₁ h₁ => .look rfl ?_)
  exact (expectSemicolon_lands h₁.ready).bind fun _ _ h₂ => .pure h₂.ready

theorem emptyStatement_lands (hs : Ready text s) (hne : s.kind ≠ .endOfFile) :
    Lands text True emptyStatement s :=
  .look rfl ((next_passes hs hne).bind fun _ _ h => .look rfl (.pure h.ready))

theorem expressionStatement_lands (hr : r.End text n) (hs : Room text (n + 1) s) :
    Lands text (s.depth < maxDepth ∧ s.kind.Starts) (expressionStatement r) s := by
  refine .look rfl ((expression_lands hr hs).bind fun e s₁ h₁ => .look rfl ?_)
  exact (expectSemicolon_lands h₁.ready).bind fun _ _ h₂ => .pure h₂.ready

theorem head_lands (hr : r.End text n) (hs : Room text (n + 1) s) : Lands text False (head r) s := by
  refine (expect_lands hs.ready).bind fun _ s₁ h₁ => ?_
  refine (expression_lands hr (h₁.room hs)).goes.bind fun e s₂ h₂ => ?_
  exact (expect_lands h₂.ready).bind fun _ _ h₃ => .pure h₃.ready

/-- A statement that is nested in another comes to an end. -/
theorem nested_lands (hr : r.End text n) (hs : Room text n s) : Lands text False r.statement s :=
  (hr.statement s hs).goes

theorem ifStatement_lands (hr : r.End text n) (hs : Room text (n + 1) s) (hne : s.kind ≠ .endOfFile) :
    Lands text True (ifStatement r) s := by
  refine .look rfl ((next_passes hs.ready hne).bind fun _ s₁ h₁ => ?_)
  have hroom : Room text n s₁ := h₁.room_of_pass hs
  refine (head_lands hr hroom.succ).bind fun test s₂ h₂ => ?_
  refine (nested_lands hr (h₂.room hroom)).bind fun yes s₃ h₃ => ?_
  have hroom₃ : Room text n s₃ := h₃.room (h₂.room hroom)
  refine acceptWord_cases h₃.ready
    (fun s₄ h₄ => (nested_lands hr (h₄.room hroom₃)).map.bind fun no s₅ h₅ => ?_)
    ((Lands.pure h₃.ready).bind fun no s₅ h₅ => ?_)
  all_goals exact .look rfl (.pure h₅.ready)

theorem returnStatement_lands (hr : r.End text n) (hs : Room text (n + 1) s)
    (hne : s.kind ≠ .endOfFile) : Lands text True (returnStatement r) s := by
  refine .look rfl ((next_passes hs.ready hne).bind fun _ s₁ h₁ => .look rfl (.look rfl ?_))
  refine .ite ((Lands.pure h₁.ready).bind fun value s₂ h₂ => .look rfl ?_)
    ((expression_lands hr (h₁.room hs)).goes.map.bind fun value s₂ h₂ => .look rfl ?_)
  all_goals exact (expectSemicolon_lands h₂.ready).bind fun _ _ h₃ => .pure h₃.ready

theorem whileStatement_lands (hr : r.End text n) (hs : Room text (n + 1) s)
    (hne : s.kind ≠ .endOfFile) : Lands text True (whileStatement r) s := by
  refine .look rfl ((next_passes hs.ready hne).bind fun _ s₁ h₁ => ?_)
  have hroom : Room text n s₁ := h₁.room_of_pass hs
  refine (head_lands hr hroom.succ).bind fun test s₂ h₂ => ?_
  exact (nested_lands hr (h₂.room hroom)).bind fun body _ h₃ => .look rfl (.pure h₃.ready)

theorem doStatement_lands (hr : r.End text n) (hs : Room text (n + 1) s) (hne : s.kind ≠ .endOfFile) :
    Lands text True (doStatement r) s := by
  refine .look rfl ((next_passes hs.ready hne).bind fun _ s₁ h₁ => ?_)
  have hroom : Room text n s₁ := h₁.room_of_pass hs
  refine (nested_lands hr hroom).bind fun body s₂ h₂ => (expect_lands h₂.ready).bind fun _ s₃ h₃ => ?_
  refine (head_lands hr (h₃.room (h₂.room hroom)).succ).bind fun test s₄ h₄ => .look rfl ?_
  exact (accept_lands h₄.ready).bind fun _ _ h₅ => .pure h₅.ready

theorem forInit_lands (hr : r.End text n) (hs : Room text (n + 1) s) : Lands text False (forInit r) s := by
  refine at?_cases (fun _ => .pure hs.ready) fun _ => .look (a := s.kind) rfl ?_
  split
  · rename_i k hk
    have hne : s.kind ≠ .endOfFile :=
      ne_of_apply_ne declKind? (hk.trans_ne (Option.some_ne_none _))
    refine (withNoIn_lands fun s₁ h₁ => ?_).bind fun _ _ h => .pure h.ready
    exact (declList_lands hr (h₁.inside hs.toInside) (h₁.kind_eq.trans_ne hne) k).goes
  · refine (withNoIn_lands fun s₁ h₁ => ?_).bind fun _ _ h => .pure h.ready
    exact (expression_lands hr (h₁.room hs)).goes

theorem forInTail_lands (hr : r.End text n) (hs : Room text n s) (start : Nat) (init : ForInit) :
    Lands text False (forInTail r start init) s := by
  refine (next_goes hs.ready).bind fun _ s₁ h₁ => ?_
  have hroom : Room text n s₁ := h₁.room hs
  refine (expression_lands hr hroom.succ).goes.bind fun object s₂ h₂ => ?_
  refine (expect_lands h₂.ready).bind fun _ s₃ h₃ => ?_
  refine (nested_lands hr (h₃.room (h₂.room hroom))).bind fun body s₄ h₄ => .look rfl ?_
  split
  · exact report_bind_lands fun s₅ h₅ => .pure (h₅.ready h₄.ready)
  · exact .pure h₄.ready

theorem unlessMark_lands (hr : r.End text n) (hs : Room text n s) (m : Mark) :
    Lands text False (unlessMark r m) s :=
  at?_cases (fun _ => .pure hs.ready) fun _ => (expression_lands hr hs.succ).goes.map

theorem forTail_lands (hr : r.End text n) (hs : Room text n s) (start : Nat) (init : ForInit) :
    Lands text False (forTail r start init) s := by
  refine (expect_lands hs.ready).bind fun _ s₁ h₁ => ?_
  have hroom₁ : Room text n s₁ := h₁.room hs
  refine (unlessMark_lands hr hroom₁ _).bind fun test s₂ h₂ => (expect_lands h₂.ready).bind fun _ s₃ h₃ => ?_
  have hroom₃ : Room text n s₃ := h₃.room (h₂.room hroom₁)
  refine (unlessMark_lands hr hroom₃ _).bind fun update s₄ h₄ => (expect_lands h₄.ready).bind fun _ s₅ h₅ => ?_
  refine (nested_lands hr (h₅.room (h₄.room hroom₃))).bind fun body _ h₆ => ?_
  exact .look rfl (.pure h₆.ready)

theorem forStatement_lands (hr : r.End text n) (hs : Room text (n + 1) s) (hne : s.kind ≠ .endOfFile) :
    Lands text True (forStatement r) s := by
  refine .look rfl ((next_passes hs.ready hne).bind fun _ s₁ h₁ => ?_)
  refine (expect_lands h₁.ready).bind fun _ s₂ h₂ => ?_
  have hroom : Room text n s₂ := h₂.room (h₁.room_of_pass hs)
  refine (forInit_lands hr hroom.succ).bind fun init s₃ h₃ => ?_
  exact at?_cases (fun _ => forInTail_lands hr (h₃.room hroom) _ init)
    fun _ => forTail_lands hr (h₃.room hroom) _ init

theorem throwStatement_lands (hr : r.End text n) (hs : Room text (n + 1) s)
    (hne : s.kind ≠ .endOfFile) : Lands text True (throwStatement r) s := by
  refine .look rfl ((next_passes hs.ready hne).bind fun _ s₁ h₁ => .look rfl ?_)
  refine reportIf_lands fun s₂ h₂ => ?_
  have hroom : Room text (n + 1) s₂ := h₂.room (h₁.room hs)
  refine (expression_lands hr hroom).goes.bind fun value s₃ h₃ => .look rfl ?_
  exact (expectSemicolon_lands h₃.ready).bind fun _ _ h₄ => .pure h₄.ready

theorem handler_lands (hr : r.End text n) (hs : Room text n s) : Lands text False (handler r) s := by
  refine at?_cases (fun _ => .look rfl ((next_goes hs.ready).bind fun _ s₁ h₁ => ?_)) fun _ => .pure hs.ready
  refine (expect_lands h₁.ready).bind fun _ s₂ h₂ => (identifier_goes h₂.ready).bind fun name s₃ h₃ => ?_
  refine (expect_lands h₃.ready).bind fun _ s₄ h₄ => ?_
  have hroom : Room text n s₄ := h₄.room (h₃.room (h₂.room (h₁.room hs)))
  exact (block_lands hr hroom).bind fun body _ h₅ => .look rfl (.pure h₅.ready)

theorem tryStatement_lands (hr : r.End text n) (hs : Room text (n + 1) s) (hne : s.kind ≠ .endOfFile) :
    Lands text True (tryStatement r) s := by
  refine .look rfl ((next_passes hs.ready hne).bind fun _ s₁ h₁ => ?_)
  have hroom : Room text n s₁ := h₁.room_of_pass hs
  refine (block_lands hr hroom).bind fun body s₂ h₂ => ?_
  refine (handler_lands hr (h₂.room hroom)).bind fun h s₃ h₃ => ?_
  have hroom₃ : Room text n s₃ := h₃.room (h₂.room hroom)
  refine acceptWord_cases h₃.ready
    (fun s₄ h₄ => (block_lands hr (h₄.room hroom₃)).map.bind fun f s₅ h₅ => ?_)
    ((Lands.pure h₃.ready).bind fun f s₅ h₅ => ?_)
  all_goals
    dsimp only
    split
    · exact report_bind_lands fun s₆ h₆ => .look rfl (.pure (h₆.ready h₅.ready))
    · exact .look rfl (.pure h₅.ready)

theorem label?_lands (hs : Ready text s) : Lands text False label? s :=
  .look rfl (.ite (identifier_goes hs).map (.pure hs))

theorem jumpStatement_lands {jump : Span → Option Ident → Stmt} (hs : Ready text s)
    (hne : s.kind ≠ .endOfFile) : Lands text True (jumpStatement jump) s := by
  refine .look rfl ((next_passes hs hne).bind fun _ s₁ h₁ => ?_)
  refine (label?_lands h₁.ready).bind fun label s₂ h₂ => .look rfl ?_
  exact (expectSemicolon_lands h₂.ready).bind fun _ _ h₃ => .pure h₃.ready

/-- Where less is opened than expressions may be nested, every statement of a clause passes a
token. -/
theorem clauseTail_lands (hr : r.End text n) (hs : Room text n s)
    (hshallow : opened text text.length < maxDepth) (start : Nat) (test : Option Expr) :
    Lands text False (clauseTail r start test) s := by
  refine (expect_lands hs.ready).bind fun _ s₁ h₁ => ?_
  refine (repeatWhile_lands (fun t => !(t.kind == .word .caseWord || t.kind == .word .defaultWord ||
    t.kind == .mark .closeBrace || t.kind == .endOfFile)) (fun _ => rfl) (fun s₂ h₂ hgoes => ?_)
    _ s₁ (h₁.room hs) (hr.left_lt s₁)).bind fun body _ h₂ => .look rfl (.pure h₂.ready)
  simp only [Bool.not_eq_true', Bool.or_eq_false_iff, beq_eq_false_iff_ne] at hgoes
  obtain ⟨⟨-, hbrace⟩, hend⟩ := hgoes
  refine (hr.statement s₂ h₂).mono fun _ => ⟨?_, hend, hbrace⟩
  calc s₂.depth ≤ opened text s₂.here := h₂.depth_le_opened
    _ ≤ opened text text.length := opened_mono (h₂.ready.here_lt hend).le
    _ < maxDepth := hshallow

theorem clause_lands (hr : r.End text n) (hs : Room text n s)
    (hshallow : opened text text.length < maxDepth) (hne : s.kind ≠ .endOfFile) :
    Lands text True (clause r) s := by
  refine .look rfl (.look (a := s.kind) rfl ?_)
  split
  · refine (next_passes hs.ready hne).bind fun _ s₁ h₁ => ?_
    refine (expression_lands hr (h₁.room hs).succ).goes.bind fun test s₂ h₂ => ?_
    exact clauseTail_lands hr (h₂.room (h₁.room hs)) hshallow _ _
  · refine (next_passes hs.ready hne).bind fun _ s₁ h₁ => ?_
    exact clauseTail_lands hr (h₁.room hs) hshallow _ _
  · refine report_bind_lands fun s₁ h₁ => ?_
    exact (next_passes (h₁.ready hs.ready) (h₁.kind_eq.trans_ne hne)).bind fun _ _ h₂ => .pure h₂.ready

theorem switchStatement_lands (hr : r.End text n) (hs : Room text (n + 1) s)
    (hshallow : opened text text.length < maxDepth) (hne : s.kind ≠ .endOfFile) :
    Lands text True (switchStatement r) s := by
  refine .look rfl ((next_passes hs.ready hne).bind fun _ s₁ h₁ => ?_)
  have hroom : Room text n s₁ := h₁.room_of_pass hs
  refine (head_lands hr hroom.succ).bind fun subject s₂ h₂ => (expect_lands h₂.ready).bind fun _ s₃ h₃ => ?_
  have hroom₃ : Room text n s₃ := h₃.room (h₂.room hroom)
  refine (repeatWhile_lands (fun t => !(t.kind == .mark .closeBrace) && !(t.kind == .endOfFile))
    (fun _ => rfl) (fun _ hs hgoes => clause_lands hr hs hshallow (kind_ne_of_before hgoes).1)
    _ s₃ hroom₃ (hr.left_lt s₃)).bind fun clauses s₄ h₄ => ?_
  exact (expect_lands h₄.ready).bind fun _ _ h₅ => .look rfl (.pure h₅.ready)

theorem labeledStatement_lands (hr : r.End text n) (hs : Room text (n + 1) s)
    (hkind : s.kind = .identifier) : Lands text True (labeledStatement r) s := by
  refine .look rfl (Lands.bind ((identifier_lands hs.ready).mono fun _ => hkind) fun label s₁ h₁ => ?_)
  refine (expect_lands h₁.ready).bind fun _ s₂ h₂ => ?_
  exact (nested_lands hr (h₂.room (h₁.room_of_pass hs))).bind fun body _ h₃ => .look rfl (.pure h₃.ready)

theorem functionStatement_lands (hr : r.End text n) (hs : Room text (n + 1) s)
    (hne : s.kind ≠ .endOfFile) : Lands text True (functionStatement r) s := by
  refine .look rfl ((next_passes hs.ready hne).bind fun _ s₁ h₁ => ?_)
  have hroom : Room text n s₁ := h₁.room_of_pass hs
  refine (identifier_goes h₁.ready).bind fun name s₂ h₂ => ?_
  refine (params_lands hr (h₂.room hroom)).bind fun ps s₃ h₃ => ?_
  refine (functionBody_lands hr (h₃.room (h₂.room hroom))).bind fun body _ h₄ => ?_
  exact .look rfl (.pure h₄.ready)

/-- A statement passes a token, unless it is nested too deep or there is none to pass. -/
theorem statement_lands (hr : r.End text n) (htext : NotTooDeep text) (hs : Room text (n + 1) s) :
    Lands text (s.depth < maxDepth ∧ s.kind ≠ .endOfFile ∧ s.kind ≠ .mark .closeBrace)
      (statement r) s := by
  refine .look (a := s.kind) rfl ?_
  generalize hkind : s.kind = k
  have hready := hs.ready
  have hnested : ∀ s₁, Moves text True s s₁ → Lands text False r.statement s₁ :=
    fun s₁ h₁ => nested_lands hr (h₁.room_of_pass hs)
  -- An expression passes a token here, since no semicolon comes first.
  have hexpression : ∀ s₁, Stays s s₁ → k ≠ .mark .semicolon → Lands text
      (s.depth < maxDepth ∧ k ≠ .endOfFile ∧ k ≠ .mark .closeBrace) (expressionStatement r) s₁ := by
    intro s₁ h₁ hsemicolon
    refine (expressionStatement_lands hr (h₁.room hs)).mono fun ⟨hdepth, hend, hbrace⟩ => ?_
    rw [h₁.depth_eq, h₁.kind_eq, hkind]
    exact ⟨hdepth, hend, hbrace, hsemicolon⟩
  suffices hpass : ∀ p : Parse Stmt, Lands text True p s →
      Lands text (s.depth < maxDepth ∧ k ≠ .endOfFile ∧ k ≠ .mark .closeBrace) p s by
    split
    case h_1 => exact hpass _ (emptyStatement_lands hready (hkind.trans_ne nofun))
    case h_2 => exact hpass _ (debuggerStatement_lands hready (hkind.trans_ne nofun))
    case h_3 =>
      have hbrace : Lands text True (expectMark .openBrace) s := expect_passes hready hkind nofun
      have hblock := block_lands_of hr hbrace fun s₁ h₁ => h₁.room_of_pass hs
      exact hpass _ (hblock.bind fun _ _ h => .pure h.ready)
    case h_4 => exact hpass _ (declStatement_lands hr hs.toInside (hkind.trans_ne nofun) _)
    case h_5 => exact hpass _ (declStatement_lands hr hs.toInside (hkind.trans_ne nofun) _)
    case h_6 => exact hpass _ (declStatement_lands hr hs.toInside (hkind.trans_ne nofun) _)
    case h_7 => exact hpass _ (functionStatement_lands hr hs (hkind.trans_ne nofun))
    case h_8 => exact hpass _ (ifStatement_lands hr hs (hkind.trans_ne nofun))
    case h_9 => exact hpass _ (returnStatement_lands hr hs (hkind.trans_ne nofun))
    case h_10 => exact hpass _ (whileStatement_lands hr hs (hkind.trans_ne nofun))
    case h_11 => exact hpass _ (forStatement_lands hr hs (hkind.trans_ne nofun))
    case h_12 => exact hpass _ (doStatement_lands hr hs (hkind.trans_ne nofun))
    case h_13 => exact hpass _ (throwStatement_lands hr hs (hkind.trans_ne nofun))
    case h_14 => exact hpass _ (tryStatement_lands hr hs (hkind.trans_ne nofun))
    case h_15 => exact hpass _ (jumpStatement_lands hready (hkind.trans_ne nofun))
    case h_16 => exact hpass _ (jumpStatement_lands hready (hkind.trans_ne nofun))
    case h_17 =>
      have hne : s.kind ≠ .endOfFile := hkind.trans_ne nofun
      have hshallow : opened text text.length < maxDepth :=
        htext.resolve_left fun h => h s.here (hready.here_lt hne) (hready.kind_eq ▸ hkind)
      exact hpass _ (switchStatement_lands hr hs hshallow hne)
    case h_18 =>
      refine hpass _ (report_bind_lands fun s₁ h₁ => ?_)
      have hne : s₁.kind ≠ .endOfFile := h₁.kind_eq.trans_ne (hkind.trans_ne nofun)
      exact (next_passes (h₁.ready hready) hne).bind fun _ s₂ h₂ => hnested s₂ (h₁.moves h₂)
    case h_19 =>
      refine peekKind_bind_lands fun _ s₁ h₁ => .ite ?_ (hexpression s₁ h₁ nofun)
      exact (labeledStatement_lands hr (h₁.room hs) (h₁.kind_eq.trans hkind)).mono fun _ => trivial
    case h_20 => exact hexpression s ⟨rfl, rfl, rfl⟩ ‹k ≠ .mark .semicolon›
  exact fun p hp => hp.mono fun _ => trivial

theorem program_lands (hr : r.End text n) : ∀ limit s, Room text n s → left text s < limit →
    Lands text False (program r limit) s
  | 0, _, _, hlimit => absurd hlimit (Nat.not_lt_zero _)
  | limit + 1, s, hs, hlimit => by
    refine (statements_lands hr hs).bind fun ss s₁ h₁ => ?_
    have hroom : Room text n s₁ := h₁.room hs
    refine at?_cases (fun hkind => report_bind_lands fun s₂ h₂ => ?_) fun _ => .pure h₁.ready
    have hne : s₂.kind ≠ .endOfFile := h₂.kind_eq.trans_ne (hkind.trans_ne nofun)
    refine ((next_passes (h₂.ready h₁.ready) hne).bind fun _ s₃ h₃ => ?_).goes
    have hle := h₁.left_le
    have hlt := (h₂.moves h₃).passes trivial
    have hmore := program_lands hr limit s₃ (h₃.room (h₂.room hroom)) (by omega)
    exact hmore.bind fun more _ h₄ => .pure h₄.ready

end Rule

/-- The rules for constructs nested less than `depth` levels deep come to an end where less than
`depth` characters are left. -/
theorem Rules.within_end {text : List Char} (htext : NotTooDeep text) {bound : Nat}
    (hbound : text.length < bound) (depth : Nat) : (Rules.within bound depth).End text depth := by
  induction depth with
  | zero =>
    have hnone : ∀ s, ¬ Inside text 0 s := fun s hs => Nat.not_lt_zero _ hs.left_lt
    exact ⟨hbound, fun s hs => absurd hs.toInside (hnone s), fun s hs => absurd hs (hnone s),
      fun _ s hs => absurd hs (hnone s), fun s hs => absurd hs (hnone s),
      fun s hs => absurd hs (hnone s), fun s hs => absurd hs.toInside (hnone s)⟩
  | succ depth ih =>
    exact ⟨hbound, fun _ hs => (Rule.expression_lands ih hs).goes,
      fun _ hs => (Rule.assignment_lands ih hs).goes,
      fun least _ hs => (Rule.binary_lands ih hs least).goes,
      fun _ hs => (Rule.unary_lands ih hs).goes,
      fun _ hs hkind => (Rule.construct_lands ih hs hkind).goes,
      fun _ hs => Rule.statement_lands ih htext hs⟩

/-- The first token of a text leaves no more than the text and no expression is open there. -/
theorem room_of_start {bound : Nat} {text : String} (hbound : text.toList.length < bound) :
    ∃ s, Parse.next (ParseState.ofText text) = some ((), s) ∧ Room text.toList bound s := by
  have htext : (ParseState.ofText text).scanner.text = text.toList := skipShebang_text _
  refine ⟨_, Parse.next_state _, ⟨⟨⟨(scan_text _).trans htext, ?_, Nat.zero_le _⟩, ?_⟩, Nat.zero_le _⟩⟩
  · rw [scan_token, htext]
    exact ⟨_, rfl⟩
  · exact (Nat.sub_le _ _).trans_lt hbound

/-- **Reading comes to an end.** If a text has no `switch`, or fewer brackets and functions are
opened in it than expressions may be nested, it is read within every bound that is larger than its
length. -/
theorem read_ends {bound : Nat} {text : String} (htext : NotTooDeep text.toList)
    (hbound : text.length < bound) : ∃ script, parseWithin bound text = some script := by
  have hlength : text.toList.length < bound := by rwa [String.length_toList]
  obtain ⟨s₁, hnext, hroom⟩ := room_of_start hlength
  obtain ⟨ss, s, hprogram, -⟩ := Rule.program_lands (Rules.within_end htext hlength bound) bound s₁ hroom
    hroom.left_lt
  exact ⟨_, Option.bind_eq_some_iff.mpr ⟨(ss, s), (bind_of_some hnext).trans hprogram, rfl⟩⟩

/-- Parentheses that are not closed. -/
def openParens (n : Nat) : String := String.ofList (List.replicate n '(')

theorem openParens_toList (n : Nat) : (openParens n).toList = List.replicate n '(' :=
  String.toList_ofList

theorem openParens_notTooDeep (n : Nat) : NotTooDeep (openParens n).toList := by
  rw [openParens_toList]
  refine .inl fun pos hpos => ?_
  rw [List.length_replicate] at hpos
  obtain ⟨rest, hrest⟩ := Nat.exists_eq_add_of_lt hpos
  rw [kindAt, List.drop_replicate, show n - pos = rest + 1 by omega, List.replicate_succ]
  exact TokenKind.noConfusion

theorem openParens_length (n : Nat) : (openParens n).length = n := by
  rw [openParens, String.length_ofList, List.length_replicate]

/-- More parentheses than expressions may be nested in. -/
theorem read_ends_parens : NotTooDeep (openParens 300).toList ∧ (openParens 300).length < 301 ∧
    ∃ script, parseWithin 301 (openParens 300) = some script :=
  have hlength : (openParens 300).length < 301 := (openParens_length 300).trans_lt (by decide)
  ⟨openParens_notTooDeep 300, hlength, read_ends (openParens_notTooDeep 300) hlength⟩

end Script
end Countersign
