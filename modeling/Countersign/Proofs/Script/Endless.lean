/-
# A program that is read without end

Where expressions are nested as deep as they may be, an expression is left out and no token is passed.
The statements of a list drop a token in that case; those of a clause do not, and are read again and
again from the same place. So there are programs for which no bound on the work is enough.

Key definitions: `follows`, `Ahead`, `Leads`, `endlessProgram`.
Key theorems: `Rule.clauseStatements_never`, `Rule.expression_never`, `read_never`, `read_endless`.
-/
import Countersign.Proofs.Script.Termination

namespace Countersign
namespace Script

/-! ### Tokens to come -/

/-- The tokens of a text from `t` on are of these kinds. -/
def follows (text : List Char) : Token → List TokenKind → Bool
  | _, [] => true
  | t, k :: ks => t.kind == k && follows text (scanAt text t.span.stop).token ks

/-- Tokens of these kinds come next, at this depth. -/
structure Ahead (ks : List TokenKind) (depth : Nat) (s : ParseState) : Prop where
  follows : follows s.scanner.text s.scanner.token ks = true
  depth_eq : s.depth = depth

section Ahead

variable {k : TokenKind} {ks : List TokenKind} {depth : Nat} {s s' : ParseState}

theorem Ahead.kind_eq (h : Ahead (k :: ks) depth s) : s.scanner.token.kind = k :=
  beq_iff_eq.mp (Bool.and_eq_true_iff.mp h.follows).1

theorem Ahead.stays (h : Ahead ks depth s) (hstays : Stays s s') : Ahead ks depth s' where
  follows := by
    rw [hstays.text_eq, hstays.token_eq]
    exact h.follows
  depth_eq := hstays.depth_eq.trans h.depth_eq

theorem Ahead.kind_run (h : Ahead (k :: ks) depth s) : Parse.kind s = some (k, s) := by
  rw [← h.kind_eq]
  rfl

theorem Ahead.at_run (h : Ahead (k :: ks) depth s) (k' : TokenKind) :
    Parse.at? k' s = some (k == k', s) := by
  rw [← h.kind_eq]
  rfl

theorem Ahead.before_run (h : Ahead (k :: ks) depth s) (m : Mark) :
    Parse.before m s = some (!(k == .mark m) && !(k == .endOfFile), s) := by
  rw [← h.kind_eq]
  rfl

theorem Ahead.deeper (h : Ahead ks depth s) : Ahead ks (depth + 1) { s with depth := s.depth + 1 } :=
  ⟨h.follows, congrArg (· + 1) h.depth_eq⟩

end Ahead

/-! ### What reading can lead to -/

/-- If reading from `s` comes to an end, it does so as `Q` says. -/
def Leads {α : Type} (p : Parse α) (s : ParseState) (Q : ParseState → Prop) : Prop :=
  ∀ a s', p s = some (a, s') → Q s'

/-- Reading from `s` does not come to an end. -/
def Never {α : Type} (p : Parse α) (s : ParseState) : Prop := Leads p s fun _ => False

section Leads

variable {α β : Type} {p : Parse α} {f : α → Parse β} {s : ParseState} {Q R : ParseState → Prop}

theorem Leads.bind (hp : Leads p s Q) (hf : ∀ a s', Q s' → Leads (f a) s' R) :
    Leads (p >>= f) s R := by
  intro b s'' h
  obtain ⟨a, s', hp', hf'⟩ := bind_some h
  exact hf a s' (hp a s' hp') b s'' hf'

theorem Leads.look {a : α} (h : p s = some (a, s)) (hf : Leads (f a) s R) : Leads (p >>= f) s R := by
  intro b s' hrun
  rw [bind_of_some h] at hrun
  exact hf b s' hrun

theorem Leads.pure {a : α} (h : Q s) : Leads (Pure.pure a) s Q := by
  intro b s' hrun
  cases hrun
  exact h

theorem Leads.stuck : Leads (Parse.stuck : Parse α) s Q := by
  intro a s' h
  cases h

theorem Never.bind (h : Never p s) : Leads (p >>= f) s R :=
  Leads.bind h fun _ _ hfalse => hfalse.elim

theorem Never.none (h : Never p s) : p s = none := by
  cases hrun : p s with
  | none => rfl
  | some result => exact (h result.1 result.2 hrun).elim

end Leads

namespace Parse

variable {α : Type} {k : TokenKind} {ks : List TokenKind} {depth : Nat} {s : ParseState}

theorem next_leads (h : Ahead (k :: ks) depth s) : Leads next s (Ahead ks depth) := by
  intro a s' hrun
  rw [next_state] at hrun
  cases hrun
  refine ⟨?_, h.depth_eq⟩
  rw [scan_text, scan_token]
  exact (Bool.and_eq_true_iff.mp h.follows).2

theorem expect_leads (h : Ahead (k :: ks) depth s) : Leads (expect k) s (Ahead ks depth) := by
  intro a s' hrun
  rw [expect_of_kind h.kind_eq] at hrun
  exact next_leads h a s' hrun

theorem report_leads {flt : Fault} (h : Ahead ks depth s) : Leads (report flt) s (Ahead ks depth) := by
  obtain ⟨s₁, hreport, hstays⟩ := report_stays flt s
  intro a s' hrun
  rw [hreport] at hrun
  cases hrun
  exact h.stays hstays

theorem withNoIn_never {p : Parse α} {noIn : Bool} (hp : Never p { s with noIn := noIn }) :
    Never (withNoIn noIn p) s := by
  intro a s' hrun
  obtain ⟨saved, s₁, hget, hrun⟩ := bind_some hrun
  cases hget
  obtain ⟨_, s₂, hset, hrun⟩ := bind_some hrun
  cases hset
  obtain ⟨b, s₃, hp', -⟩ := bind_some hrun
  exact hp b s₃ hp'

/-- A loop whose first round does not end does not end. -/
theorem repeatWhile_never {more : Parse Bool} {item : Parse α} (hmore : more s = some (true, s))
    (hitem : Never item s) (limit : Nat) : Never (repeatWhile more item limit) s := by
  cases limit with
  | zero => exact .stuck
  | succ limit => exact .look hmore hitem.bind

/-- Where the end of a statement may be, only a semicolon is passed. -/
theorem expectSemicolon_leads (h : Ahead (k :: ks) depth s) (hk : k ≠ .mark .semicolon) :
    Leads expectSemicolon s (Ahead (k :: ks) depth) := by
  refine .look (h.at_run _) ?_
  rw [if_neg fun hsemicolon => hk (beq_iff_eq.mp hsemicolon)]
  refine .look rfl (.look rfl (.look rfl ?_))
  split
  · exact .pure h
  · exact report_leads h

end Parse

namespace Rule

open Parse

variable {r : Rules} {k : TokenKind} {ks : List TokenKind} {depth : Nat} {s : ParseState}

/-! ### Nested too deep -/

/-- An expression that is nested too deep passes no token. -/
theorem expression_leads (h : Ahead ks depth s) (hdeep : maxDepth ≤ depth) :
    Leads (expression r) s (Ahead ks depth) := by
  refine .look rfl ?_
  rw [if_pos (h.depth_eq ▸ hdeep)]
  exact (report_leads h).bind fun _ _ h' => .look rfl (.pure h')

theorem head_leads (h : Ahead (.mark .openParen :: .mark .closeParen :: ks) depth s)
    (hdeep : maxDepth ≤ depth) : Leads (head r) s (Ahead ks depth) := by
  refine (expect_leads h).bind fun _ s₁ h₁ => (expression_leads h₁ hdeep).bind fun _ s₂ h₂ => ?_
  exact (expect_leads h₂).bind fun _ _ h₃ => .pure h₃

/-- Nor does a statement that starts with a number there. -/
theorem statement_leads (h : Ahead (.number :: ks) depth s) (hdeep : maxDepth ≤ depth) :
    Leads (statement r) s (Ahead (.number :: ks) depth) := by
  refine .look h.kind_run (.look rfl ?_)
  refine (expression_leads h hdeep).bind fun e s₁ h₁ => .look rfl ?_
  exact (expectSemicolon_leads h₁ nofun).bind fun _ _ h₂ => .pure h₂

/-- So the statements of a clause are read from there again and again. -/
theorem clauseStatements_never {bound level : Nat} (hdeep : maxDepth ≤ depth) : ∀ limit s,
    Ahead (.number :: ks) depth s →
    Never (repeatWhile beforeClause (Rules.within bound level).statement limit) s
  | 0, _, _ => .stuck
  | limit + 1, s, h => by
    have hstatement : Leads (Rules.within bound level).statement s (Ahead (.number :: ks) depth) := by
      cases level with
      | zero => exact .stuck
      | succ level => exact statement_leads h hdeep
    refine .look (a := true) ?_ ?_
    · show some (_, s) = some (true, s)
      rw [h.kind_eq]
      rfl
    · exact hstatement.bind fun _ s₁ h₁ => (clauseStatements_never hdeep limit s₁ h₁).bind

/-- What is written is a `switch` with a number for the statement of its only clause. -/
def switchKinds : List TokenKind :=
  [.word .switchWord, .mark .openParen, .mark .closeParen, .mark .openBrace, .word .defaultWord,
    .mark .colon, .number]

theorem switchStatement_never {bound level : Nat} (h : Ahead switchKinds depth s)
    (hdeep : maxDepth ≤ depth) : Never (switchStatement (Rules.within bound level)) s := by
  refine .look rfl ((next_leads h).bind fun _ s₁ h₁ => (head_leads h₁ hdeep).bind fun _ s₂ h₂ => ?_)
  refine (expect_leads h₂).bind fun _ s₃ h₃ => Never.bind (repeatWhile_never (h₃.before_run _) ?_ _)
  refine .look rfl (.look h₃.kind_run ((next_leads h₃).bind fun _ s₄ h₄ => ?_))
  exact (expect_leads h₄).bind fun _ s₅ h₅ => (clauseStatements_never hdeep _ s₅ h₅).bind

theorem params_leads (h : Ahead (.mark .openParen :: .mark .closeParen :: ks) depth s) :
    Leads (params r) s (Ahead ks depth) := by
  refine (expect_leads h).bind fun _ s₁ h₁ => ?_
  have hempty : Leads (commaList (before .closeParen) param r.bound) s₁
      (Ahead (.mark .closeParen :: ks) depth) := by
    cases r.bound with
    | zero => exact .stuck
    | succ limit => exact .look (h₁.before_run _) (.pure h₁)
  exact hempty.bind fun _ s₂ h₂ => (expect_leads h₂).bind fun _ _ h₃ => .pure h₃

/-- A function without parameters whose body is such a `switch`. -/
def functionKinds : List TokenKind :=
  [.word .functionWord, .mark .openParen, .mark .closeParen, .mark .openBrace] ++ switchKinds

theorem functionExpr_never {bound level : Nat} (h : Ahead functionKinds depth s)
    (hdeep : maxDepth ≤ depth) : Never (functionExpr (Rules.within bound level)) s := by
  refine .look rfl ((expect_leads h).bind fun _ s₁ h₁ => .look (h₁.at_run _) (.look rfl ?_))
  refine (params_leads h₁).bind fun _ s₂ h₂ => Never.bind (withNoIn_never ?_)
  have h₃ : Ahead (.mark .openBrace :: switchKinds) depth { s₂ with noIn := false } :=
    ⟨h₂.follows, h₂.depth_eq⟩
  refine .look rfl ((expect_leads h₃).bind fun _ s₄ h₄ => Never.bind ?_)
  refine repeatWhile_never (h₄.before_run _) ?_ _
  refine .look rfl (Never.bind ?_)
  cases level with
  | zero => exact .stuck
  | succ level => exact .look h₄.kind_run (switchStatement_never h₄ hdeep)

/-! ### Parentheses around it -/

/-- An expression does not end if what it starts with does not, unless it is nested too deep. -/
theorem expression_never_of_primary (h : Ahead (k :: ks) depth s) (hdepth : depth < maxDepth)
    (hk : k.beforeMark? = none ∧ k.wordOp? = none ∧ k ≠ .word .newWord)
    (hprimary : ∀ s', Ahead (k :: ks) (depth + 1) s' → Never (primary r) s') :
    Never (expression r) s := by
  refine .look rfl ?_
  rw [if_neg (by rw [h.depth_eq]; exact Nat.not_le_of_lt hdepth)]
  refine Leads.bind (Q := Ahead (k :: ks) (depth + 1)) ?_ fun _ s₁ h₁ => Never.bind ?_
  · intro a s' hrun
    cases hrun
    exact h.deeper
  · have hleft : Never (leftHandSide r) s₁ := by
      refine .look (h₁.at_run _) ?_
      rw [if_neg fun hnew => hk.2.2 (beq_iff_eq.mp hnew)]
      exact (hprimary s₁ h₁).bind
    have hunary : Never (unary r) s₁ := by
      refine .look rfl ?_
      rw [h₁.kind_eq, hk.1, hk.2.1]
      exact hleft.bind
    have hbinary : Never (binary r 0) s₁ := hunary.bind
    have hconditional : Never (conditional r) s₁ := hbinary.bind
    exact hconditional.bind

/-- In as many parentheses as bring it to the greatest depth such a function is read without end. -/
theorem expression_never {bound : Nat} : ∀ n level depth s, depth + n + 1 = maxDepth →
    Ahead (List.replicate n (.mark .openParen) ++ functionKinds) depth s →
    Never (expression (Rules.within bound level)) s
  | 0, level, depth, s, hdepth, h => by
    refine expression_never_of_primary h (by omega) ⟨rfl, rfl, nofun⟩ fun s₁ h₁ => ?_
    exact .look h₁.kind_run (functionExpr_never h₁ (by omega))
  | n + 1, level, depth, s, hdepth, h => by
    refine expression_never_of_primary h (by omega) ⟨rfl, rfl, nofun⟩ fun s₁ h₁ => ?_
    refine .look h₁.kind_run (.look rfl ((expect_leads h₁).bind fun _ s₂ h₂ => Never.bind ?_))
    refine withNoIn_never ?_
    have h₃ : Ahead (List.replicate n (.mark .openParen) ++ functionKinds) (depth + 1)
        { s₂ with noIn := false } := ⟨h₂.follows, h₂.depth_eq⟩
    cases level with
    | zero => exact .stuck
    | succ level => exact expression_never n level (depth + 1) _ (by omega) h₃

end Rule

/-- A text that starts with such a function in parentheses is read without end. -/
theorem read_never {text : String}
    (h : follows text.toList (firstToken text)
      (List.replicate (maxDepth - 1) (.mark .openParen) ++ Rule.functionKinds) = true) (bound : Nat) :
    parseWithin bound text = none := by
  have hstart : Leads Parse.next (ParseState.ofText text)
      (Ahead (List.replicate (maxDepth - 1) (.mark .openParen) ++ Rule.functionKinds) 0) := by
    intro a s' hrun
    rw [Parse.next_state] at hrun
    cases hrun
    refine ⟨?_, rfl⟩
    rw [scan_text, show (ParseState.ofText text).scanner.text = text.toList from skipShebang_text _]
    exact h
  have hstatement : ∀ level s, Ahead (List.replicate (maxDepth - 1) (.mark .openParen) ++
      Rule.functionKinds) 0 s → Never (Rules.within bound level).statement s := by
    intro level s hs
    cases level with
    | zero => exact .stuck
    | succ level =>
      exact .look hs.kind_run (.look rfl (Never.bind (Rule.expression_never _ level 0 s rfl hs)))
  have hread : Never (Parse.next >>= fun _ => Rule.program (Rules.within bound bound) bound)
      (ParseState.ofText text) := by
    refine hstart.bind fun _ s₁ h₁ => ?_
    cases hlimit : bound with
    | zero => exact .stuck
    | succ limit =>
      refine Never.bind (Parse.repeatWhile_never (h₁.before_run _) ?_ _)
      refine .look rfl (Never.bind ?_)
      rw [← hlimit]
      exact hstatement bound s₁ h₁
  show Option.bind ((Parse.next >>= fun _ => Rule.program (Rules.within bound bound) bound)
    (ParseState.ofText text)) _ = none
  rw [hread.none]
  rfl

theorem scanAt_openParen {text rest : List Char} {pos : Nat} (h : text.drop pos = '(' :: rest) :
    (scanAt text pos).token =
      { kind := .mark .openParen, span := ⟨pos, pos + 1⟩, value := "", flags := {} } := by
  rw [scanAt, h]
  rfl

/-- Parentheses in a row are tokens in a row. -/
theorem follows_parens {text rest : List Char} {ks : List TokenKind} : ∀ n pos,
    text.drop pos = List.replicate n '(' ++ rest → follows text (scanAt text (pos + n)).token ks = true →
    follows text (scanAt text pos).token (List.replicate n (.mark .openParen) ++ ks) = true
  | 0, _, _, h => h
  | n + 1, pos, htext, h => by
    have hnext : text.drop (pos + 1) = List.replicate n '(' ++ rest := by
      rw [← List.drop_drop, htext]
      rfl
    rw [List.replicate_succ, List.cons_append, follows, scanAt_openParen htext]
    exact follows_parens n (pos + 1) hnext (by rwa [Nat.add_right_comm])

theorem openParens_append_toList (n : Nat) (text : String) :
    (openParens n ++ text).toList = List.replicate n '(' ++ text.toList := by
  rw [String.toList_append, openParens_toList]

/-- A function in as many parentheses as expressions may be nested in but one, whose body is a
`switch` with a number for the statement of its clause. -/
def endlessProgram : String := openParens 199 ++ "function()\x7bswitch()\x7bdefault:1"

theorem endlessProgram_follows : follows endlessProgram.toList (firstToken endlessProgram)
    (List.replicate (maxDepth - 1) (.mark .openParen) ++ Rule.functionKinds) = true := by
  have hfunction : follows (List.replicate 199 '(' ++ "function()\x7bswitch()\x7bdefault:1".toList)
      (scanAt (List.replicate 199 '(' ++ "function()\x7bswitch()\x7bdefault:1".toList) (0 + 199)).token
      Rule.functionKinds = true := by decide +kernel
  rw [endlessProgram, firstToken_eq (by rw [openParens_append_toList]; rfl), openParens_append_toList]
  exact follows_parens 199 0 rfl hfunction

/-- No bound is enough to read the program. -/
theorem read_endless : ¬ ∃ bound script, parseWithin bound endlessProgram = some script := by
  rintro ⟨bound, script, hread⟩
  rw [read_never endlessProgram_follows bound] at hread
  cases hread

end Script
end Countersign
