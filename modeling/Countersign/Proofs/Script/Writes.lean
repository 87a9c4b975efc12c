/-
# Reading what is written

A piece of reading that reports nothing passes the tokens that its result is written with; whatever
it reports, the firm pieces of its result are found among the tokens it passes. `Writes` says so,
given what was written before, with a lemma for each way of putting pieces of reading together. How
much is said is an `Account`: after a report no account can be given of all the tokens any more, but
what was reported stays.

The tokens that were passed are a matter of the scanner alone: each is the one that follows the
token before it, and one that begins with a slash may be read again as a regular expression.

Key definitions: `Passed`, `Covered`, `Followed`, `Account`, `Writes`, `Tells`.
Key theorems: `Writes.bind`, `Parse.report_bind`, `Parse.expect_tells`, `Parse.repeatWhile_tells`,
`Parse.commaList_tells`.
-/
import Countersign.Proofs.Script.Traces
import Countersign.Proofs.Script.Tokens

namespace Countersign
namespace Script

/-! ### Tokens that were passed -/

/-- From the token `first` on, the tokens of a list were passed and a last one was come to. -/
inductive Passed (text : List Char) (first : Token) : List Token → Token → Prop
  | start : Passed text first [] first
  | next {ts : List Token} {t : Token} :
      Passed text first ts t → Passed text first (ts ++ [t]) (scanAt text t.span.stop).token
  /-- A token that begins with a slash is read again. -/
  | again {ts : List Token} {t : Token} :
      Passed text first ts t → t.kind = .mark .slash ∨ t.kind = .mark .slashAssign →
      Passed text first ts (rescanRegex text t).1

/-- Tokens that were passed, none of them the end of the text, are left behind. -/
theorem Passed.pos_lt {text : List Char} {first t : Token} {ts : List Token}
    (h : Passed text first ts t) (hsolid : first.Solid) (hts : ∀ u ∈ ts, u.kind ≠ .endOfFile) :
    t.Solid ∧ first.span.pos ≤ t.span.pos ∧ (ts ≠ [] → first.span.pos < t.span.pos) := by
  induction h with
  | start => exact ⟨hsolid, le_refl _, fun h => absurd rfl h⟩
  | @next ts t _ ih =>
    obtain ⟨ht, hle, -⟩ := ih fun u hu => hts u (List.mem_append_left _ hu)
    have hlt : t.span.pos < t.span.stop := ht (hts t (List.mem_append_right _ (List.mem_singleton.mpr rfl)))
    have hscan : t.span.stop ≤ (scanAt text t.span.stop).token.span.pos := (scanAt_fine _ _).1
    exact ⟨scanAt_solid _ _, by omega, fun _ => by omega⟩
  | again _ _ ih => exact ⟨rescanRegex_solid _ _, (ih hts).2⟩

/-- The pieces spell the tokens that were passed from `first` on. -/
structure Covered (text : List Char) (first : Token) (ps : List Piece) (s : ParseState) : Prop where
  text_eq : s.scanner.text = text
  solid : s.scanner.token.Solid
  spelled : ∃ ts, Passed text first ts s.scanner.token ∧ Spells text ps ts

section Covered

variable {text : List Char} {first : Token} {ps qs : List Piece} {s s' : ParseState}

/-- Nothing has been passed yet. -/
theorem Covered.start (htext : s.scanner.text = text) (hsolid : s.scanner.token.Solid) :
    Covered text s.scanner.token [] s := ⟨htext, hsolid, [], .start, .nil⟩

theorem Covered.weaken (h : Covered text first ps s)
    (hps : ∀ ts, Spells text ps ts → Spells text qs ts) : Covered text first qs s := by
  obtain ⟨ts, hpassed, hspells⟩ := h.spelled
  exact ⟨h.text_eq, h.solid, ts, hpassed, hps ts hspells⟩

theorem Covered.keep (h : Covered text first ps s) (htext : s'.scanner.text = s.scanner.text)
    (htoken : s'.scanner.token = s.scanner.token) : Covered text first ps s' := by
  obtain ⟨htext', hsolid, hspelled⟩ := h
  refine ⟨htext.trans htext', ?_, ?_⟩
  · rwa [htoken]
  · rwa [htoken]

/-- The piece that stands for the current token is written, and the token is passed. -/
theorem Covered.next (h : Covered text first ps s) {p : Piece}
    (hp : p.IsToken text s.scanner.token) :
    Covered text first (ps ++ [p])
      { s with lastEnd := s.scanner.token.span.stop, scanner := s.scanner.scan } := by
  obtain ⟨ts, hpassed, hspells⟩ := h.spelled
  refine ⟨(scan_text _).trans h.text_eq, ?_, ts ++ [s.scanner.token], ?_, hspells.snoc hp⟩
  · rw [scan_token]
    exact scanAt_solid _ _
  · rw [scan_token, h.text_eq]
    exact hpassed.next

/-- Where reading starts and what it has come to, nothing being left out, are apart. -/
theorem Covered.here_lt {t : Token} (h : Covered text t ps s) (hsolid : t.Solid)
    (hps : ps.any Piece.isRequired = true) : t.span.pos < s.here := by
  obtain ⟨ts, hpassed, hspells⟩ := h.spelled
  exact (hpassed.pos_lt hsolid hspells.kind_ne).2.2 (hspells.ne_nil hps)

end Covered

/-- The firm pieces are found among the tokens that were passed from `first` on. -/
structure Followed (text : List Char) (first : Token) (ps : List Piece) (s : ParseState) :
    Prop where
  text_eq : s.scanner.text = text
  traced : ∃ ts, Passed text first ts s.scanner.token ∧ Traces text ps ts

section Followed

variable {text : List Char} {first : Token} {ps qs : List Piece} {s s' : ParseState}

theorem Followed.weaken (h : Followed text first ps s)
    (hps : ∀ ts, Traces text ps ts → Traces text qs ts) : Followed text first qs s := by
  obtain ⟨ts, hpassed, htraces⟩ := h.traced
  exact ⟨h.text_eq, ts, hpassed, hps ts htraces⟩

theorem Followed.keep (h : Followed text first ps s) (htext : s'.scanner.text = s.scanner.text)
    (htoken : s'.scanner.token = s.scanner.token) : Followed text first ps s' := by
  obtain ⟨htext', htraced⟩ := h
  refine ⟨htext.trans htext', ?_⟩
  rwa [htoken]

/-- The current token is passed, and perhaps stands for a piece. -/
theorem Followed.next (h : Followed text first ps s)
    (hps : ∀ ts, Traces text ps ts → Traces text qs (ts ++ [s.scanner.token])) :
    Followed text first qs
      { s with lastEnd := s.scanner.token.span.stop, scanner := s.scanner.scan } := by
  obtain ⟨ts, hpassed, htraces⟩ := h.traced
  refine ⟨(scan_text _).trans h.text_eq, ts ++ [s.scanner.token], ?_, hps ts htraces⟩
  rw [scan_token, h.text_eq]
  exact hpassed.next

end Followed

/-! ### Giving account -/

/-- How much is said about what is read. -/
inductive Account where
  /-- If nothing is reported, the pieces spell all the tokens. -/
  | whole
  /-- The firm pieces are found among the tokens. -/
  | firm
  /-- What was reported stays. -/
  | reports

/-- What can still be said after a report. -/
def Account.slack : Account → Account
  | whole => reports
  | firm => firm
  | reports => reports

/-- Nothing has been reported, where that matters. -/
def Account.Silent : Account → ParseState → Prop
  | whole, s => s.errors = []
  | firm, _ => True
  | reports, s => s.errors = []

/-- How the pieces stand for the tokens. -/
def Account.Matches (text : List Char) : Account → List Piece → List Token → Prop
  | whole => Spells text
  | firm => Traces text
  | reports => fun _ _ => True

/-- The pieces stand for the tokens that were passed from `first` on. -/
def Account.Holds (text : List Char) (first : Token) : Account → List Piece → ParseState → Prop
  | whole => Covered text first
  | firm => Followed text first
  | reports => fun _ _ => True

section Account

variable {acc : Account} {text : List Char} {first : Token} {ps qs : List Piece} {ts : List Token}
  {s s' : ParseState}

theorem Account.Silent.of_eq (h : acc.Silent s') (herrors : s'.errors = s.errors) :
    acc.Silent s := by
  cases acc with
  | firm => trivial
  | _ => exact herrors.symm.trans h

theorem Account.Holds.weaken (h : acc.Holds text first ps s)
    (hps : ∀ ts, acc.Matches text ps ts → acc.Matches text qs ts) : acc.Holds text first qs s := by
  cases acc with
  | whole => exact Covered.weaken h hps
  | firm => exact Followed.weaken h hps
  | reports => trivial

theorem Account.Holds.keep (h : acc.Holds text first ps s)
    (htext : s'.scanner.text = s.scanner.text) (htoken : s'.scanner.token = s.scanner.token) :
    acc.Holds text first ps s' := by
  cases acc with
  | whole => exact Covered.keep h htext htoken
  | firm => exact Followed.keep h htext htoken
  | reports => trivial

/-- The piece that stands for the current token is written, and the token is passed. -/
theorem Account.Holds.next (h : acc.Holds text first ps s) {p : Piece}
    (hp : s.scanner.text = text → p.IsToken text s.scanner.token) :
    acc.Holds text first (ps ++ [p])
      { s with lastEnd := s.scanner.token.span.stop, scanner := s.scanner.scan } := by
  cases acc with
  | whole => exact Covered.next h (hp h.text_eq)
  | firm => exact Followed.next h fun _ hts => hts.snoc (hp h.text_eq)
  | reports => trivial

/-- A slash is read again. -/
theorem Account.Holds.again (h : acc.Holds text first ps s)
    (hkind : s.scanner.token.kind = .mark .slash ∨ s.scanner.token.kind = .mark .slashAssign) :
    acc.Holds text first ps { s with scanner := s.scanner.rescanSlash } := by
  cases acc with
  | whole =>
    obtain ⟨htext, -, ts, hpassed, hspells⟩ := h
    refine ⟨(rescanSlash_text _).trans htext, ?_, ts, ?_, hspells⟩
    · rw [rescanSlash_token]
      exact rescanRegex_solid _ _
    · rw [rescanSlash_token, htext]
      exact hpassed.again hkind
  | firm =>
    obtain ⟨htext, ts, hpassed, htraces⟩ := h
    refine ⟨(rescanSlash_text _).trans htext, ts, ?_, htraces⟩
    rw [rescanSlash_token, htext]
    exact hpassed.again hkind
  | reports => trivial

/-- A token is passed over, of which no account is given. -/
theorem Account.Holds.pass (h : acc.slack.Holds text first ps s) :
    acc.slack.Holds text first ps
      { s with lastEnd := s.scanner.token.span.stop, scanner := s.scanner.scan } := by
  cases acc with
  | firm => exact Followed.next h fun _ hts => hts.pass
  | _ => trivial

/-- Pieces may be left out, where no account is given of all the tokens. -/
theorem Account.Matches.sublist (h : acc.slack.Matches text ps ts) (hsub : qs.Sublist ps) :
    acc.slack.Matches text qs ts := by
  cases acc with
  | firm => exact Traces.sublist h hsub
  | _ => trivial

/-- Pieces may be left out with a hole, which does not stand for any token. -/
theorem Account.Matches.without (h : acc.Matches text ps ts) (hsub : qs.Sublist ps)
    (hhole : .hole ∉ ps → qs = ps) : acc.Matches text qs ts := by
  cases acc with
  | whole => rwa [hhole (Spells.hole_not_mem h)]
  | firm => exact Traces.sublist h hsub
  | reports => trivial

/-- Pieces that are not firm may be made up, where no account is given of all the tokens. -/
theorem Account.Matches.of_firm (h : acc.slack.Matches text ps ts)
    (heq : qs.filter Piece.isFirm = ps.filter Piece.isFirm) : acc.slack.Matches text qs ts := by
  cases acc with
  | firm => exact Traces.of_firm h heq
  | _ => trivial

theorem Account.Matches.loose (h : acc.slack.Matches text ps ts) {p : Piece}
    (hp : p.isFirm = false) : acc.slack.Matches text (ps ++ [p]) ts := h.of_firm (by simp [hp])

/-- A mark that stands there may as well be one that may be left out. -/
theorem Account.Matches.optional {m : Mark} (h : acc.Matches text (ps ++ [.mark m]) ts) :
    acc.Matches text (ps ++ [.optional m]) ts := by
  cases acc with
  | whole =>
    refine Spells.mono_append h fun us hus => ?_
    cases hus with
    | token hmark hnil => exact .token hmark.1 hnil
  | firm => exact (Traces.sublist h (List.sublist_append_left _ _)).loose rfl
  | reports => trivial

theorem Account.Matches.absent (m : Mark) (h : acc.Matches text ps ts) :
    acc.Matches text (ps ++ [.optional m]) ts := by
  cases acc with
  | whole =>
    have happend := Spells.append h (.absent (m := m) .nil)
    rwa [List.append_nil] at happend
  | firm => exact Traces.loose h rfl
  | reports => trivial

end Account

/-! ### Reading what is written -/

/-- Whatever the current token is. -/
def Anywhere (_ : Token) : Prop := True

/-- The current token is of kind `k`. -/
def AtKind (k : TokenKind) (t : Token) : Prop := t.kind = k

/-- Where the current token is as `c` says and the pieces `before` have been written, reading leads
to the pieces `total`, by the account that is given. -/
def Writes {α : Type} (acc : Account) (text : List Char) (c : Token → Prop) (p : Parse α)
    (before : List Piece) (total : α → List Piece) : Prop :=
  ∀ s a s', c s.scanner.token → p s = some (a, s') → acc.Silent s' →
    acc.Silent s ∧ ∀ first, acc.Holds text first before s → acc.Holds text first (total a) s'

/-- After whatever was written before, reading adds the pieces of its result. -/
def Tells {α : Type} (acc : Account) (text : List Char) (c : Token → Prop) (p : Parse α)
    (m : α → List Piece) : Prop :=
  ∀ before, Writes acc text c p before fun a => before ++ m a

/-- What was reported before stays. -/
def Quiet {α : Type} (p : Parse α) : Prop :=
  ∀ s a s', p s = some (a, s') → s'.errors = [] → s.errors = []

/-- Reading that only looks: the current token and what was reported stay as they are. -/
def Keeps {α : Type} (p : Parse α) : Prop :=
  ∀ s a s', p s = some (a, s') → s'.scanner.text = s.scanner.text ∧
    s'.scanner.token = s.scanner.token ∧ s'.errors = s.errors

section Writes

variable {α β : Type} {acc : Account} {text : List Char} {c : Token → Prop} {before : List Piece}

theorem Writes.mono {c' : Token → Prop} {p : Parse α} {total : α → List Piece}
    (hp : Writes acc text c' p before total) (h : ∀ t, c t → c' t) :
    Writes acc text c p before total :=
  fun s a s' hc => hp s a s' (h _ hc)

theorem Writes.anywhere {p : Parse α} {total : α → List Piece}
    (hp : Writes acc text Anywhere p before total) : Writes acc text c p before total :=
  hp.mono fun _ _ => trivial

theorem Writes.weaken {p : Parse α} {total total' : α → List Piece}
    (hp : Writes acc text c p before total)
    (h : ∀ a ts, acc.Matches text (total a) ts → acc.Matches text (total' a) ts) :
    Writes acc text c p before total' := by
  intro s a s' hc hread herrors
  obtain ⟨hbefore, hcovered⟩ := hp s a s' hc hread herrors
  exact ⟨hbefore, fun first hfirst => (hcovered first hfirst).weaken (h a)⟩

theorem Writes.bind {p : Parse α} {f : α → Parse β} {mid : α → List Piece} {total : β → List Piece}
    (hp : Writes acc text c p before mid) (hf : ∀ a, Writes acc text Anywhere (f a) (mid a) total) :
    Writes acc text c (p >>= f) before total := by
  intro s b s'' hc h herrors
  obtain ⟨a, s', hp', hf'⟩ := bind_some h
  obtain ⟨herrors', hcovered'⟩ := hf a s' b s'' trivial hf' herrors
  obtain ⟨hbefore, hcovered⟩ := hp s a s' hc hp' herrors'
  exact ⟨hbefore, fun first hfirst => hcovered' first (hcovered first hfirst)⟩

/-- The result is written with what was written, perhaps seen another way. -/
theorem Writes.finish {a : α} {total : α → List Piece}
    (h : ∀ ts, acc.Matches text before ts → acc.Matches text (total a) ts) :
    Writes acc text c (Pure.pure a) before total := by
  intro s b s' _ hpure herrors
  cases hpure
  exact ⟨herrors, fun _ hfirst => hfirst.weaken h⟩

theorem Writes.pure {a : α} {total : α → List Piece} (h : total a = before) :
    Writes acc text c (Pure.pure a) before total :=
  .finish fun ts hts => by rwa [h]

theorem Writes.map {p : Parse α} {f : α → β} {mid : α → List Piece} {total : β → List Piece}
    (hp : Writes acc text c p before mid) (hf : ∀ a, total (f a) = mid a) :
    Writes acc text c (f <$> p) before total := by
  intro s b s' hc h herrors
  obtain ⟨⟨a, s₁⟩, hp', hmap⟩ := Option.bind_eq_some_iff.mp h
  cases hmap
  rw [hf]
  exact hp s a _ hc hp' herrors

theorem Writes.optional {p : Parse α} {m : α → List Piece}
    (hp : Writes acc text c p before fun a => before ++ m a) (m' : Option α → List Piece)
    (h : ∀ a, m' (some a) = m a) : Writes acc text c (some <$> p) before fun o => before ++ m' o :=
  hp.map fun a => by rw [h]

/-- What may be absent is there, after a piece that opens it. -/
theorem Writes.optionalAfter {p : Parse α} {opening : Piece} {m : α → List Piece}
    (hp : Writes acc text c p (before ++ [opening]) fun a => before ++ [opening] ++ m a)
    (m' : Option α → List Piece) (h : ∀ a, m' (some a) = opening :: m a) :
    Writes acc text c (some <$> p) (before ++ [opening]) fun o => before ++ m' o :=
  hp.map fun a => by rw [h, List.append_assoc, List.singleton_append]

theorem Writes.absent (m : Option α → List Piece) (h : m none = []) :
    Writes acc text c (Pure.pure none) before fun o => before ++ m o :=
  .pure (by rw [h, List.append_nil])

theorem Writes.ite {p q : Parse α} {total : α → List Piece} {b : Prop} [Decidable b]
    (hp : Writes acc text c p before total) (hq : Writes acc text c q before total) :
    Writes acc text c (if b then p else q) before total := by
  split
  · exact hp
  · exact hq

/-- What was read may be left out, where no account is given of all the tokens. -/
theorem Tells.skips {p : Parse α} {m : α → List Piece} (hp : Tells acc.slack text c p m) :
    Writes acc.slack text c p before fun _ => before :=
  (hp before).weaken fun _ _ hts => hts.sublist (List.sublist_append_left _ _)

theorem Writes.stuck {total : α → List Piece} : Writes acc text c Parse.stuck before total := by
  intro s a s' _ h
  cases h

/-- Before what is read, something may be looked at. -/
theorem Keeps.bind {p : Parse α} {f : α → Parse β} {total : β → List Piece} (hp : Keeps p)
    (hf : ∀ a, Writes acc text c (f a) before total) :
    Writes acc text c (p >>= f) before total := by
  intro s b s'' hc h herrors
  obtain ⟨a, s', hp', hf'⟩ := bind_some h
  obtain ⟨htext, htoken, herrors'⟩ := hp s a s' hp'
  rw [← htoken] at hc
  obtain ⟨hbefore, hcovered⟩ := hf a s' b s'' hc hf' herrors
  exact ⟨hbefore.of_eq herrors', fun first hfirst => hcovered first (hfirst.keep htext htoken)⟩

/-- What only looks at the state keeps it. -/
theorem Keeps.look {p : Parse α} (f : ParseState → α) (h : ∀ s, p s = some (f s, s)) : Keeps p := by
  intro s a s' hp
  rw [h] at hp
  cases hp
  exact ⟨rfl, rfl, rfl⟩

theorem Keeps.quiet {p : Parse α} (hp : Keeps p) : Quiet p :=
  fun s a s' h herrors => (hp s a s' h).2.2.symm.trans herrors

theorem Quiet.bind {p : Parse α} {f : α → Parse β} (hp : Quiet p) (hf : ∀ a, Quiet (f a)) :
    Quiet (p >>= f) := by
  intro s b s'' h herrors
  obtain ⟨a, s', hp', hf'⟩ := bind_some h
  exact hp s a s' hp' (hf a s' b s'' hf' herrors)

theorem Quiet.ite {p q : Parse α} {b : Prop} [Decidable b] (hp : Quiet p) (hq : Quiet q) :
    Quiet (if b then p else q) := by
  split
  · exact hp
  · exact hq

theorem Quiet.pure (a : α) : Quiet (Pure.pure a : Parse α) := by
  intro s b s' h herrors
  cases h
  exact herrors

end Writes

/-! ### Basic moves -/

namespace Parse

variable {α β : Type} {acc : Account} {text : List Char} {c : Token → Prop} {before : List Piece}

theorem pos_keeps : Keeps pos := .look _ fun _ => rfl

theorem kind_keeps : Keeps kind := .look _ fun _ => rfl

theorem token_keeps : Keeps token := .look _ fun _ => rfl

theorem get_keeps : Keeps (get : Parse ParseState) := .look _ fun _ => rfl

theorem spanFrom_keeps (start : Nat) : Keeps (spanFrom start) := .look _ fun _ => rfl

theorem lineBreakBefore_keeps : Keeps lineBreakBefore := .look _ fun _ => rfl

theorem at?_keeps (k : TokenKind) : Keeps (at? k) := .look _ fun _ => rfl

theorem atMark_keeps (m : Mark) : Keeps (atMark m) := .look _ fun _ => rfl

theorem atWord_keeps (w : Word) : Keeps (atWord w) := .look _ fun _ => rfl

theorem before_keeps (m : Mark) : Keeps (Parse.before m) := .look _ fun _ => rfl

theorem peekKind_keeps : Keeps peekKind := by
  intro s a s' h
  cases h
  exact ⟨peek_text s.scanner 1, peek_token s.scanner 1, rfl⟩

theorem modify_keeps {f : ParseState → ParseState} (hscanner : ∀ s, (f s).scanner = s.scanner)
    (herrors : ∀ s, (f s).errors = s.errors) : Keeps (modify f : Parse Unit) := by
  intro s a s' h
  cases h
  rw [hscanner, herrors]
  exact ⟨rfl, rfl, rfl⟩

/-- What follows may depend on the current token. -/
theorem token_bind {f : Token → Parse β} {total : β → List Piece}
    (hf : ∀ t, c t → Writes acc text (· = t) (f t) before total) :
    Writes acc text c (token >>= f) before total := by
  intro s b s' hc h herrors
  obtain ⟨t, s₁, htoken, h⟩ := bind_some h
  cases htoken
  exact hf _ hc s b s' rfl h herrors

/-- What follows may depend on the kind of the current token. -/
theorem kind_bind {f : TokenKind → Parse β} {total : β → List Piece}
    (hf : ∀ k, Writes acc text (AtKind k) (f k) before total) :
    Writes acc text c (kind >>= f) before total := by
  intro s b s' hc h herrors
  obtain ⟨k, s₁, hkind, h⟩ := bind_some h
  cases hkind
  exact hf _ s b s' rfl h herrors

/-- Where a token of kind `k` is seen, it is there. -/
theorem at?_ite {k : TokenKind} {p q : Parse β} {total : β → List Piece}
    (hp : Writes acc text (AtKind k) p before total)
    (hq : Writes acc text Anywhere q before total) :
    Writes acc text c (at? k >>= fun found => if found = true then p else q) before total := by
  show Writes acc text c (kind >>= fun k' => if (k' == k) = true then p else q) before total
  refine kind_bind fun k' => ?_
  split
  · rename_i hk
    rw [beq_iff_eq.mp hk]
    exact hp
  · exact hq.anywhere

theorem report_errors {flt : Fault} {s s' : ParseState} {u : Unit}
    (h : report flt s = some (u, s')) : s'.errors ≠ [] := by
  cases h
  intro hempty
  dsimp only at hempty
  split at hempty
  · rename_i hhead
    rw [hempty] at hhead
    cases hhead
  · cases hempty

theorem report_scanner {flt : Fault} {s s' : ParseState} {u : Unit}
    (h : report flt s = some (u, s')) : s'.scanner = s.scanner := by
  cases h
  dsimp only
  split <;> rfl

/-- What is reported stays, so no account is given of all the tokens any more. -/
theorem report_bind {f : Unit → Parse β} {total : β → List Piece} (flt : Fault)
    (hf : Writes acc.slack text c (f ()) before total) :
    Writes acc text c (report flt >>= f) before total := by
  intro s b s'' hc h herrors
  obtain ⟨⟨⟩, s', hreport, hf'⟩ := bind_some h
  rw [← report_scanner hreport] at hc
  cases acc with
  | firm =>
    refine ⟨trivial, fun first hfirst => (hf s' b s'' hc hf' trivial).2 first ?_⟩
    exact Followed.keep hfirst (by rw [report_scanner hreport]) (by rw [report_scanner hreport])
  | _ => exact absurd (hf s' b s'' hc hf' herrors).1 (report_errors hreport)

/-- Where something is made up this is reported. -/
theorem report_writes {total : Unit → List Piece} (flt : Fault)
    (h : ∀ ts, acc.slack.Matches text before ts → acc.slack.Matches text (total ()) ts) :
    Writes acc text c (report flt) before total := by
  have hbind : Writes acc text c (report flt >>= fun u => pure u) before total :=
    report_bind flt (.finish h)
  rwa [bind_pure] at hbind

theorem next_writes_piece {p : Piece} (hp : ∀ t, c t → p.IsToken text t) :
    Writes acc text c next before fun _ => before ++ [p] := by
  intro s a s' hc h herrors
  rw [next_state] at h
  cases h
  exact ⟨herrors.of_eq rfl, fun first hfirst => hfirst.next fun _ => hp _ hc⟩

/-- A token is passed over. -/
theorem next_skips : Writes acc.slack text c next before fun _ => before := by
  intro s a s' hc h herrors
  rw [next_state] at h
  cases h
  exact ⟨herrors.of_eq rfl, fun first hfirst => hfirst.pass⟩

theorem next_writes {k : TokenKind} (hk : k ≠ .endOfFile) :
    Writes acc text (AtKind k) next before fun _ => before ++ [.kind k] :=
  next_writes_piece fun _ ht => ⟨ht, hk⟩

theorem nextMark_writes (m : Mark) :
    Writes acc text (AtKind (.mark m)) next before fun _ => before ++ [.mark m] := next_writes nofun

theorem nextWord_writes (w : Word) :
    Writes acc text (AtKind (.word w)) next before fun _ => before ++ [.word w] := next_writes nofun

theorem next_quiet : Quiet next := by
  intro s a s' h herrors
  cases h
  exact herrors

/-- A token of kind `k` is passed, or not there. -/
theorem accept_ite {k : TokenKind} {p q : Parse β} {total : β → List Piece} (hk : k ≠ .endOfFile)
    (hp : Writes acc text Anywhere p (before ++ [.kind k]) total)
    (hq : Writes acc text Anywhere q before total) :
    Writes acc text c (accept k >>= fun found => if found = true then p else q) before total := by
  rw [accept_bind]
  exact at?_ite ((next_writes hk).bind fun _ => hp) hq

theorem acceptMark_ite {m : Mark} {p q : Parse β} {total : β → List Piece}
    (hp : Writes acc text Anywhere p (before ++ [.mark m]) total)
    (hq : Writes acc text Anywhere q before total) :
    Writes acc text c (acceptMark m >>= fun found => if found = true then p else q) before total :=
  accept_ite nofun hp hq

theorem acceptWord_ite {w : Word} {p q : Parse β} {total : β → List Piece}
    (hp : Writes acc text Anywhere p (before ++ [.word w]) total)
    (hq : Writes acc text Anywhere q before total) :
    Writes acc text c (accept (.word w) >>= fun found => if found = true then p else q) before
      total :=
  accept_ite nofun hp hq

/-- What is expected may be made up. -/
theorem expect_tells {k : TokenKind} (hk : k ≠ .endOfFile)
    (hloose : (Piece.kind k).isFirm = false) :
    Tells acc text Anywhere (expect k) fun _ => [.kind k] :=
  fun _ => accept_ite hk (.pure rfl) (report_writes _ fun _ hts => hts.loose hloose)

theorem expectMark_tells {m : Mark} (hloose : (Piece.mark m).isFirm = false) :
    Tells acc text Anywhere (expectMark m) fun _ => [.mark m] := expect_tells nofun hloose

theorem expectWord_tells {w : Word} (hloose : (Piece.word w).isFirm = false) :
    Tells acc text Anywhere (expect (.word w)) fun _ => [.word w] := expect_tells nofun hloose

theorem nextSemicolon_writes : Writes acc text (AtKind (.mark .semicolon)) next before
    fun _ => before ++ [.optional .semicolon] :=
  (nextMark_writes _).weaken fun _ _ hts => hts.optional

/-- A semicolon may follow even where none is needed. -/
theorem acceptSemicolon_tells :
    Tells acc text Anywhere (acceptMark .semicolon) fun _ => [.optional .semicolon] :=
  fun _ => at?_ite (nextSemicolon_writes.bind fun _ => .pure rfl)
    (.finish fun _ hts => hts.absent _)

theorem expectSemicolon_tells :
    Tells acc text Anywhere expectSemicolon fun _ => [.optional .semicolon] := by
  intro before
  refine at?_ite nextSemicolon_writes ?_
  refine (atMark_keeps _).bind fun _ => (at?_keeps _).bind fun _ => ?_
  refine lineBreakBefore_keeps.bind fun _ => .ite (.finish fun _ hts => hts.absent _) ?_
  exact report_writes _ fun _ hts => hts.loose rfl

theorem withNoIn_writes {p : Parse α} {total : α → List Piece} (noIn : Bool)
    (h : Writes acc text c p before total) : Writes acc text c (withNoIn noIn p) before total := by
  refine get_keeps.bind fun s => Keeps.bind (modify_keeps ?_ ?_) fun _ => ?_
  · exact fun _ => rfl
  · exact fun _ => rfl
  · refine h.bind fun a => Keeps.bind (modify_keeps ?_ ?_) fun _ => .pure rfl
    · exact fun _ => rfl
    · exact fun _ => rfl

theorem repeatWhile_tells {more : Parse Bool} {item : Parse α} {m : α → List Piece}
    (hmore : Keeps more) (hitem : Tells acc text Anywhere item m) :
    ∀ limit, Tells acc text Anywhere (repeatWhile more item limit) fun as => as.flatMap m
  | 0, _ => .stuck
  | limit + 1, before => by
    refine hmore.bind fun _ => .ite ?_ (.pure (by simp))
    refine (hitem before).bind fun a => ?_
    exact (repeatWhile_tells hmore hitem limit _).bind fun _ => .pure (by simp)

theorem repeatWhile_quiet {more : Parse Bool} {item : Parse α} (hmore : Quiet more)
    (hitem : Quiet item) : ∀ limit, Quiet (repeatWhile more item limit)
  | 0 => fun _ _ _ h => by cases h
  | limit + 1 => by
    refine hmore.bind fun _ => .ite (hitem.bind fun _ => ?_) (.pure _)
    exact (repeatWhile_quiet hmore hitem limit).bind fun _ => .pure _

theorem commaList_tells {more : Parse Bool} {item : Parse α} {m : α → List Piece}
    (hmore : Keeps more) (hitem : Tells acc text Anywhere item m) :
    ∀ limit, Tells acc text Anywhere (commaList more item limit) fun as => listed (as.map m)
  | 0, _ => .stuck
  | limit + 1, before => by
    refine hmore.bind fun _ => .ite ?_ (.pure (by simp [listed]))
    refine (hitem before).bind fun a => acceptMark_ite ?_ ?_
    · refine (commaList_tells hmore hitem limit _).bind fun rest => ?_
      cases rest with
      | nil =>
        refine .finish fun ts hts => ?_
        show acc.Matches text (before ++ (m a ++ [.optional .comma])) ts
        rw [← List.append_assoc]
        exact Account.Matches.optional (by simpa [listed] using hts)
      | cons b rest => exact .pure (by simp [listed])
    · refine .finish fun ts hts => ?_
      show acc.Matches text (before ++ (m a ++ [.optional .comma])) ts
      rw [← List.append_assoc]
      exact hts.absent _

end Parse

end Script
end Countersign
