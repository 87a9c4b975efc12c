/-
# Reading from one offset to another

No token reaches beyond the end of the text, so neither does anything that is made of tokens. A
piece of reading that reports nothing starts at the current token and stops at the end of the last
token it passes. `Brings` says of such a piece what holds of these two offsets before and after,
with a lemma for each way of putting pieces of reading together. There are two ways to use it:
reading that `Opens` at the current token lays its result from there on, and reading that `Fills`
lays its result after what was laid before.

Key definitions: `ParseState.Sound`, `Brings`, `Opens`, `Fills`.
Key theorems: `scanAt_stop_le`, `Brings.bind`, `Opens.fills`, `Parse.spanFrom_brings`,
`Parse.repeatWhile_fills`, `Parse.commaList_fills`.
-/
import Countersign.Proofs.Script.Layout
import Countersign.Proofs.Script.Writes

namespace Countersign
namespace Script

/-! ### Tokens end within the text -/

theorem skipTrivia_pos_le (t : Trivia) (pos : Nat) (text : List Char) :
    (skipTrivia t pos text).pos ≤ pos + text.length := by
  fun_induction skipTrivia t pos text <;> first
    | exact Nat.le_add_right _ _
    | (simp only [Skipped.after, Skipped.afterComment, List.length_cons] at *; omega)

theorem scanString_length_le (quote : Char) (skip : Nat) (text : List Char) :
    (scanString quote skip text).length ≤ text.length := by
  fun_induction scanString quote skip text <;>
    simp only [StringRest.after, List.length_cons] at * <;> omega

theorem length_takeWhile_le (p : Char → Bool) (text : List Char) :
    (text.takeWhile p).length ≤ text.length := (List.takeWhile_sublist p).length_le

theorem lexNumber_length_le (text : List Char) : (lexNumber text).length ≤ text.length := by
  unfold lexNumber
  split
  · rename_i digits
    split
    · have hdigits := length_takeWhile_le isHexDigit digits
      simp only [List.length_cons]
      omega
    · exact Nat.sub_le _ _
  · exact Nat.sub_le _ _

theorem lexMark_length_le (c : Char) (text : List Char) :
    (lexMark (c :: text)).length ≤ (c :: text).length := by
  unfold lexMark
  split
  · rename_i m hm
    have hfound : m.text.toList.isPrefixOf (c :: text) = true := by simpa using List.find?_some hm
    have hstarts : m.text.toList <+: c :: text := List.isPrefixOf_iff_prefix.mp hfound
    show m.text.length ≤ (c :: text).length
    rw [← String.length_toList]
    exact hstarts.length_le
  · simp

/-- A token takes no more characters than there are. -/
theorem lexToken_length_le (text : List Char) : (lexToken text).length ≤ text.length := by
  cases text with
  | nil => exact le_refl _
  | cons c text =>
    simp only [lexToken]
    split
    · exact Nat.succ_le_succ (scanString_length_le c 0 text)
    · split
      · exact lexNumber_length_le _
      · split
        · exact Nat.succ_le_succ (length_takeWhile_le _ text)
        · exact lexMark_length_le c text

theorem scanAt_stop_le {text : List Char} {pos : Nat} (h : pos ≤ text.length) :
    (scanAt text pos).token.span.stop ≤ text.length := by
  have hpos : (scanAt text pos).token.span.pos ≤ pos + (text.drop pos).length :=
    skipTrivia_pos_le .blank pos (text.drop pos)
  have hlength := lexToken_length_le (text.drop (scanAt text pos).token.span.pos)
  rw [scanAt_stop]
  rw [List.length_drop] at hpos hlength
  omega

theorem regexRest_le (inClass : Bool) (text : List Char) :
    (regexRest inClass text).1 ≤ text.length := by
  fun_induction regexRest inClass text with
  | case5 inClass c rest _ _ => exact Nat.succ_le_succ (length_takeWhile_le _ rest)
  | _ => simp_all

/-- A token that is read again as a regular expression ends within the text. -/
theorem rescanRegex_stop_le {text : List Char} {t : Token} (h : t.span.pos < text.length) :
    (rescanRegex text t).1.span.stop ≤ text.length := by
  have hrest := regexRest_le false (text.drop (t.span.pos + 1))
  rw [List.length_drop] at hrest
  show t.span.pos + 1 + (regexRest false (text.drop (t.span.pos + 1))).1 ≤ text.length
  omega

/-! ### Where reading stands -/

/-- The current token stands in the text, after the last one that was passed. -/
structure ParseState.Sound (text : List Char) (s : ParseState) : Prop where
  text_eq : s.scanner.text = text
  solid : s.scanner.token.Solid
  here_le : s.here ≤ s.scanner.token.span.stop
  stop_le : s.scanner.token.span.stop ≤ text.length
  lastEnd_le : s.lastEnd ≤ s.here

section Sound

variable {text : List Char} {s s' : ParseState}

/-- Going on from a token that ends within the text, its end becomes the end of what was passed. -/
theorem ParseState.sound_scan (htext : s.scanner.text = text)
    (hstop : s.scanner.token.span.stop ≤ text.length) :
    ParseState.Sound text
      { s with lastEnd := s.scanner.token.span.stop, scanner := s.scanner.scan } := by
  obtain ⟨hle, hfine⟩ := Parse.scan_fine s.scanner
  refine ⟨(scan_text _).trans htext, ?_, hfine.1, ?_, hle⟩
  · rw [scan_token]
    exact scanAt_solid _ _
  · rw [scan_token, htext]
    exact scanAt_stop_le hstop

theorem ParseState.Sound.next (h : s.Sound text) :
    ParseState.Sound text
      { s with lastEnd := s.scanner.token.span.stop, scanner := s.scanner.scan } :=
  sound_scan h.text_eq h.stop_le

theorem ParseState.Sound.keep (h : s.Sound text) (htext : s'.scanner.text = s.scanner.text)
    (htoken : s'.scanner.token = s.scanner.token) (hlast : s'.lastEnd = s.lastEnd) :
    s'.Sound text := by
  obtain ⟨htext', hsolid, hhere, hstop, hle⟩ := h
  unfold ParseState.here at *
  refine ⟨htext.trans htext', ?_, ?_, ?_, ?_⟩
  · rwa [htoken]
  · rwa [ParseState.here, htoken]
  · rwa [htoken]
  · rwa [ParseState.here, htoken, hlast]

/-- A slash that is read again stands where it stood. -/
theorem ParseState.Sound.rescan (h : s.Sound text) (hkind : s.scanner.token.kind ≠ .endOfFile) :
    ParseState.Sound text { s with scanner := s.scanner.rescanSlash } := by
  obtain ⟨htext, hsolid, hhere, hstop, hle⟩ := h
  have hlt : s.scanner.token.span.pos < s.scanner.token.span.stop := hsolid hkind
  refine ⟨(rescanSlash_text _).trans htext, ?_, ?_, ?_, ?_⟩
  · rw [rescanSlash_token]
    exact rescanRegex_solid _ _
  · rw [ParseState.here, rescanSlash_token]
    exact (rescanRegex_solid _ _ nofun).le
  · rw [rescanSlash_token, htext]
    exact rescanRegex_stop_le (hlt.trans_le hstop)
  · rw [ParseState.here, rescanSlash_token]
    exact hle

end Sound

/-! ### Reading from one offset to another -/

/-- The current token starts at `start`. -/
def At (start : Nat) (t : Token) (_ : Nat) : Prop := t.span.pos = start

/-- The layouts are laid from `lo` to the end of the last token that was passed. -/
def Filled (lo : Nat) (ls : List Layout) (_ : Token) (last : Nat) : Prop := Laid lo ls last

/-- Where the current token is as `c` says, and it and the end of the last token are as `pre` says,
reading that reports nothing makes them as `post` says. What was reported before stays. -/
def Brings {α : Type} (text : List Char) (c : Token → Prop) (pre : Token → Nat → Prop) (p : Parse α)
    (post : α → Token → Nat → Prop) : Prop :=
  ∀ s a s', c s.scanner.token → p s = some (a, s') → s'.errors = [] →
    s.errors = [] ∧ (s.Sound text → pre s.scanner.token s.lastEnd →
      s'.Sound text ∧ post a s'.scanner.token s'.lastEnd)

/-- Reading lays its result from the start of the current token on. -/
def Opens {α : Type} (text : List Char) (c : Token → Prop) (p : Parse α) (m : α → List Layout) :
    Prop :=
  ∀ start, Brings text c (At start) p fun a => Filled start (m a)

/-- Reading lays its result after whatever was laid before. -/
def Fills {α : Type} (text : List Char) (c : Token → Prop) (p : Parse α) (m : α → List Layout) :
    Prop :=
  ∀ lo before, Brings text c (Filled lo before) p fun a => Filled lo (before ++ m a)

/-- Reading that only looks, and passes nothing. -/
structure Rests {α : Type} (p : Parse α) : Prop where
  keeps : Keeps p
  lastEnd : ∀ s a s', p s = some (a, s') → s'.lastEnd = s.lastEnd

section Brings

variable {α β : Type} {text : List Char} {c : Token → Prop} {pre : Token → Nat → Prop}
  {lo : Nat} {before : List Layout}

theorem Brings.mono {c' : Token → Prop} {p : Parse α} {post : α → Token → Nat → Prop}
    (hp : Brings text c' pre p post) (h : ∀ t, c t → c' t) : Brings text c pre p post :=
  fun s a s' hc => hp s a s' (h _ hc)

theorem Brings.anywhere {p : Parse α} {post : α → Token → Nat → Prop}
    (hp : Brings text Anywhere pre p post) : Brings text c pre p post := hp.mono fun _ _ => trivial

theorem Brings.weaken {p : Parse α} {post post' : α → Token → Nat → Prop}
    (hp : Brings text c pre p post) (h : ∀ a t last, post a t last → post' a t last) :
    Brings text c pre p post' := by
  intro s a s' hc hread herrors
  obtain ⟨hbefore, hbrings⟩ := hp s a s' hc hread herrors
  exact ⟨hbefore, fun hsound hpre => (hbrings hsound hpre).imp_right (h _ _ _)⟩

theorem Brings.quiet {p : Parse α} {post : α → Token → Nat → Prop}
    (hp : Brings text Anywhere pre p post) : Quiet p :=
  fun s a s' hread herrors => (hp s a s' trivial hread herrors).1

theorem Brings.bind {p : Parse α} {f : α → Parse β} {mid : α → Token → Nat → Prop}
    {post : β → Token → Nat → Prop} (hp : Brings text c pre p mid)
    (hf : ∀ a, Brings text Anywhere (mid a) (f a) post) : Brings text c pre (p >>= f) post := by
  intro s b s'' hc h herrors
  obtain ⟨a, s', hp', hf'⟩ := bind_some h
  obtain ⟨herrors', hbrings'⟩ := hf a s' b s'' trivial hf' herrors
  obtain ⟨hbefore, hbrings⟩ := hp s a s' hc hp' herrors'
  refine ⟨hbefore, fun hsound hpre => ?_⟩
  obtain ⟨hsound', hmid⟩ := hbrings hsound hpre
  exact hbrings' hsound' hmid

theorem Brings.pure {a : α} {post : α → Token → Nat → Prop}
    (h : ∀ t last, pre t last → post a t last) : Brings text c pre (Pure.pure a) post := by
  intro s b s' _ hpure herrors
  cases hpure
  exact ⟨herrors, fun hsound hpre => ⟨hsound, h _ _ hpre⟩⟩

/-- The result is made of what was laid. -/
theorem Brings.done {a : α} {total : α → List Layout} (h : total a = before) :
    Brings text c (Filled lo before) (Pure.pure a) fun a => Filled lo (total a) :=
  .pure fun _ _ hlaid => by rwa [h]

theorem Brings.map {p : Parse α} {f : α → β} {mid : α → Token → Nat → Prop}
    {post : β → Token → Nat → Prop} (hp : Brings text c pre p mid)
    (hf : ∀ a t last, mid a t last → post (f a) t last) : Brings text c pre (f <$> p) post := by
  intro s b s' hc h herrors
  obtain ⟨⟨a, s₁⟩, hp', hmap⟩ := Option.bind_eq_some_iff.mp h
  cases hmap
  exact hp.weaken hf s a _ hc hp' herrors

theorem Brings.ite {p q : Parse α} {post : α → Token → Nat → Prop} {b : Prop} [Decidable b]
    (hp : Brings text c pre p post) (hq : Brings text c pre q post) :
    Brings text c pre (if b then p else q) post := by
  split
  · exact hp
  · exact hq

theorem Brings.stuck {post : α → Token → Nat → Prop} : Brings text c pre Parse.stuck post := by
  intro s a s' _ h
  cases h

/-- Before what is read, something may be looked at. -/
theorem Rests.bind {p : Parse α} {f : α → Parse β} {post : β → Token → Nat → Prop} (hp : Rests p)
    (hf : ∀ a, Brings text c pre (f a) post) : Brings text c pre (p >>= f) post := by
  intro s b s'' hc h herrors
  obtain ⟨a, s', hp', hf'⟩ := bind_some h
  obtain ⟨htext, htoken, herrors'⟩ := hp.keeps s a s' hp'
  have hlast := hp.lastEnd s a s' hp'
  rw [← htoken] at hc
  obtain ⟨hbefore, hbrings⟩ := hf a s' b s'' hc hf' herrors
  refine ⟨herrors'.symm.trans hbefore, fun hsound hpre =>
    hbrings (hsound.keep htext htoken hlast) ?_⟩
  rwa [htoken, hlast]

theorem Rests.look {p : Parse α} (f : ParseState → α) (h : ∀ s, p s = some (f s, s)) : Rests p where
  keeps := .look f h
  lastEnd s a s' hp := by
    rw [h] at hp
    cases hp
    rfl

/-- What is looked at is part of the state. -/
theorem Brings.look {p : Parse α} {f : α → Parse β} {g : ParseState → α}
    {post : β → Token → Nat → Prop} (h : ∀ s, p s = some (g s, s))
    (hf : ∀ a, Brings text c pre (f a) post) : Brings text c pre (p >>= f) post :=
  (Rests.look g h).bind hf

/-- What is laid from the current token on is laid after everything before it. -/
theorem Opens.fills {p : Parse α} {m : α → List Layout} (hp : Opens text c p m) :
    Fills text c p m := by
  intro lo before s a s' hc h herrors
  obtain ⟨hbefore, hbrings⟩ := hp s.here s a s' hc h herrors
  refine ⟨hbefore, fun hsound hlaid => ?_⟩
  obtain ⟨hsound', hlaid'⟩ := hbrings hsound rfl
  exact ⟨hsound', Laid.append hlaid hsound.lastEnd_le hlaid'⟩

theorem Opens.quiet {p : Parse α} {m : α → List Layout} (hp : Opens text Anywhere p m) : Quiet p :=
  (hp 0).quiet

/-- What may be absent is there. -/
theorem Fills.optional {p : Parse α} {m : α → List Layout} (hp : Fills text c p m)
    (m' : Option α → List Layout) (h : ∀ a, m' (some a) = m a) :
    Brings text c (Filled lo before) (some <$> p) fun o => Filled lo (before ++ m' o) :=
  (hp lo before).map fun a _ _ hlaid => by rwa [h]

theorem Brings.absent (m : Option α → List Layout) (h : m none = []) :
    Brings text c (Filled lo before) (Pure.pure none) fun o => Filled lo (before ++ m o) :=
  .done (by rw [h, List.append_nil])

end Brings

/-! ### Basic moves -/

theorem AtKind.ne_end {k : TokenKind} {t : Token} (h : AtKind k t) (hk : k ≠ .endOfFile) :
    t.kind ≠ .endOfFile := by rwa [show t.kind = k from h]

namespace Parse

variable {α β : Type} {text : List Char} {c : Token → Prop} {pre : Token → Nat → Prop}
  {start lo : Nat} {before : List Layout}

theorem peekKind_rests : Rests peekKind where
  keeps := peekKind_keeps
  lastEnd s a s' h := by
    cases h
    rfl

/-- Only whether `in` is an operator, and how deep reading is nested, may be noted down. -/
theorem modify_brings {f : ParseState → ParseState} {g : Unit → Parse β}
    {post : β → Token → Nat → Prop}
    (h : ∀ s, f s = { s with noIn := (f s).noIn, depth := (f s).depth })
    (hg : Brings text c pre (g ()) post) : Brings text c pre (modify f >>= g) post := by
  have hrests : Rests (modify f : Parse Unit) := by
    refine ⟨modify_keeps (fun s => ?_) fun s => ?_, fun s a s' hmodify => ?_⟩
    · rw [h]
    · rw [h]
    · cases hmodify
      rw [h]
  exact hrests.bind fun _ => hg

theorem before_rests (m : Mark) : Rests (Parse.before m) := .look _ fun _ => rfl

/-- What follows starts at the token that was asked for. -/
theorem token_opens {f : Token → Parse α} {m : α → List Layout}
    (hf : ∀ t, c t → Brings text (· = t) (At t.span.pos) (f t) fun a => Filled t.span.pos (m a)) :
    Opens text c (token >>= f) m := by
  intro start s a s' hc h herrors
  obtain ⟨t, s₁, htoken, h⟩ := bind_some h
  cases htoken
  obtain ⟨hbefore, hbrings⟩ := hf _ hc s a s' rfl h herrors
  refine ⟨hbefore, fun hsound hstart => ?_⟩
  obtain rfl : s.scanner.token.span.pos = start := hstart
  exact hbrings hsound rfl

/-- What follows starts at the offset that was asked for. -/
theorem pos_bind {f : Nat → Parse α} {m : α → List Layout}
    (hf : ∀ start, Brings text c (At start) (f start) fun a => Filled start (m a)) :
    Opens text c (pos >>= f) m := by
  show Opens text c (token >>= fun t => f t.span.pos) m
  refine token_opens fun t ht => (hf t.span.pos).mono ?_
  rintro _ rfl
  exact ht

theorem token_brings {f : Token → Parse β} {post : β → Token → Nat → Prop}
    (hf : ∀ t, c t → Brings text (· = t) pre (f t) post) :
    Brings text c pre (token >>= f) post := by
  intro s b s' hc h herrors
  obtain ⟨t, s₁, htoken, h⟩ := bind_some h
  cases htoken
  exact hf _ hc s b s' rfl h herrors

theorem kind_brings {f : TokenKind → Parse β} {post : β → Token → Nat → Prop}
    (hf : ∀ k, Brings text (AtKind k) pre (f k) post) : Brings text c pre (kind >>= f) post := by
  show Brings text c pre (token >>= fun t => f t.kind) post
  refine token_brings fun t _ => (hf t.kind).mono ?_
  rintro _ rfl
  rfl

/-- Where a token of kind `k` is seen, it is there, and else it is not. -/
theorem at?_brings {k : TokenKind} {p q : Parse β} {post : β → Token → Nat → Prop}
    (hp : Brings text (AtKind k) pre p post) (hq : Brings text (¬ AtKind k ·) pre q post) :
    Brings text c pre (at? k >>= fun found => if found = true then p else q) post := by
  show Brings text c pre (kind >>= fun k' => if (k' == k) = true then p else q) post
  refine kind_brings fun k' => ?_
  split
  · rename_i hk
    rw [beq_iff_eq.mp hk]
    exact hp
  · rename_i hk
    refine hq.mono fun t ht hkind => hk (beq_iff_eq.mpr ?_)
    exact ht.symm.trans hkind

theorem report_brings {post : Unit → Token → Nat → Prop} (flt : Fault) :
    Brings text c pre (report flt) post :=
  fun _ _ _ _ h herrors => absurd herrors (report_errors h)

/-- What is reported stays, so nothing is to be shown of what follows. -/
theorem report_brings_bind {f : Unit → Parse β} {post : β → Token → Nat → Prop} (flt : Fault)
    (hf : Quiet (f ())) : Brings text c pre (report flt >>= f) post := by
  intro s b s'' _ h herrors
  obtain ⟨⟨⟩, s', hreport, hf'⟩ := bind_some h
  exact absurd (hf s' b s'' hf' herrors) (report_errors hreport)

/-- A token that is passed is laid over its span. -/
theorem next_leaf {t : Token} (ht : t.kind ≠ .endOfFile) :
    Brings text (· = t) (At start) next fun _ => Filled start [.leaf t.span] := by
  rintro s a s' rfl h herrors
  rw [next_state] at h
  cases h
  refine ⟨herrors, fun hsound hstart => ⟨hsound.next, ?_⟩⟩
  obtain rfl : s.scanner.token.span.pos = start := hstart
  have hlt := hsound.solid ht
  exact .single (Laid.nil hlt).node hlt (le_refl _) (le_refl _)

/-- A token that is passed opens a stretch of text. -/
theorem next_opens (hc : ∀ t, c t → t.kind ≠ .endOfFile) :
    Brings text c (At start) next fun _ => Filled start [] := by
  intro s a s' hs h herrors
  obtain ⟨hbefore, hbrings⟩ := next_leaf (hc _ hs) s a s' rfl h herrors
  refine ⟨hbefore, fun hsound hstart => ?_⟩
  obtain ⟨hsound', hlaid⟩ := hbrings hsound hstart
  exact ⟨hsound', .nil hlaid.lt⟩

theorem nextWord_opens (w : Word) :
    Brings text (AtKind (.word w)) (At start) next fun _ => Filled start [] :=
  next_opens fun _ ht => ht.ne_end nofun

/-- A token that is passed extends the stretch of text to its end. -/
theorem next_ends {t : Token} : Brings text (· = t) (Filled lo before) next
    fun _ _ last => Laid lo before last ∧ last = t.span.stop := by
  rintro s a s' rfl h herrors
  rw [next_state] at h
  cases h
  refine ⟨herrors, fun hsound hlaid => ⟨hsound.next, Laid.widen hlaid ?_, rfl⟩⟩
  exact hsound.lastEnd_le.trans hsound.here_le

theorem next_fills : Brings text c (Filled lo before) next fun _ => Filled lo before :=
  fun s a s' _ h herrors => next_ends.weaken (fun _ _ _ hlaid => hlaid.1) s a s' rfl h herrors

/-- A token of kind `k` is passed before what follows, or not there. -/
theorem accept_ite_brings {k : TokenKind} {p q : Parse β} {post : β → Token → Nat → Prop}
    (hp : Brings text (AtKind k) pre (next >>= fun _ => p) post)
    (hq : Brings text Anywhere pre q post) :
    Brings text c pre (accept k >>= fun found => if found = true then p else q) post := by
  rw [accept_bind]
  exact at?_brings hp hq.anywhere

theorem accept_ite_fills {k : TokenKind} {p q : Parse β} {post : β → Token → Nat → Prop}
    (hp : Brings text Anywhere (Filled lo before) p post)
    (hq : Brings text Anywhere (Filled lo before) q post) :
    Brings text c (Filled lo before)
      (accept k >>= fun found => if found = true then p else q) post :=
  accept_ite_brings (next_fills.bind fun _ => hp) hq

theorem accept_fills (k : TokenKind) :
    Brings text c (Filled lo before) (accept k) fun _ => Filled lo before :=
  at?_brings (next_fills.bind fun _ => .done rfl) (.done rfl)

theorem expect_opens {k : TokenKind} (hk : k ≠ .endOfFile) :
    Brings text c (At start) (expect k) fun _ => Filled start [] := by
  have hnext : Brings text (AtKind k) (At start) next fun _ => Filled start [] :=
    next_opens fun _ ht => ht.ne_end hk
  exact accept_ite_brings (hnext.bind fun _ => .done rfl) (report_brings _)

theorem expectMark_opens (m : Mark) :
    Brings text c (At start) (expectMark m) fun _ => Filled start [] := expect_opens nofun

theorem expectWord_opens (w : Word) :
    Brings text c (At start) (expect (.word w)) fun _ => Filled start [] := expect_opens nofun

theorem expect_fills (k : TokenKind) :
    Brings text c (Filled lo before) (expect k) fun _ => Filled lo before :=
  accept_ite_fills (.done rfl) (report_brings _)

theorem expectMark_fills (m : Mark) :
    Brings text c (Filled lo before) (expectMark m) fun _ => Filled lo before := expect_fills _

theorem expectSemicolon_fills :
    Brings text c (Filled lo before) expectSemicolon fun _ => Filled lo before := by
  refine at?_brings next_fills (.look (fun _ => rfl) fun _ => .look (fun _ => rfl) fun _ => ?_)
  exact .look (fun _ => rfl) fun _ => .ite (.done rfl) (report_brings _)

theorem withNoIn_brings {p : Parse α} {post : α → Token → Nat → Prop} (noIn : Bool)
    (h : Brings text c pre p post) : Brings text c pre (withNoIn noIn p) post := by
  refine .look (fun _ => rfl) fun s => modify_brings (fun _ => rfl) (h.bind fun a => ?_)
  exact modify_brings (fun _ => rfl) (.pure fun _ _ => id)

/-- What was laid is gathered into one node that ends with the last token. -/
theorem spanFrom_gathers {f : Span → Parse α} {post : α → Token → Nat → Prop}
    (hlaid : ∀ last, Laid lo before last → Laid lo [.node ⟨start, last⟩ before] last)
    (hf : ∀ stop, Brings text c (Filled lo [.node ⟨start, stop⟩ before]) (f ⟨start, stop⟩) post) :
    Brings text c (Filled lo before) (spanFrom start >>= f) post := by
  intro s a s' hc h herrors
  obtain ⟨span, s₁, hspan, h⟩ := bind_some h
  cases hspan
  obtain ⟨hbefore, hbrings⟩ := hf _ s a s' hc h herrors
  exact ⟨hbefore, fun hsound hfilled => hbrings hsound (hlaid _ hfilled)⟩

/-- The node starts where everything in it does. -/
theorem spanFrom_brings {f : Span → Parse α} {post : α → Token → Nat → Prop}
    (hf : ∀ stop, Brings text c (Filled lo [.node ⟨lo, stop⟩ before]) (f ⟨lo, stop⟩) post) :
    Brings text c (Filled lo before) (spanFrom lo >>= f) post :=
  spanFrom_gathers (fun _ hlaid => .single hlaid.node hlaid.lt (le_refl _) (le_refl _)) hf

/-- The node starts with an expression. -/
theorem spanFromExpr_brings {e : Expr} {rest : List Layout} {f : Span → Parse α}
    {post : α → Token → Nat → Prop}
    (hf : ∀ stop, Brings text c (Filled lo [.node ⟨e.pos, stop⟩ (e.layout :: rest)])
      (f ⟨e.pos, stop⟩) post) :
    Brings text c (Filled lo (e.layout :: rest)) (spanFrom e.pos >>= f) post :=
  spanFrom_gathers (fun _ hlaid => hlaid.gatherExpr) hf

/-! ### Lists -/

theorem repeatWhile_fills {more : Parse Bool} {item : Parse α} {m : α → List Layout}
    (hmore : Rests more) (hitem : Fills text Anywhere item m) :
    ∀ limit, Fills text Anywhere (repeatWhile more item limit) fun as => as.flatMap m
  | 0, _, _ => .stuck
  | limit + 1, lo, before => by
    refine hmore.bind fun _ => .ite ?_ (.done (by simp))
    refine (hitem lo before).bind fun a => ?_
    exact (repeatWhile_fills hmore hitem limit lo _).bind fun _ => .done (by simp)

/-- Items that are repeated, if there are any, are laid from the first token on. -/
theorem repeatWhile_opens {more : Parse Bool} {item : Parse α} {m : α → List Layout}
    (hmore : Rests more) (hitem : Opens text Anywhere item m) (limit : Nat) :
    Brings text Anywhere (At start) (repeatWhile more item limit)
      fun as _ last => as = [] ∨ Laid start (as.flatMap m) last := by
  cases limit with
  | zero => exact .stuck
  | succ limit =>
    refine hmore.bind fun _ => .ite ?_ (.pure fun _ _ _ => .inl rfl)
    refine (hitem start).bind fun a =>
      (repeatWhile_fills hmore hitem.fills limit start _).bind fun as => ?_
    exact .pure fun _ _ hlaid => .inr hlaid

/-- The layouts are laid up to the last token, or up to the comma that comes next. -/
def Listed (lo : Nat) (ls : List Layout) (t : Token) (last : Nat) : Prop :=
  Laid lo ls last ∨ t.kind = .mark .comma ∧ Laid lo ls t.span.stop

/-- A comma that is passed is behind what is listed. -/
theorem comma_brings {p q : Parse β} {post : β → Token → Nat → Prop}
    (hp : Brings text Anywhere (Filled lo before) p post)
    (hq : Brings text Anywhere (Filled lo before) q post) :
    Brings text Anywhere (Listed lo before)
      (acceptMark .comma >>= fun found => if found = true then p else q) post := by
  rw [acceptMark, accept_bind]
  have hnext : Brings text (AtKind (.mark .comma)) (Listed lo before) next
      fun _ => Filled lo before := by
    intro s a s' _ h herrors
    rw [next_state] at h
    cases h
    refine ⟨herrors, fun hsound hlisted => ⟨hsound.next, ?_⟩⟩
    rcases hlisted with hlaid | ⟨-, hlaid⟩
    · exact hlaid.widen (hsound.lastEnd_le.trans hsound.here_le)
    · exact hlaid
  refine at?_brings (hnext.bind fun _ => hp) ?_
  intro s a s' hcomma h herrors
  obtain ⟨hbefore, hbrings⟩ := hq s a s' trivial h herrors
  refine ⟨hbefore, fun hsound hlisted => hbrings hsound ?_⟩
  exact hlisted.resolve_right fun hmark => hcomma hmark.1

theorem commaList_fills {more : Parse Bool} {item : Parse α} {m : α → List Layout}
    (hmore : Rests more)
    (hitem : ∀ lo before, Brings text Anywhere (Filled lo before) item
      fun a => Listed lo (before ++ m a)) :
    ∀ limit, Fills text Anywhere (commaList more item limit) fun as => as.flatMap m
  | 0, _, _ => .stuck
  | limit + 1, lo, before => by
    refine hmore.bind fun _ => .ite ?_ (.done (by simp))
    refine (hitem lo before).bind fun a => comma_brings ?_ (.done (by simp))
    exact (commaList_fills hmore hitem limit lo _).bind fun _ => .done (by simp)

end Parse

/-- Items that leave nothing for the comma. -/
theorem Opens.listed {α : Type} {text : List Char} {p : Parse α} {m : α → List Layout}
    (hp : Opens text Anywhere p m) (lo : Nat) (before : List Layout) :
    Brings text Anywhere (Filled lo before) p fun a => Parse.Listed lo (before ++ m a) :=
  (hp.fills lo before).weaken fun _ _ _ hlaid => .inl hlaid

end Script
end Countersign
