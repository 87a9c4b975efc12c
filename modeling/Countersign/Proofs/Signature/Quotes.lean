/-
# Quotes in texts

Where the quotes of a text are. A token is a string, with two quotes, or has none, so a text has two
quotes for each of its strings at least. The text of a type has the quotes of its words and values
and no others, and of what is read only the strings have any: the name of a field loses its quotes
when it is read.

Key definitions: `quotes`, `outlineQuotes`, `Atom.unnamed`.
Key theorems: `quoted_le_quotes`, `textQuotes_source`, `Outlined.quoted_le`,
`Outlined.outlineQuotes_eq`.
-/
import Countersign.Proofs.Signature.Outline

namespace Countersign
namespace Signature

open Value Text

/-! ### Quotes in tokens -/

/-- How many quotes stand in a text. -/
def quotes (text : List Char) : Nat := text.countP isQuote

/-- Whether the token is a string. -/
def Token.quoted : Token → Bool
  | .value v => v.kind == .string
  | _ => false

/-- The token is a string as it is written: two quotes around characters that are none. -/
def Token.IsString (t : Token) : Prop :=
  ∃ q body, isQuote q = true ∧ quotes body = 0 ∧
    t = .value ⟨String.ofList (q :: (body ++ [q])), .string⟩

/-- The token is not a string, and no quote stands in it. -/
def Token.IsPlain (t : Token) : Prop := t.quoted = false ∧ quotes t.text.toList = 0

theorem quotes_eq_zero {text : List Char} :
    quotes text = 0 ↔ ∀ c ∈ text, isQuote c = false := by
  simp [quotes, List.countP_eq_zero]

@[simp] theorem quotes_append (text rest : List Char) :
    quotes (text ++ rest) = quotes text + quotes rest := List.countP_append

theorem Token.IsString.quotes_eq {t : Token} (h : t.IsString) :
    t.quoted = true ∧ quotes t.text.toList = 2 := by
  obtain ⟨q, body, hq, hbody, rfl⟩ := h
  refine ⟨rfl, ?_⟩
  unfold quotes at hbody ⊢
  simp [Token.text, hq, hbody]

theorem not_isQuote_of_isIdentPart {c : Char} (h : isIdentPart c = true) : isQuote c = false := by
  refine Bool.eq_false_iff.mpr fun hq => ?_
  have hq' : c = '"' ∨ c = '\'' := by simpa [isQuote] using hq
  rcases hq' with rfl | rfl <;> exact absurd h (by decide)

theorem quotes_of_isIdentPart {text : List Char} (h : ∀ c ∈ text, isIdentPart c = true) :
    quotes text = 0 :=
  quotes_eq_zero.mpr fun c hc => not_isQuote_of_isIdentPart (h c hc)

theorem quotes_of_isDigit {text : List Char} (h : ∀ c ∈ text, c.isDigit = true) :
    quotes text = 0 :=
  quotes_of_isIdentPart fun c hc => isIdentPart_of_isDigit (h c hc)

theorem quotes_of_isFraction {f : List Char} (h : IsFraction f) : quotes f = 0 := by
  rcases h with rfl | ⟨ds, -, hds, rfl⟩
  · rfl
  · have hdot : quotes ['.'] = 0 := rfl
    rw [← List.singleton_append, quotes_append, hdot, quotes_of_isDigit hds]

theorem quotes_of_isExponent {e : List Char} (h : IsExponent e) : quotes e = 0 := by
  rcases h with rfl | ⟨c, sign, ds, hc, hsign, -, hds, rfl⟩
  · rfl
  · have hmark : quotes (c :: sign) = 0 := by
      rcases hc with rfl | rfl <;> rcases hsign with rfl | rfl | rfl <;> rfl
    rw [quotes_append, hmark, quotes_of_isDigit hds]

/-- A number has no quotes. -/
theorem scanNumber_plain {text rest : List Char} {v : Value}
    (h : scanNumber? text = some (v, rest)) : (Token.value v).IsPlain := by
  simp only [scanNumber?] at h
  split at h
  · simp at h
  · simp only [Option.some.injEq, Prod.mk.injEq] at h
    obtain ⟨rfl, -⟩ := h
    have hsign : quotes (splitSign text).1 = 0 := by
      rcases splitSign_cases text with hsign | hsign <;> rw [hsign] <;> rfl
    refine ⟨rfl, ?_⟩
    rw [Token.text, String.toList_ofList, quotes_append, quotes_append, quotes_append, hsign,
      quotes_of_isDigit (mem_takeWhile_isDigit _), quotes_of_isFraction (splitFraction_isFraction _),
      quotes_of_isExponent (splitExponent_isExponent _)]

/-- A string is written as the text it was read from, and starts that text. -/
theorem scanString_isString {text rest : List Char} {v : Value}
    (h : scanString? text = some (v, rest)) :
    (Token.value v).IsString ∧ text = v.text.toList ++ rest := by
  cases text with
  | nil => cases h
  | cons q text =>
    simp only [scanString?] at h
    split at h
    · rename_i hq
      split at h
      · cases h
      · rename_i c more hdrop
        split at h
        · rename_i hc
          simp only [Option.some.injEq, Prod.mk.injEq] at h
          obtain ⟨rfl, rfl⟩ := h
          obtain rfl : c = q := beq_iff_eq.mp hc
          have hbody : quotes (text.takeWhile (!isQuote ·)) = 0 :=
            quotes_eq_zero.mpr fun d hd => by simpa using List.mem_takeWhile_imp hd
          refine ⟨⟨c, _, hq, hbody, rfl⟩, ?_⟩
          have hsplit := List.takeWhile_append_dropWhile (p := (!isQuote ·)) (l := text)
          rw [hdrop] at hsplit
          simp [hsplit]
        · cases h
    · cases h

/-- A word is never a string. -/
theorem wordToken_plain {text : List Char} (h : ∀ c ∈ text, isIdentPart c = true) :
    (wordToken (String.ofList text)).IsPlain ∧
      (wordToken (String.ofList text)).text.toList = text := by
  have htext : quotes (String.ofList text).toList = 0 := by
    rw [String.toList_ofList]
    exact quotes_of_isIdentPart h
  unfold wordToken
  split
  · rename_i k hk
    have hmem : k ∈ wordKinds := List.mem_of_find?_eq_some hk
    have hkind : (k == ValueKind.string) = false := by
      cases k with
      | string => simp [wordKinds] at hmem
      | _ => rfl
    exact ⟨⟨hkind, htext⟩, String.toList_ofList⟩
  · exact ⟨⟨rfl, htext⟩, String.toList_ofList⟩

/-- A token is a string or plain, and starts the text that it was read from. -/
theorem scanToken_cases {pos : Nat} {c : Char} {text rest : List Char} {t : Token}
    (h : scanToken pos c text = .ok (t, rest)) :
    c :: text = t.text.toList ++ rest ∧ (t.IsString ∨ t.IsPlain) := by
  unfold scanToken at h
  split at h
  · rename_i p more hpunct
    cases h
    have hplain : quotes p.text.toList = 0 := by cases p <;> rfl
    exact ⟨scanPunct?_text hpunct, .inr ⟨rfl, hplain⟩⟩
  · split at h
    · rename_i hopens
      split at h
      · rename_i v more hscan
        cases h
        have hkind : isQuote c = true ∨ (c = '-' ∨ c.isDigit = true) := by
          simpa [opensValue, or_assoc] using hopens
        rcases hkind with hquote | hnumber
        · rw [scan?_of_isQuote hquote] at hscan
          obtain ⟨hstring, htext⟩ := scanString_isString hscan
          exact ⟨htext, .inl hstring⟩
        · rw [scan?_of_number hnumber] at hscan
          exact ⟨(scanNumber_text hscan).symm, .inr (scanNumber_plain hscan)⟩
      · cases h
    · split at h
      · cases h
        have hrun : ∀ d ∈ (c :: text).takeWhile isIdentPart, isIdentPart d = true :=
          fun d hd => List.mem_takeWhile_imp hd
        obtain ⟨hplain, htext⟩ := wordToken_plain hrun
        refine ⟨?_, .inr hplain⟩
        rw [htext, List.takeWhile_append_dropWhile]
      · cases h

/-- What is read back as a token is a string or plain. -/
theorem Token.Scans.cases {t : Token} (h : t.Scans) : t.IsString ∨ t.IsPlain := by
  obtain ⟨c, cs, -, -, -, hscan⟩ := h
  have hend : t.EndsBefore [] := by
    cases t with
    | punct p => trivial
    | _ => exact stops_nil
  exact (scanToken_cases (hscan 0 [] hend)).2

/-! ### Quotes in texts -/

/-- What is skipped is dropped off the front. -/
theorem skipTrivia_suffix {state : Trivia} {pos start : Nat} {text rest : List Char}
    (h : skipTrivia state pos text = .ok (start, rest)) : rest <:+ text := by
  fun_induction skipTrivia state pos text with
  | case1 => cases h
  | case2 => cases h; exact List.suffix_refl _
  | case3 pos text ih => exact (ih h).trans ((List.suffix_cons _ _).trans (List.suffix_cons _ _))
  | case4 pos text ih => exact (ih h).trans ((List.suffix_cons _ _).trans (List.suffix_cons _ _))
  | case5 pos c text _ _ _ ih => exact (ih h).trans (List.suffix_cons _ _)
  | case6 pos c text _ _ _ => cases h; exact List.suffix_refl _
  | case7 pos c text ih => exact (ih h).trans (List.suffix_cons _ _)
  | case8 opened pos text ih =>
    exact (ih h).trans ((List.suffix_cons _ _).trans (List.suffix_cons _ _))
  | case9 opened pos c text _ ih => exact (ih h).trans (List.suffix_cons _ _)

/-- Every string takes two quotes of the text. -/
theorem quoted_le_quotes {limit pos : Nat} {text : List Char} {ls : List Lexeme}
    (h : lexemesFrom limit pos text = .ok ls) :
    2 * (ls.map (·.token)).countP Token.quoted ≤ quotes text := by
  induction limit generalizing pos text ls with
  | zero =>
    cases h
    exact Nat.zero_le _
  | succ limit ih =>
    obtain ⟨⟨start, more⟩, hskip, h⟩ := ok_of_bind h
    have hskipped : quotes more ≤ quotes text := (skipTrivia_suffix hskip).sublist.countP_le
    cases more with
    | nil =>
      cases h
      exact Nat.zero_le _
    | cons c more =>
      obtain ⟨⟨t, rest⟩, htoken, h⟩ := ok_of_bind h
      obtain ⟨ls', hls', h⟩ := ok_of_bind h
      cases h
      have hrest := ih hls'
      obtain ⟨htext, hcases⟩ := scanToken_cases htoken
      rw [htext, quotes_append] at hskipped
      rw [List.map_cons, List.countP_cons]
      rcases hcases with hstring | hplain
      · rw [if_pos hstring.quotes_eq.1]
        have htwo := hstring.quotes_eq.2
        omega
      · rw [if_neg (by simp [hplain.1])]
        omega

/-! ### Quotes in the text of a type -/

/-- How many quotes stand in a string. -/
def textQuotes (s : String) : Nat := quotes s.toList

/-- How many quotes an atom is written with. -/
def Atom.quotes : Atom → Nat
  | .word s => textQuotes s
  | .value v => textQuotes v.text
  | .applied _ => 0

/-- How many quotes an outline is written with. -/
def outlineQuotes (as : List Atom) : Nat := (as.map Atom.quotes).sum

@[simp] theorem textQuotes_append (s s' : String) :
    textQuotes (s ++ s') = textQuotes s + textQuotes s' := by
  simp [textQuotes]

@[simp] theorem outlineQuotes_nil : outlineQuotes [] = 0 := rfl

@[simp] theorem outlineQuotes_cons (a : Atom) (as : List Atom) :
    outlineQuotes (a :: as) = a.quotes + outlineQuotes as := by
  simp [outlineQuotes]

@[simp] theorem outlineQuotes_append (as bs : List Atom) :
    outlineQuotes (as ++ bs) = outlineQuotes as + outlineQuotes bs := by
  simp [outlineQuotes]

theorem textQuotes_intercalate {sep : String} (hsep : textQuotes sep = 0) (ss : List String) :
    textQuotes (sep.intercalate ss) = (ss.map textQuotes).sum := by
  induction ss with
  | nil => simp [textQuotes, quotes]
  | cons s ss ih =>
    cases ss with
    | nil => simp
    | cons s' ss =>
      rw [String.intercalate_cons_cons, textQuotes_append, textQuotes_append, hsep, ih]
      simp

theorem textQuotes_commas (ss : List String) :
    textQuotes (", ".intercalate ss) = (ss.map textQuotes).sum :=
  textQuotes_intercalate rfl ss

theorem textQuotes_enclose (least : Nat) (t : Ty) (s : String) :
    textQuotes (t.enclose least s) = textQuotes s := by
  have hmarks : textQuotes "(" = 0 ∧ textQuotes ")" = 0 := ⟨rfl, rfl⟩
  unfold Ty.enclose
  split
  · simp [hmarks]
  · rfl

theorem textQuotes_labelled (name s : String) :
    textQuotes (name ++ ": " ++ s) = textQuotes name + textQuotes s := by
  have hmark : textQuotes ": " = 0 := rfl
  simp [hmark]

theorem textQuotes_sources (least : Nat) : ∀ ts : List Ty,
    (∀ t ∈ ts, textQuotes t.source = outlineQuotes (outline t)) →
      ((Ty.sources least ts).map textQuotes).sum = outlineQuotes (outlineOfAll ts)
  | [], _ => rfl
  | t :: ts, h => by
    have hrest := textQuotes_sources least ts fun u hu => h u (List.mem_cons_of_mem _ hu)
    simp [Ty.sources, outlineOfAll, textQuotes_enclose, h t List.mem_cons_self, hrest]

theorem textQuotes_paramSources : ∀ ps : List (Option String × Ty),
    (∀ p ∈ ps, textQuotes p.2.source = outlineQuotes (outline p.2)) →
      ((Ty.paramSources ps).map textQuotes).sum = outlineQuotes (outlineOfParams ps)
  | [], _ => rfl
  | (name, t) :: ps, h => by
    have hrest := textQuotes_paramSources ps fun p hp => h p (List.mem_cons_of_mem _ hp)
    have ht : textQuotes t.source = outlineQuotes (outline t) := h (name, t) List.mem_cons_self
    cases name with
    | none => simp [Ty.paramSources, outlineOfParams, ht, hrest]
    | some n =>
      rw [Ty.paramSources, List.map_cons, List.sum_cons, hrest, textQuotes_labelled, ht]
      simp [outlineOfParams, Atom.quotes, Nat.add_assoc]

theorem textQuotes_fieldSources : ∀ fs : List (String × Ty),
    (∀ f ∈ fs, textQuotes f.2.source = outlineQuotes (outline f.2)) →
      ((Ty.fieldSources fs).map textQuotes).sum = outlineQuotes (outlineOfFields fs)
  | [], _ => rfl
  | (name, t) :: fs, h => by
    have hrest := textQuotes_fieldSources fs fun f hf => h f (List.mem_cons_of_mem _ hf)
    have ht : textQuotes t.source = outlineQuotes (outline t) := h (name, t) List.mem_cons_self
    rw [Ty.fieldSources, List.map_cons, List.sum_cons, hrest, textQuotes_labelled, ht]
    simp [outlineOfFields, Atom.quotes, Nat.add_assoc]

theorem textQuotes_receiverSources (o : Option Ty)
    (h : ∀ t ∈ o, textQuotes t.source = outlineQuotes (outline t)) :
    ((Ty.receiverSources o).map textQuotes).sum = outlineQuotes (outlineOfReceiver o) := by
  cases o with
  | none => rfl
  | some t =>
    have hthis : textQuotes "this: " = 0 ∧ textQuotes "this" = 0 := ⟨rfl, rfl⟩
    simp [Ty.receiverSources, outlineOfReceiver, Atom.quotes, h t rfl, hthis]

/-- The text of a type has the quotes of its words and values, and no others. -/
theorem textQuotes_source (t : Ty) : textQuotes t.source = outlineQuotes (outline t) := by
  induction t using Ty.children_induction with
  | step t ih =>
    cases t with
    | named c => simp [Ty.source, outline, Atom.quotes]
    | value v => simp [Ty.source, outline, Atom.quotes]
    | renamed n s =>
      have has : textQuotes " as " = 0 ∧ textQuotes "as" = 0 := ⟨rfl, rfl⟩
      simp [Ty.source, outline, Atom.quotes, has]
    | function ps r receiver =>
      simp only [Ty.children, List.mem_append, List.mem_cons, Option.mem_toList] at ih
      have hparams := textQuotes_paramSources ps fun p hp => ih p.2 (.inl (List.mem_map_of_mem hp))
      have hreceiver := textQuotes_receiverSources receiver fun u hu => ih u (.inr (.inr hu))
      have hmarks : textQuotes "(" = 0 ∧ textQuotes ") => " = 0 := ⟨rfl, rfl⟩
      have hlist := textQuotes_commas (Ty.receiverSources receiver ++ Ty.paramSources ps)
      rw [List.map_append, List.sum_append, hreceiver, hparams] at hlist
      simp [Ty.source, outline, hmarks, hlist, ih r (.inr (.inl rfl)), Nat.add_assoc]
    | object fs =>
      have hfields := textQuotes_fieldSources fs fun f hf => ih f.2 (List.mem_map_of_mem hf)
      cases fs with
      | nil => rfl
      | cons f fs =>
        have hmarks : textQuotes "\x7b " = 0 ∧ textQuotes " \x7d" = 0 := ⟨rfl, rfl⟩
        rw [Ty.source, outline, ← hfields]
        simp [hmarks, textQuotes_commas]
    | union ms =>
      rw [Ty.source, outline, textQuotes_intercalate rfl]
      exact textQuotes_sources 2 ms ih
    | intersection ms =>
      rw [Ty.source, outline, textQuotes_intercalate rfl]
      exact textQuotes_sources 3 ms ih
    | generic b as =>
      have hargs := textQuotes_sources 0 as fun u hu => ih u (List.mem_cons_of_mem _ hu)
      have hmarks : textQuotes "<" = 0 ∧ textQuotes ">" = 0 := ⟨rfl, rfl⟩
      simp [Ty.source, outline, hmarks, textQuotes_enclose, ih b List.mem_cons_self,
        textQuotes_commas, hargs, Atom.quotes]
    | tuple is =>
      have hitems := textQuotes_sources 0 is ih
      have hmarks : textQuotes "[" = 0 ∧ textQuotes "]" = 0 := ⟨rfl, rfl⟩
      simp [Ty.source, outline, hmarks, textQuotes_commas, hitems]
    | moduleExports t => exact ih t (List.mem_singleton_self t)

/-! ### Names that need quotes -/

/-- Whether the atom is a string. -/
def Atom.quoted : Atom → Bool
  | .value v => v.kind == .string
  | _ => false

/-- Whether the atom is a word that is not a name. -/
def Atom.unnamed : Atom → Bool
  | .word s => !decide (IsName s)
  | _ => false

/-- A name that is read back is a name of the signature language. -/
theorem Token.Scans.isName {s : String} (h : (Token.name s).Scans) : IsName s := by
  obtain ⟨c, cs, htext, hblank, hslash, hscan⟩ := h
  have hs : s.toList = c :: cs := htext
  have hname : scanToken 0 c cs = .ok (.name s, []) := by
    have hread := hscan 0 [] stops_nil
    rwa [List.append_nil] at hread
  unfold IsName tokenize
  rw [hs, List.length_cons]
  simp only [lexemesFrom, skipTrivia_of_not_isBlank hblank hslash, hname, bind, Except.bind, pure,
    Except.pure]
  rfl

/-- The name of a field has no quotes in it. -/
theorem Token.Scans.quotes_label {t : Token} {s : String} (h : t.Scans) (hs : t.label? = some s) :
    textQuotes s = 0 := by
  rcases h.cases with ⟨q, body, -, hbody, rfl⟩ | ⟨hplain, hquotes⟩
  · have hunquote : unquote (String.ofList (q :: (body ++ [q]))) = String.ofList body := by
      simp [unquote]
    obtain rfl : unquote (String.ofList (q :: (body ++ [q]))) = s := Option.some.inj hs
    rw [hunquote, textQuotes, String.toList_ofList]
    exact hbody
  · cases t with
    | name n =>
      obtain rfl : n = s := Option.some.inj hs
      exact hquotes
    | value v =>
      have hkind : v.kind ≠ .string := by simpa [Token.quoted] using hplain
      rw [Token.label?, if_neg hkind] at hs
      cases hs
    | punct p => cases hs

/-- An atom that is read from a token has two quotes if it is a string, and none otherwise. -/
theorem Fits.quotes_eq {last : Punct} {before t : Token} {a : Atom} (h : Fits last (before, t) a)
    (ht : t.Scans) : a.quotes = if a.quoted then 2 else 0 := by
  cases a with
  | word s => exact ht.quotes_label h
  | value v =>
    obtain rfl : t = .value v := h
    rcases ht.cases with hstring | ⟨hplain, hquotes⟩
    · have hquoted : (Atom.value v).quoted = true := hstring.quotes_eq.1
      rw [if_pos hquoted]
      exact hstring.quotes_eq.2
    · have hquoted : (Atom.value v).quoted = false := hplain
      rw [hquoted]
      exact hquotes
  | applied again => rfl

/-- An atom that is a string, or a word that is not a name, is read from a string. -/
theorem Fits.quoted {last : Punct} {before t : Token} {a : Atom} (h : Fits last (before, t) a)
    (ht : t.Scans) (ha : (a.quoted || a.unnamed) = true) : t.quoted = true := by
  cases a with
  | word s =>
    cases t with
    | name n =>
      obtain rfl : n = s := Option.some.inj h
      simp [Atom.quoted, Atom.unnamed, ht.isName] at ha
    | value v =>
      by_contra hkind
      have hlabel : (Token.value v).label? = none := if_neg (by simpa [Token.quoted] using hkind)
      cases hlabel.symm.trans h
    | punct p => cases h
  | value v =>
    obtain rfl : t = .value v := h
    simpa [Atom.unnamed, Atom.quoted, Token.quoted] using ha
  | applied again => cases ha

theorem countP_le_of_forall₂ {α β : Type} {R : α → β → Prop} {p : α → Bool} {q : β → Bool}
    {xs : List α} {ys : List β} (h : List.Forall₂ R xs ys)
    (hle : ∀ x ∈ xs, ∀ y, R x y → q y = true → p x = true) : ys.countP q ≤ xs.countP p := by
  induction h with
  | nil => exact Nat.le_refl _
  | @cons x y xs ys hxy _ ih =>
    have hrest := ih fun x hx => hle x (List.mem_cons_of_mem _ hx)
    have hfirst := hle x List.mem_cons_self y hxy
    rw [List.countP_cons, List.countP_cons]
    split
    · rename_i hq
      rw [if_pos (hfirst hq)]
      omega
    · omega

section Quoted

variable {last : Punct} {ts : List Token} {as : List Atom}

/-- There are as many strings as strings and words that are no names in the outline, or more. -/
theorem Outlined.quoted_le (h : Outlined last ts as) (hts : ∀ t ∈ ts, t.Scans) :
    as.countP (fun a => a.quoted || a.unnamed) ≤ ts.countP Token.quoted := by
  have hjoints := countP_le_of_forall₂ (p := fun j => j.2.quoted) (h (.punct .comma))
    fun j hj a hfits ha => hfits.quoted (hts _ (mem_of_mem_joints hj)) ha
  have hfilter : ((joints (.punct .comma) ts).map (·.2)).countP Token.quoted ≤
      ts.countP Token.quoted := by
    rw [joints_tokens]
    exact List.filter_sublist.countP_le
  rw [List.countP_map] at hfilter
  exact hjoints.trans hfilter

/-- Only the strings of an outline that was read have quotes. -/
theorem Outlined.outlineQuotes_eq (h : Outlined last ts as) (hts : ∀ t ∈ ts, t.Scans) :
    outlineQuotes as = 2 * as.countP Atom.quoted := by
  have hscans : ∀ j ∈ joints (.punct .comma) ts, j.2.Scans := fun j hj =>
    hts _ (mem_of_mem_joints hj)
  have hfits := h (.punct .comma)
  clear h
  generalize joints (.punct .comma) ts = js at hfits hscans
  induction hfits with
  | nil => rfl
  | @cons j a js as hfirst _ ih =>
    rw [List.forall_mem_cons] at hscans
    rw [outlineQuotes_cons, hfirst.quotes_eq hscans.1, ih hscans.2, List.countP_cons]
    split <;> omega

end Quoted

theorem countP_quoted_or_unnamed (as : List Atom) :
    as.countP (fun a => a.quoted || a.unnamed) =
      as.countP Atom.quoted + as.countP Atom.unnamed := by
  induction as with
  | nil => rfl
  | cons a as ih =>
    have hboth : a.quoted = true → a.unnamed = false := by
      cases a with
      | value v => exact fun _ => rfl
      | _ => exact fun h => by cases h
    rw [List.countP_cons, List.countP_cons, List.countP_cons, ih]
    cases hq : a.quoted with
    | true => simp [hboth hq]; omega
    | false => simp; omega

end Signature
end Countersign
