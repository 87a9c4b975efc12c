/-
# Tokens of a text, byte by byte

Splitting a text into tokens, carried out on the bytes that encode it: strings and numbers are
measured in bytes, words are decoded, and every text of a token is a slice cut out by byte offsets.
On the bytes of a text no slice fails, each search and loop comes to an end within as many steps as
there are bytes, and the tokens are those of the text.

Key definitions: `Bytes.scanValue`, `Bytes.scanToken`, `Bytes.tokenize`, `Bytes.placed`.
Key theorems: `Bytes.scanValue_encode`, `Bytes.scanToken_encode`, `Bytes.tokenize_encode`.
-/
import Countersign.Proofs.Signature.Bytes
import Countersign.Proofs.Signature.Places

namespace Countersign
namespace Signature

open Value Text

namespace Bytes

/-! ### Values -/

/-- Whether the byte is a quote. -/
def isQuoteByte (b : UInt8) : Bool := b == 0x22 || b == 0x27

/-- Whether the byte is a digit. -/
def isDigitByte (b : UInt8) : Bool := 0x30 ≤ b && b ≤ 0x39

/-- A value and the number of bytes it takes, if there is one. -/
abbrev Scanned := Option (Option (Value × ℕ))

/-- The next `n` bytes as a value. -/
def valueOf (kind : ValueKind) (n : ℕ) (bytes : List UInt8) : Scanned :=
  (slice? n bytes).map fun text => some (⟨String.ofList text, kind⟩, n)

/-- A string at the front of the bytes: the first quote behind its own has to be the same. -/
def scanString : List UInt8 → Scanned
  | [] => some none
  | q :: bytes =>
    if isQuoteByte q then
      match search? isQuoteByte bytes with
      | some n => if bytes[n]? == some q then valueOf .string (n + 2) (q :: bytes) else some none
      | none => some none
    else some none

/-- How many digits stand at the front of the bytes. -/
def countDigits (bytes : List UInt8) : ℕ := (bytes.takeWhile isDigitByte).length

/-- How many bytes the sign of a number takes. -/
def signBytes (bytes : List UInt8) : ℕ := if bytes.head? == some 0x2D then 1 else 0

/-- How many bytes a fraction takes. -/
def fractionBytes (bytes : List UInt8) : ℕ :=
  if bytes.head? == some 0x2E then
    let n := countDigits bytes.tail
    if 0 < n then 1 + n else 0
  else 0

/-- How many bytes an exponent takes. -/
def exponentBytes (bytes : List UInt8) : ℕ :=
  if bytes.head? == some 0x65 || bytes.head? == some 0x45 then
    let sign := if bytes.tail.head? == some 0x2B || bytes.tail.head? == some 0x2D then 1 else 0
    let n := countDigits (bytes.tail.drop sign)
    if 0 < n then 1 + sign + n else 0
  else 0

/-- A number at the front of the bytes. -/
def scanNumber (bytes : List UInt8) : Scanned :=
  let sign := signBytes bytes
  let digits := countDigits (bytes.drop sign)
  if digits = 0 then some none
  else
    let whole := sign + digits
    let fraction := whole + fractionBytes (bytes.drop whole)
    valueOf .number (fraction + exponentBytes (bytes.drop fraction)) bytes

/-- The first of the words at the front of the bytes that does not go on behind its end. -/
def scanWord (bytes : List UInt8) : List ValueKind → Scanned
  | [] => some none
  | k :: ks =>
    let word := encode k.word.toList
    if word.isPrefixOf bytes then do
      let rest ← sliceFrom? (bytes.drop word.length)
      if rest.head?.all (!isIdentPart ·) then some (some (⟨k.word, k⟩, word.length))
      else scanWord bytes ks
    else scanWord bytes ks

/-- A string, a number or a word at the front of the bytes. -/
def scanValue (bytes : List UInt8) : Scanned := do
  match ← scanString bytes with
  | some v => some (some v)
  | none =>
    match ← scanNumber bytes with
    | some v => some (some v)
    | none => scanWord bytes wordKinds

/-- What is read from characters, with its length in bytes. -/
def measured (r : Option (Value × List Char)) : Option (Value × ℕ) :=
  r.map fun v => (v.1, String.utf8Len v.1.text.toList)

theorem isQuoteByte_agree : Agree isQuoteByte isQuote :=
  (agree_byte (d := '"') (by decide)).or (agree_byte (d := '\'') (by decide))

theorem isDigitByte_agree : Agree isDigitByte Char.isDigit := by
  refine agree_of_ascii (by decide +kernel) (fun b hb => ?_) fun c hc => ?_
  · refine Bool.eq_false_iff.mpr fun hd => ?_
    simp only [isDigitByte, Bool.and_eq_true, decide_eq_true_eq, UInt8.le_iff_toNat_le] at hd
    have hhigh : (0x39 : UInt8).toNat = 57 := rfl
    omega
  · refine Bool.eq_false_iff.mpr fun hd => ?_
    have hlt := toNat_of_opensValue (c := c) (by simp [opensValue, hd])
    omega

/-- As many bytes as some characters take hold a value with their text. -/
theorem valueOf_encode (kind : ValueKind) (a b : List Char) :
    valueOf kind (String.utf8Len a) (encode (a ++ b)) =
      some (some (⟨String.ofList a, kind⟩, String.utf8Len a)) := by
  rw [valueOf, slice?_encode]
  rfl

/-- What is split off a text takes so many bytes of it. -/
theorem drop_encode_of_append {a b text : List Char} (h : a ++ b = text) :
    (encode text).drop (String.utf8Len a) = encode b := by
  rw [← h, drop_encode]

/-- A quote is one byte. -/
theorem encode_cons_quote {q : Char} (hq : isQuote q = true) (text : List Char) :
    encode (q :: text) = UInt8.ofNat q.toNat :: encode text ∧
      isQuoteByte (UInt8.ofNat q.toNat) = true ∧ q.utf8Size = 1 ∧ q.toNat < 128 := by
  have hascii : q.toNat < 128 := by
    have hlt := toNat_of_opensValue (c := q) (by simp [opensValue, hq])
    omega
  refine ⟨encode_cons_ascii hascii text, ?_, utf8Size_ascii hascii, hascii⟩
  rw [← hq]
  exact isQuoteByte_agree q _ (by rw [utf8EncodeChar_ascii hascii]; exact List.mem_cons_self)

/-- A string that is open runs up to the first quote, and is one if that is its own. -/
theorem scanString_quoted {q : Char} (hq : isQuote q = true) (body rest : List Char) {c : Char}
    (hbody : ∀ d ∈ body, isQuote d = false) (hc : isQuote c = true) :
    scanString (encode (q :: (body ++ c :: rest))) =
      if c == q then
        some (some (⟨String.ofList (q :: (body ++ [q])), .string⟩,
          String.utf8Len (q :: (body ++ [q]))))
      else some none := by
  obtain ⟨hbytes, hquote, hone, hascii⟩ := encode_cons_quote hq (body ++ c :: rest)
  have hat : ((encode (body ++ c :: rest))[String.utf8Len body]? ==
      some (UInt8.ofNat q.toNat)) = (c == q) := by
    rw [← List.head?_drop, drop_encode, head?_encode hascii]
    rfl
  rw [hbytes, scanString, if_pos hquote, isQuoteByte_agree.search?_some hbody hc]
  dsimp only
  rw [hat]
  cases hsame : c == q with
  | false => rfl
  | true =>
    obtain rfl : c = q := beq_iff_eq.mp hsame
    have hvalue := valueOf_encode .string (c :: (body ++ [c])) rest
    have htext : c :: (body ++ [c]) ++ rest = c :: (body ++ c :: rest) := by simp
    have hlen : String.utf8Len (c :: (body ++ [c])) = String.utf8Len body + 2 := by
      simp only [String.utf8Len_cons, String.utf8Len_append, String.utf8Len_nil, hone]
    rw [htext, hlen, hbytes] at hvalue
    rw [if_pos rfl, if_pos rfl, hlen, hvalue]

theorem scanString_encode (text : List Char) :
    scanString (encode text) = some (measured (scanString? text)) := by
  cases text with
  | nil => rfl
  | cons q text =>
    cases hq : isQuote q with
    | false =>
      obtain ⟨b, bs, henc⟩ := List.exists_cons_of_ne_nil (String.utf8EncodeChar_ne_nil (c := q))
      have hb := isQuoteByte_agree q b (by rw [henc]; exact List.mem_cons_self)
      rw [encode_cons, henc, List.cons_append, scanString, hb, hq, if_neg Bool.false_ne_true,
        scanString?, hq, if_neg Bool.false_ne_true]
      rfl
    | true =>
      have hsplit := List.takeWhile_append_dropWhile (p := (!isQuote ·)) (l := text)
      have hbody : ∀ c ∈ text.takeWhile (!isQuote ·), isQuote c = false := fun c hc => by
        simpa using List.mem_takeWhile_imp hc
      rw [scanString?, if_pos hq]
      cases hclose : text.dropWhile (!isQuote ·) with
      | nil =>
        rw [hclose, List.append_nil] at hsplit
        rw [hsplit] at hbody
        obtain ⟨hbytes, hquote, -⟩ := encode_cons_quote hq text
        rw [hbytes, scanString, if_pos hquote, isQuoteByte_agree.search?_none hbody]
        rfl
      | cons c rest =>
        have hc : isQuote c = true := by
          have hhead := List.head_dropWhile_not (!isQuote ·) (l := text) (by simp [hclose])
          simpa [hclose] using hhead
        rw [hclose] at hsplit
        have hbytes := scanString_quoted hq _ rest hbody hc
        rw [hsplit] at hbytes
        rw [hbytes]
        dsimp only
        cases c == q with
        | false => rfl
        | true =>
          rw [if_pos rfl, if_pos rfl, measured, Option.map_some, String.toList_ofList,
            List.cons_append]

/-! The parts of a number take as many bytes as they are written with. -/

theorem countDigits_encode (text : List Char) :
    countDigits (encode text) = String.utf8Len (text.takeWhile Char.isDigit) := by
  rw [countDigits, (isDigitByte_agree.takeWhile text).1, length_encode]

/-- The first byte is compared as the first character. -/
theorem head?_encode_cons {d : Char} (hd : d.toNat < 128) (c : Char) (text : List Char) :
    ((encode (c :: text)).head? == some (UInt8.ofNat d.toNat)) = (c == d) := by
  rw [head?_encode hd]
  rfl

theorem signBytes_encode (text : List Char) :
    signBytes (encode text) = String.utf8Len (splitSign text).1 := by
  cases text with
  | nil => rfl
  | cons c text =>
    have hhead : ((encode (c :: text)).head? == some 0x2D) = (c == '-') :=
      head?_encode_cons (d := '-') (by decide) c text
    rw [signBytes, hhead]
    by_cases hc : c = '-'
    · subst hc
      rfl
    · simp [splitSign, hc]

theorem fractionBytes_encode (text : List Char) :
    fractionBytes (encode text) = String.utf8Len (splitFraction text).1 := by
  cases text with
  | nil => rfl
  | cons c text =>
    have hhead : ((encode (c :: text)).head? == some 0x2E) = (c == '.') :=
      head?_encode_cons (d := '.') (by decide) c text
    rw [fractionBytes, hhead]
    by_cases hc : c = '.'
    · subst hc
      have htail : (encode ('.' :: text)).tail = encode text := rfl
      rw [beq_self_eq_true, if_pos rfl, htail, countDigits_encode, splitFraction]
      split
      · rename_i hds
        rw [hds]
        rfl
      · rename_i hds
        rw [if_pos (Nat.pos_of_ne_zero (mt String.utf8Len_eq_zero.mp hds)), String.utf8Len_cons]
        exact Nat.add_comm _ _
    · simp [splitFraction, hc]

/-- How many bytes the sign of an exponent takes. -/
theorem exponentSign_encode (text : List Char) :
    (if (encode text).head? == some 0x2B || (encode text).head? == some 0x2D then 1 else 0) =
      String.utf8Len (splitExponentSign text).1 := by
  cases text with
  | nil => rfl
  | cons c text =>
    have hplus : ((encode (c :: text)).head? == some 0x2B) = (c == '+') :=
      head?_encode_cons (d := '+') (by decide) c text
    have hminus : ((encode (c :: text)).head? == some 0x2D) = (c == '-') :=
      head?_encode_cons (d := '-') (by decide) c text
    rw [hplus, hminus]
    by_cases hc : c = '+'
    · subst hc
      rfl
    · by_cases hc' : c = '-'
      · subst hc'
        rfl
      · simp [splitExponentSign, hc, hc']

theorem exponentBytes_encode (text : List Char) :
    exponentBytes (encode text) = String.utf8Len (splitExponent text).1 := by
  cases text with
  | nil => rfl
  | cons c text =>
    have hlower : ((encode (c :: text)).head? == some 0x65) = (c == 'e') :=
      head?_encode_cons (d := 'e') (by decide) c text
    have hupper : ((encode (c :: text)).head? == some 0x45) = (c == 'E') :=
      head?_encode_cons (d := 'E') (by decide) c text
    rw [exponentBytes, hlower, hupper, splitExponent]
    split
    · rename_i hmark
      have hone : (encode (c :: text)).tail = encode text ∧ c.utf8Size = 1 := by
        simp only [Bool.or_eq_true, beq_iff_eq] at hmark
        rcases hmark with rfl | rfl
        · exact ⟨rfl, rfl⟩
        · exact ⟨rfl, rfl⟩
      rw [hone.1, exponentSign_encode]
      dsimp only
      rw [drop_encode_of_append (splitExponentSign_text text), countDigits_encode]
      cases (splitExponentSign text).2.takeWhile Char.isDigit with
      | nil => rfl
      | cons d ds =>
        have hpos : 0 < String.utf8Len (d :: ds) :=
          Nat.pos_of_ne_zero (mt String.utf8Len_eq_zero.mp (List.cons_ne_nil d ds))
        rw [if_pos hpos]
        show _ = String.utf8Len (c :: (splitExponentSign text).1 ++ (d :: ds))
        simp only [List.cons_append, String.utf8Len_cons, String.utf8Len_append, hone.2]
        omega
    · rfl

theorem scanNumber_encode (text : List Char) :
    scanNumber (encode text) = some (measured (scanNumber? text)) := by
  have hsign := splitSign_text text
  have hwhole : (splitSign text).1 ++ (splitSign text).2.takeWhile Char.isDigit ++
      (splitSign text).2.dropWhile Char.isDigit = text := by
    rw [List.append_assoc, List.takeWhile_append_dropWhile, hsign]
  have hfraction := splitFraction_text ((splitSign text).2.dropWhile Char.isDigit)
  have hexponent := splitExponent_text (splitFraction ((splitSign text).2.dropWhile Char.isDigit)).2
  generalize hs : splitSign text = sign at *
  obtain ⟨sign, more⟩ := sign
  rw [scanNumber, signBytes_encode, hs]
  dsimp only at *
  rw [drop_encode_of_append hsign, countDigits_encode]
  simp only [scanNumber?, hs]
  generalize hd : more.takeWhile Char.isDigit = ds at *
  cases ds with
  | nil => rfl
  | cons d ds =>
    have hne : String.utf8Len (d :: ds) ≠ 0 := mt String.utf8Len_eq_zero.mp (List.cons_ne_nil d ds)
    generalize more.dropWhile Char.isDigit = rest at *
    rw [if_neg hne, ← String.utf8Len_append, drop_encode_of_append hwhole, fractionBytes_encode,
      ← String.utf8Len_append]
    generalize hf : splitFraction rest = fraction at *
    obtain ⟨fraction, rest'⟩ := fraction
    have hfour : sign ++ d :: ds ++ fraction ++ rest' = text := by
      rw [← hwhole, List.append_assoc, hfraction]
    rw [drop_encode_of_append hfour, exponentBytes_encode, ← String.utf8Len_append]
    have hvalue := valueOf_encode .number (sign ++ d :: ds ++ fraction ++ (splitExponent rest').1)
      (splitExponent rest').2
    rw [List.append_assoc _ _ (splitExponent rest').2, hexponent, hfour] at hvalue
    rw [hvalue, measured, Option.map_some, String.toList_ofList]

/-- Bytes of ASCII come first if their characters do. -/
theorem isPrefixOf_encode {word : List Char} (hword : ∀ c ∈ word, c.toNat < 128)
    (text : List Char) : (encode word).isPrefixOf (encode text) = word.isPrefixOf text := by
  induction word generalizing text with
  | nil => rw [encode_nil, List.isPrefixOf_nil_left, List.isPrefixOf_nil_left]
  | cons d word ih =>
    obtain ⟨hd, hrest⟩ := List.forall_mem_cons.mp hword
    cases text with
    | nil =>
      rw [encode_cons_ascii hd]
      rfl
    | cons c text =>
      obtain ⟨b, bs, henc⟩ := List.exists_cons_of_ne_nil (String.utf8EncodeChar_ne_nil (c := c))
      have hfirst : (b == UInt8.ofNat d.toNat) = (c == d) :=
        agree_byte hd c b (by rw [henc]; exact List.mem_cons_self)
      rw [encode_cons_ascii hd, encode_cons, henc, List.cons_append, List.isPrefixOf_cons_cons,
        List.isPrefixOf_cons_cons, Bool.beq_comm (a := d), ← hfirst, Bool.beq_comm (b := b)]
      cases hsame : (b == UInt8.ofNat d.toNat) with
      | false => rw [Bool.false_and, Bool.false_and]
      | true =>
        obtain rfl : c = d := beq_iff_eq.mp (hfirst.symm.trans hsame)
        rw [utf8EncodeChar_ascii hd] at henc
        rw [← (List.cons.inj henc).2, List.nil_append, ih hrest]

theorem scanWord_encode (text : List Char) (ks : List ValueKind) :
    scanWord (encode text) ks = some (measured (ks.findSome? (scanWord? text))) := by
  induction ks with
  | nil => rfl
  | cons k ks ih =>
    have hascii : k.word.toList.all (·.toNat < 128) = true := by
      cases k <;> decide
    have hword : ∀ c ∈ k.word.toList, c.toNat < 128 := fun c hc =>
      of_decide_eq_true (List.all_eq_true.mp hascii c hc)
    rw [scanWord, isPrefixOf_encode hword, List.findSome?_cons, length_encode]
    by_cases hstarts : k.word.toList <+: text
    · obtain ⟨rest, rfl⟩ := hstarts
      rw [if_pos (List.isPrefixOf_iff_prefix.mpr (List.prefix_append _ _)), drop_encode,
        sliceFrom?_encode]
      show (if rest.head?.all (!isIdentPart ·) then _ else _) = _
      by_cases hends : ∀ c ∈ rest.head?, isIdentPart c = false
      · have hall : rest.head?.all (!isIdentPart ·) = true := by
          simpa [Option.all_eq_true] using hends
        rw [if_pos hall, scanWord_eq_some.mpr ⟨rfl, rfl, hends⟩]
        rfl
      · have hall : ¬ rest.head?.all (!isIdentPart ·) = true := by
          simpa [Option.all_eq_true] using hends
        have hnone : scanWord? (k.word.toList ++ rest) k = none := by
          refine Option.eq_none_iff_forall_ne_some.mpr fun r hr => ?_
          obtain ⟨-, htext, hends'⟩ := scanWord_eq_some.mp hr
          exact hends (List.append_cancel_left htext ▸ hends')
        rw [if_neg hall, ih, hnone]
    · have hnone : scanWord? text k = none := by
        refine Option.eq_none_iff_forall_ne_some.mpr fun r hr => ?_
        exact hstarts ⟨r.2, (scanWord_eq_some.mp hr).2.1⟩
      rw [if_neg (mt List.isPrefixOf_iff_prefix.mp hstarts), ih, hnone]

theorem scanValue_encode (text : List Char) :
    scanValue (encode text) = some (measured (scan? text)) := by
  rw [scanValue, scanString_encode, scan?]
  cases hstring : scanString? text with
  | some v => rfl
  | none =>
    show (scanNumber (encode text) >>= _) = _
    rw [scanNumber_encode]
    cases hnumber : scanNumber? text with
    | some v => rfl
    | none => exact scanWord_encode text wordKinds

/-! ### Tokens -/

/-- The mark of a single character. -/
def punct? : Char → Option Punct
  | '|' => some .pipe
  | '&' => some .ampersand
  | '<' => some .less
  | '>' => some .greater
  | ',' => some .comma
  | ';' => some .semicolon
  | ':' => some .colon
  | '(' => some .openParen
  | ')' => some .closeParen
  | '\x7b' => some .openBrace
  | '\x7d' => some .closeBrace
  | '[' => some .openBracket
  | ']' => some .closeBracket
  | _ => none

/-- The run of identifier characters at the front of the bytes, as a value if all of it is read as
one and as a name otherwise, and the number of bytes it takes. -/
def scanName (bytes : List UInt8) : Option (Token × ℕ) := do
  let n := (((← sliceFrom? bytes).takeWhile isIdentPart).map Char.utf8Size).sum
  let word ← slice? n bytes
  match ← scanValue (bytes.take n) with
  | some (v, k) => some (if k == n then .value v else .name (String.ofList word), n)
  | none => some (.name (String.ofList word), n)

/-- The token at the front of bytes that start with `c` at offset `pos`, and the number of bytes it
takes. -/
def scanToken (pos : ℕ) (c : Char) (bytes : List UInt8) : Option (Except LexFault (Token × ℕ)) :=
  match punct? c with
  | some p => some (.ok (.punct p, 1))
  | none =>
    if c == '=' && bytes[1]? == some 0x3E then some (.ok (.punct .arrow, 2))
    else if opensValue c then do
      match ← scanValue bytes with
      | some (v, n) => some (.ok (.value v, n))
      | none => some (.error ⟨pos, if c == '-' then .number else .closingQuote, .endOfInput⟩)
    else if isIdentStart c then (scanName bytes).map .ok
    else some (.error ⟨pos, .type, .text (String.singleton c)⟩)

/-- A token and the range of bytes it takes. Without a token it is the end of the text. -/
structure Placed where
  token : Option Token
  start : ℕ
  stop : ℕ

/-- The tokens from offset `pos` on with the bytes they take, and the end of the text, in at most
`limit` steps. -/
def tokensFrom : ℕ → ℕ → List UInt8 → Option (Except LexFault (List Placed))
  | 0, _, _ => none
  | limit + 1, pos, bytes => do
    match ← skip (bytes.length + 1) pos bytes with
    | .error f => some (.error f)
    | .ok (pos, bytes) =>
      match (← sliceFrom? bytes).head? with
      | none => some (.ok [⟨none, pos, pos⟩])
      | some c =>
        match ← scanToken pos c bytes with
        | .error f => some (.error f)
        | .ok (t, n) =>
          let more ← tokensFrom limit (pos + n) (bytes.drop n)
          some (more.map (⟨some t, pos, pos + n⟩ :: ·))

/-- Splits the bytes of a text into tokens. No text has more tokens than bytes. -/
def tokenize (bytes : List UInt8) : Option (Except LexFault (List Placed)) :=
  tokensFrom (bytes.length + 1) 0 bytes

theorem scanPunct?_of_punct? {c : Char} {p : Punct} (h : punct? c = some p) (text : List Char) :
    scanPunct? (c :: text) = some (p, text) := by
  unfold punct? at h
  split at h <;> cases h <;> rfl

/-- The arrow is the only mark of two characters. -/
theorem scanPunct?_of_none {c : Char} (h : punct? c = none) (text : List Char) :
    scanPunct? (c :: text) =
      if c == '=' && text.head? == some '>' then some (.arrow, text.tail) else none := by
  by_cases harrow : (c == '=' && text.head? == some '>') = true
  · rw [if_pos harrow]
    simp only [Bool.and_eq_true, beq_iff_eq] at harrow
    obtain ⟨rfl, hhead⟩ := harrow
    obtain ⟨rest, rfl⟩ := List.head?_eq_some_iff.mp hhead
    rfl
  · rw [if_neg harrow]
    cases hscan : scanPunct? (c :: text) with
    | none => rfl
    | some r =>
      obtain ⟨p, rest⟩ := r
      have htext := scanPunct?_text hscan
      cases p with
      | arrow =>
        obtain ⟨rfl, htail⟩ := List.cons.inj (show c :: text = '=' :: '>' :: rest from htext)
        exact absurd (by rw [htail]; rfl) harrow
      | _ =>
        obtain ⟨rfl, -⟩ := List.cons.inj htext
        cases h

/-- A run of identifier characters holds a word only if it is one. -/
theorem findSome?_scanWord {word : List Char} (hword : ∀ c ∈ word, isIdentPart c = true)
    (ks : List ValueKind) : ks.findSome? (scanWord? word) =
      (ks.find? (·.word == String.ofList word)).map fun k => (⟨k.word, k⟩, []) := by
  induction ks with
  | nil => rfl
  | cons k ks ih =>
    rw [List.findSome?_cons, List.find?_cons]
    cases hsame : k.word == String.ofList word with
    | true =>
      have htext : k.word.toList ++ [] = word := by
        rw [beq_iff_eq.mp hsame, String.toList_ofList, List.append_nil]
      rw [scanWord_eq_some.mpr ⟨rfl, htext, nofun⟩]
      rfl
    | false =>
      have hnone : scanWord? word k = none := by
        refine Option.eq_none_iff_forall_ne_some.mpr fun r hr => ?_
        obtain ⟨-, htext, hends⟩ := scanWord_eq_some.mp hr
        -- What follows the word would be of the run as well.
        have hrest : r.2 = [] := by
          cases hr : r.2 with
          | nil => rfl
          | cons c rest =>
            rw [hr] at htext hends
            have hpart := hword c (by rw [← htext]; simp)
            rw [hends c rfl] at hpart
            cases hpart
        rw [hrest, List.append_nil] at htext
        rw [← htext, String.ofList_toList, beq_self_eq_true] at hsame
        cases hsame
      rw [hnone, ih]

/-- A run of identifier characters is a value if all of it is read as one. -/
theorem wordToken_eq_scan {c : Char} {word : List Char} (hstart : isIdentStart c = true)
    (hword : ∀ d ∈ c :: word, isIdentPart d = true) :
    wordToken (String.ofList (c :: word)) =
      match measured (scan? (c :: word)) with
      | some (v, n) =>
        if n == String.utf8Len (c :: word) then .value v else .name (String.ofList (c :: word))
      | none => .name (String.ofList (c :: word)) := by
  have hopens := opensValue_of_isIdentStart hstart
  simp only [opensValue, Bool.or_eq_false_iff, beq_eq_false_iff_ne] at hopens
  obtain ⟨⟨hquote, hminus⟩, hdigit⟩ := hopens
  have hstring : scanString? (c :: word) = none := by
    rw [scanString?, hquote, if_neg Bool.false_ne_true]
  have hnumber : scanNumber? (c :: word) = none := by
    have hsign : splitSign (c :: word) = ([], c :: word) := by simp [splitSign, hminus]
    have hdigits : (c :: word).takeWhile Char.isDigit = [] := by simp [hdigit]
    rw [scanNumber?, hsign]
    dsimp only
    rw [hdigits]
  rw [scan?, hstring, hnumber, wordToken]
  show _ = match measured (wordKinds.findSome? (scanWord? (c :: word))) with
    | some (v, n) =>
      if n == String.utf8Len (c :: word) then Token.value v else .name (String.ofList (c :: word))
    | none => .name (String.ofList (c :: word))
  rw [findSome?_scanWord hword]
  cases hfind : wordKinds.find? (·.word == String.ofList (c :: word)) with
  | none => rfl
  | some k =>
    have hk : k.word = String.ofList (c :: word) := by
      simpa using List.find?_some hfind
    show Token.value ⟨String.ofList (c :: word), k⟩ =
      if String.utf8Len k.word.toList == String.utf8Len (c :: word) then .value ⟨k.word, k⟩ else _
    rw [hk, String.toList_ofList, if_pos (beq_self_eq_true _)]

theorem sum_utf8Size (text : List Char) :
    (text.map Char.utf8Size).sum = String.utf8Len text := by
  induction text with
  | nil => rfl
  | cons c text ih =>
    rw [List.map_cons, List.sum_cons, ih, String.utf8Len_cons, Nat.add_comm]

/-- The token and the number of bytes it takes. -/
def tokenBytes (r : Token × List Char) : Token × ℕ := (r.1, String.utf8Len r.1.text.toList)

theorem scanName_encode {c : Char} (hstart : isIdentStart c = true) (text : List Char) :
    scanName (encode (c :: text)) =
      some (tokenBytes (wordToken (String.ofList ((c :: text).takeWhile isIdentPart)),
        (c :: text).dropWhile isIdentPart)) := by
  have hsplit := List.takeWhile_append_dropWhile (p := isIdentPart) (l := c :: text)
  have hword : ∀ d ∈ (c :: text).takeWhile isIdentPart, isIdentPart d = true :=
    fun d hd => List.mem_takeWhile_imp hd
  have hslice := slice?_encode ((c :: text).takeWhile isIdentPart) ((c :: text).dropWhile isIdentPart)
  have htake := take_encode ((c :: text).takeWhile isIdentPart) ((c :: text).dropWhile isIdentPart)
  rw [hsplit] at hslice htake
  have hcons := List.takeWhile_cons_of_pos (l := text) (isIdentPart_of_isIdentStart hstart)
  rw [scanName, sliceFrom?_encode]
  show (slice? (((c :: text).takeWhile isIdentPart).map Char.utf8Size).sum _ >>= _) = _
  rw [sum_utf8Size, hslice]
  show (scanValue (List.take (String.utf8Len ((c :: text).takeWhile isIdentPart)) _) >>= _) = _
  rw [htake, scanValue_encode, tokenBytes, (wordToken_plain hword).2]
  rw [hcons] at hword ⊢
  rw [wordToken_eq_scan hstart hword]
  cases measured (scan? (c :: text.takeWhile isIdentPart)) with
  | none => rfl
  | some v => rfl

/-- **A token is read off the bytes as off the characters they encode.** -/
theorem scanToken_encode (pos : ℕ) (c : Char) (text : List Char) :
    scanToken pos c (encode (c :: text)) =
      some ((Signature.scanToken pos c text).map tokenBytes) := by
  rw [scanToken, Signature.scanToken]
  cases hpunct : punct? c with
  | some p =>
    rw [scanPunct?_of_punct? hpunct]
    have hone : String.utf8Len p.text.toList = 1 := by
      unfold punct? at hpunct
      split at hpunct <;> cases hpunct <;> rfl
    show _ = some (Except.ok (Token.punct p, String.utf8Len p.text.toList))
    rw [hone]
  | none =>
    have harrow : (c == '=' && (encode (c :: text))[1]? == some 0x3E) =
        (c == '=' && text.head? == some '>') := by
      by_cases hc : c = '='
      · subst hc
        show (_ && (encode text)[0]? == some 0x3E) = _
        rw [← List.head?_eq_getElem?]
        exact congrArg _ (head?_encode (d := '>') (by decide) text)
      · rw [beq_eq_false_iff_ne.mpr hc, Bool.false_and, Bool.false_and]
    rw [scanPunct?_of_none hpunct, harrow]
    cases c == '=' && text.head? == some '>' with
    | true =>
      have htwo : String.utf8Len Punct.arrow.text.toList = 2 := rfl
      show _ = some (Except.ok (Token.punct .arrow, String.utf8Len Punct.arrow.text.toList))
      rw [htwo]
      rfl
    | false =>
      rw [if_neg Bool.false_ne_true, if_neg Bool.false_ne_true]
      dsimp only
      cases opensValue c with
      | true =>
        rw [if_pos rfl, if_pos rfl, scanValue_encode]
        cases scan? (c :: text) with
        | none => rfl
        | some v => rfl
      | false =>
        rw [if_neg Bool.false_ne_true, if_neg Bool.false_ne_true]
        cases hstart : isIdentStart c with
        | true =>
          rw [if_pos rfl, if_pos rfl, scanName_encode hstart]
          rfl
        | false => rfl

/-- The tokens of a text that starts at offset `pos` with the bytes they take, and its end. -/
def placed (pos : ℕ) (text : List Char) (ls : List Lexeme) : List Placed :=
  ls.map (fun l => ⟨some l.token, l.start, l.stop⟩) ++
    [⟨none, pos + String.utf8Len text, pos + String.utf8Len text⟩]

/-- The bound on the number of tokens does not matter, whether splitting succeeds or not. -/
theorem lexemesFrom_limit {limit limit' pos : ℕ} {text : List Char} (h : text.length < limit)
    (h' : text.length < limit') : lexemesFrom limit pos text = lexemesFrom limit' pos text := by
  induction limit generalizing limit' pos text with
  | zero => exact absurd h (Nat.not_lt_zero _)
  | succ limit ih =>
    obtain ⟨limit', rfl⟩ := Nat.exists_eq_succ_of_ne_zero (Nat.ne_zero_of_lt h')
    rw [lexemesFrom, lexemesFrom]
    cases hskip : skipTrivia .blank pos text with
    | error f => rfl
    | ok r =>
      obtain ⟨start, rest⟩ := r
      cases rest with
      | nil => rfl
      | cons c behind =>
        cases hscan : Signature.scanToken start c behind with
        | error f => simp only [bind, Except.bind, hscan]
        | ok r =>
          have hshorter := length_lt_of_token hskip hscan
          have hsame : lexemesFrom limit (Lexeme.stop ⟨r.1, start⟩) r.2 =
              lexemesFrom limit' (Lexeme.stop ⟨r.1, start⟩) r.2 := ih (by omega) (by omega)
          simp only [bind, Except.bind, hscan, hsame]

theorem tokensFrom_encode {text : List Char} {limit pos : ℕ} (hlimit : text.length < limit) :
    tokensFrom limit pos (encode text) =
      some ((lexemesFrom limit pos text).map (placed pos text)) := by
  induction limit generalizing pos text with
  | zero => exact absurd hlimit (Nat.not_lt_zero _)
  | succ limit ih =>
    have hskip := skip_encode text ((encode text).length + 1) pos
      (by rw [length_encode]; exact Nat.lt_succ_of_le (length_le_utf8Len text))
    rw [tokensFrom, hskip, lexemesFrom]
    cases hrest : skipTrivia .blank pos text with
    | error f => rfl
    | ok r =>
      obtain ⟨start, rest⟩ := r
      obtain ⟨skipped, htext, hstart, -⟩ := skipTrivia_passes hrest
      show (sliceFrom? (encode rest) >>= _) = _
      rw [sliceFrom?_encode]
      cases rest with
      | nil =>
        rw [List.append_nil] at htext
        rw [htext]
        subst hstart
        rfl
      | cons c behind =>
        show (scanToken start c (encode (c :: behind)) >>= _) = _
        rw [scanToken_encode]
        cases hscan : Signature.scanToken start c behind with
        | error f => simp only [bind, Except.bind, Option.bind, Except.map, hscan]
        | ok r =>
          obtain ⟨t, behind'⟩ := r
          have htoken := (scanToken_cases hscan).1
          have hstop : Lexeme.stop ⟨t, start⟩ = start + String.utf8Len t.text.toList := by
            rw [Lexeme.stop, utf8ByteSize_eq]
          have hshorter := length_lt_of_token hrest hscan
          have hmore := @ih behind' (Lexeme.stop ⟨t, start⟩) (by omega)
          have hend : Lexeme.stop ⟨t, start⟩ + String.utf8Len behind' = pos + String.utf8Len text := by
            rw [htext, htoken, hstop, hstart]
            simp only [String.utf8Len_append]
            omega
          have hdrop : (encode (c :: behind)).drop (String.utf8Len t.text.toList) =
              encode behind' := drop_encode_of_append htoken.symm
          rw [hstop] at hmore hend
          simp only [bind, Except.bind, Option.bind, Except.map, hscan, tokenBytes, hdrop, hmore, hstop]
          cases lexemesFrom limit (start + String.utf8Len t.text.toList) behind' with
          | error f => rfl
          | ok ls =>
            simp only [placed, hend, List.map_cons, List.cons_append, hstop, pure, Except.pure]

/-- **The bytes of a text are split into the tokens of the text**, each with the bytes it takes, and
behind them the end of the text: no slice begins or ends inside of a character, and no search or
loop goes on longer than there are bytes. -/
theorem tokenize_encode (text : List Char) :
    tokenize (encode text) = some ((Signature.tokenize text).map (placed 0 text)) := by
  have hlength : text.length < (encode text).length + 1 := by
    rw [length_encode]
    exact Nat.lt_succ_of_le (length_le_utf8Len text)
  rw [tokenize, tokensFrom_encode hlength, lexemesFrom_limit hlength (Nat.lt_succ_self _)]
  rfl

end Bytes

end Signature
end Countersign
