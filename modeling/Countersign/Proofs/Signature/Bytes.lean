/-
# Bytes of a text

The bytes that encode a text, searched for a byte and cut into slices by byte offsets. A slice that
begins or ends inside of a character is not to be had. A search for a character of ASCII never ends
inside of another one, so what is skipped between tokens may be skipped byte by byte: comments by
searching for their ends, and blanks by decoding a character only where its first byte is none.

Key definitions: `encode`, `slice?`, `search?`, `searchClose?`, `Bytes.skip`.
Key theorems: `slice?_encode`, `Agree.search?_some`, `searchClose?_some`, `Bytes.skip_encode`.
-/
import Countersign.Proofs.Signature.Gaps

namespace Countersign
namespace Signature

open Value Text

/-! ### Bytes of a text -/

/-- The bytes of a text in UTF-8. -/
def encode (text : List Char) : List UInt8 := text.flatMap String.utf8EncodeChar

/-- Whether the bytes do not begin inside of a character: their first one goes on with none. -/
def atBoundary : List UInt8 → Bool
  | [] => true
  | b :: _ => b < 0x80 || 0xC0 ≤ b

/-- The characters from here on; there are none to be had inside of a character. -/
def sliceFrom? (bytes : List UInt8) : Option (List Char) :=
  if atBoundary bytes then bytes.toByteArray.utf8Decode?.map (·.toList) else none

/-- The characters of the next `n` bytes, which must not end inside of a character either. -/
def slice? (n : ℕ) (bytes : List UInt8) : Option (List Char) :=
  if n ≤ bytes.length && atBoundary (bytes.drop n) then sliceFrom? (bytes.take n) else none

/-- How many bytes stand before the first one with `p`. -/
def search? (p : UInt8 → Bool) (bytes : List UInt8) : Option ℕ :=
  let n := (bytes.takeWhile (!p ·)).length
  if n < bytes.length then some n else none

/-- How many bytes stand before the first closing mark of a comment. -/
def searchClose? : List UInt8 → Option ℕ
  | [] => none
  | b :: bytes =>
    if b == 0x2A && bytes.head? == some 0x2F then some 0 else (searchClose? bytes).map (· + 1)

@[simp] theorem encode_nil : encode [] = [] := rfl

@[simp] theorem encode_cons (c : Char) (text : List Char) :
    encode (c :: text) = String.utf8EncodeChar c ++ encode text := rfl

@[simp] theorem encode_append (a b : List Char) : encode (a ++ b) = encode a ++ encode b :=
  List.flatMap_append

@[simp] theorem length_encode (text : List Char) : (encode text).length = String.utf8Len text := by
  induction text with
  | nil => rfl
  | cons c text ih =>
    rw [encode_cons, List.length_append, ih, String.length_utf8EncodeChar, String.utf8Len_cons,
      Nat.add_comm]

theorem length_le_utf8Len (text : List Char) : text.length ≤ String.utf8Len text := by
  induction text with
  | nil => exact Nat.zero_le _
  | cons c text ih =>
    have hpos := c.utf8Size_pos
    rw [List.length_cons, String.utf8Len_cons]
    omega

/-- A character is a byte of ASCII, or bytes beyond ASCII of which the first begins it. -/
theorem utf8EncodeChar_cases (c : Char) :
    (c.toNat < 128 ∧ String.utf8EncodeChar c = [UInt8.ofNat c.toNat]) ∨
      (128 ≤ c.toNat ∧ (∀ b ∈ String.utf8EncodeChar c, 128 ≤ b.toNat) ∧
        ∃ b bs, String.utf8EncodeChar c = b :: bs ∧ 192 ≤ b.toNat) := by
  have hval : c.val.toNat = c.toNat := rfl
  have hmod : ∀ n k m : ℕ, 0 < m → k + m ≤ 256 → k ≤ (UInt8.ofNat (n % m + k)).toNat := by
    intro n k m hm hbyte
    have hlt := Nat.mod_lt n hm
    rw [UInt8.toNat_ofNat', Nat.mod_eq_of_lt (by omega)]
    exact Nat.le_add_left _ _
  have hgoes : ∀ n, 128 ≤ (UInt8.ofNat (n % 64 + 128)).toNat :=
    fun n => hmod n 128 64 (by omega) (by omega)
  have hbegins : ∀ n k m : ℕ, 192 ≤ k → 0 < m → k + m ≤ 256 →
      192 ≤ (UInt8.ofNat (n % m + k)).toNat :=
    fun n k m hk hm hbyte => hk.trans (hmod n k m hm hbyte)
  have hwide : ∀ b : UInt8, 192 ≤ b.toNat → 128 ≤ b.toNat := fun b hb => by omega
  unfold String.utf8EncodeChar
  rw [hval]
  dsimp only
  split
  · exact .inl ⟨by omega, rfl⟩
  · refine .inr ⟨by omega, ?_⟩
    split
    · have hfirst := fun n => hbegins n 192 32 (by omega) (by omega) (by omega)
      refine ⟨?_, _, _, rfl, hfirst _⟩
      simp only [List.forall_mem_cons]
      exact ⟨hwide _ (hfirst _), hgoes _, nofun⟩
    · split
      · have hfirst := fun n => hbegins n 224 16 (by omega) (by omega) (by omega)
        refine ⟨?_, _, _, rfl, hfirst _⟩
        simp only [List.forall_mem_cons]
        exact ⟨hwide _ (hfirst _), hgoes _, hgoes _, nofun⟩
      · have hfirst := fun n => hbegins n 240 8 (by omega) (by omega) (by omega)
        refine ⟨?_, _, _, rfl, hfirst _⟩
        simp only [List.forall_mem_cons]
        exact ⟨hwide _ (hfirst _), hgoes _, hgoes _, hgoes _, nofun⟩

theorem utf8EncodeChar_ascii {c : Char} (h : c.toNat < 128) :
    String.utf8EncodeChar c = [UInt8.ofNat c.toNat] := by
  rcases utf8EncodeChar_cases c with ⟨-, henc⟩ | ⟨hge, -⟩
  · exact henc
  · omega

theorem encode_cons_ascii {c : Char} (h : c.toNat < 128) (text : List Char) :
    encode (c :: text) = UInt8.ofNat c.toNat :: encode text := by
  rw [encode_cons, utf8EncodeChar_ascii h, List.singleton_append]

theorem utf8Size_ascii {c : Char} (h : c.toNat < 128) : c.utf8Size = 1 := by
  rw [← String.length_utf8EncodeChar, utf8EncodeChar_ascii h, List.length_singleton]

theorem atBoundary_encode (text : List Char) : atBoundary (encode text) = true := by
  cases text with
  | nil => rfl
  | cons c text =>
    rw [encode_cons]
    rcases utf8EncodeChar_cases c with ⟨hlt, hbytes⟩ | ⟨-, -, b, bs, hbytes, hge⟩
    · rw [hbytes]
      simp only [List.singleton_append, atBoundary, Bool.or_eq_true, decide_eq_true_eq,
        UInt8.lt_iff_toNat_lt, UInt8.toNat_ofNat']
      exact .inl (by rw [Nat.mod_eq_of_lt (by omega)]; exact hlt)
    · rw [hbytes]
      simp only [List.cons_append, atBoundary, Bool.or_eq_true, decide_eq_true_eq,
        UInt8.le_iff_toNat_le]
      exact .inr hge

/-- The text is there wherever the bytes of a text begin. -/
theorem sliceFrom?_encode (text : List Char) : sliceFrom? (encode text) = some text := by
  have hdecode : (encode text).toByteArray.utf8Decode? = some text.toArray :=
    List.utf8Decode?_utf8Encode
  rw [sliceFrom?, if_pos (atBoundary_encode text), hdecode]
  rfl

theorem drop_encode (a b : List Char) :
    (encode (a ++ b)).drop (String.utf8Len a) = encode b := by
  rw [encode_append, List.drop_left' (length_encode a)]

theorem take_encode (a b : List Char) :
    (encode (a ++ b)).take (String.utf8Len a) = encode a := by
  rw [encode_append, List.take_left' (length_encode a)]

/-- A slice as long as some of the next characters holds just these. -/
theorem slice?_encode (a b : List Char) : slice? (String.utf8Len a) (encode (a ++ b)) = some a := by
  have hfits : String.utf8Len a ≤ (encode (a ++ b)).length := by
    rw [length_encode, String.utf8Len_append]
    exact Nat.le_add_right _ _
  rw [slice?, drop_encode, take_encode, decide_eq_true hfits, atBoundary_encode,
    if_pos (Bool.and_self _), sliceFrom?_encode]

/-! ### Searching -/

/-- The test of bytes says of each byte of a character what the test of characters says of it. -/
def Agree (p : UInt8 → Bool) (P : Char → Bool) : Prop :=
  ∀ c, ∀ b ∈ String.utf8EncodeChar c, p b = P c

/-- Tests agree if they do on ASCII and beyond it neither accepts anything. -/
theorem agree_of_ascii {p : UInt8 → Bool} {P : Char → Bool}
    (hascii : ∀ n < 128, p (UInt8.ofNat n) = P (Char.ofNat n))
    (hbytes : ∀ b : UInt8, 128 ≤ b.toNat → p b = false)
    (hchars : ∀ c : Char, 128 ≤ c.toNat → P c = false) : Agree p P := by
  intro c b hb
  rcases utf8EncodeChar_cases c with ⟨hlt, henc⟩ | ⟨hge, hwide, -⟩
  · rw [henc, List.mem_singleton] at hb
    rw [hb, hascii c.toNat hlt, Char.ofNat_toNat]
  · rw [hbytes b (hwide b hb), hchars c hge]

theorem agree_byte {d : Char} (hd : d.toNat < 128) :
    Agree (· == UInt8.ofNat d.toNat) (· == d) := by
  intro c b hb
  have hbyte : (UInt8.ofNat d.toNat).toNat = d.toNat := by
    rw [UInt8.toNat_ofNat', Nat.mod_eq_of_lt (by omega)]
  rw [Bool.eq_iff_iff, beq_iff_eq, beq_iff_eq, ← UInt8.toNat_inj, hbyte, ← Char.toNat_inj]
  rcases utf8EncodeChar_cases c with ⟨hlt, henc⟩ | ⟨hge, hwide, -⟩
  · rw [henc, List.mem_singleton] at hb
    rw [hb, UInt8.toNat_ofNat', Nat.mod_eq_of_lt (by omega)]
  · have hb' := hwide b hb
    omega

theorem Agree.or {p q : UInt8 → Bool} {P Q : Char → Bool} (h : Agree p P) (h' : Agree q Q) :
    Agree (fun b => p b || q b) (fun c => P c || Q c) :=
  fun c b hb => congrArg₂ (· || ·) (h c b hb) (h' c b hb)

theorem Agree.not {p : UInt8 → Bool} {P : Char → Bool} (h : Agree p P) :
    Agree (!p ·) (!P ·) := fun c b hb => congrArg (!·) (h c b hb)

section Search

variable {p : UInt8 → Bool} {P : Char → Bool}

theorem Agree.takeWhile (h : Agree p P) (text : List Char) :
    (encode text).takeWhile p = encode (text.takeWhile P) ∧
      (encode text).dropWhile p = encode (text.dropWhile P) := by
  induction text with
  | nil => exact ⟨rfl, rfl⟩
  | cons c text ih =>
    rw [encode_cons]
    cases hc : P c with
    | true =>
      have hall : ∀ b ∈ String.utf8EncodeChar c, p b = true := fun b hb => (h c b hb).trans hc
      rw [List.takeWhile_append_of_pos hall, List.dropWhile_append_of_pos hall,
        List.takeWhile_cons_of_pos hc, List.dropWhile_cons_of_pos hc, ih.1, ih.2, encode_cons]
      exact ⟨rfl, rfl⟩
    | false =>
      obtain ⟨b, bs, hbytes⟩ := List.exists_cons_of_ne_nil (String.utf8EncodeChar_ne_nil (c := c))
      have hb : ¬ p b = true := by
        rw [h c b (by rw [hbytes]; exact List.mem_cons_self), hc]
        exact Bool.false_ne_true
      have hc' : ¬ P c = true := by rw [hc]; exact Bool.false_ne_true
      rw [List.takeWhile_cons_of_neg hc', List.dropWhile_cons_of_neg hc', encode_cons, hbytes,
        List.cons_append, List.takeWhile_cons_of_neg hb, List.dropWhile_cons_of_neg hb]
      exact ⟨rfl, rfl⟩

/-- A search comes to the first character it is for. -/
theorem Agree.search?_some (h : Agree p P) {before : List Char}
    (hbefore : ∀ c ∈ before, P c = false) {c : Char} (hc : P c = true) (after : List Char) :
    search? p (encode (before ++ c :: after)) = some (String.utf8Len before) := by
  have hrun : (before ++ c :: after).takeWhile (!P ·) = before :=
    (run_ends (fun d hd => by simp [hbefore d hd]) (by simp [hc])).1
  have hlt : String.utf8Len before < (encode (before ++ c :: after)).length := by
    have hpos := c.utf8Size_pos
    rw [length_encode, String.utf8Len_append, String.utf8Len_cons]
    omega
  rw [search?, (h.not.takeWhile _).1, hrun, length_encode]
  exact if_pos hlt

/-- A search fails if no character is one that it is for. -/
theorem Agree.search?_none (h : Agree p P) {text : List Char} (htext : ∀ c ∈ text, P c = false) :
    search? p (encode text) = none := by
  have hrun : text.takeWhile (!P ·) = text :=
    List.takeWhile_eq_self_iff.mpr fun d hd => by simp [htext d hd]
  rw [search?, (h.not.takeWhile _).1, hrun]
  exact if_neg (Nat.lt_irrefl _)

end Search

/-- A byte of ASCII comes first if its character does. -/
theorem head?_encode {d : Char} (hd : d.toNat < 128) (text : List Char) :
    ((encode text).head? == some (UInt8.ofNat d.toNat)) = (text.head? == some d) := by
  cases text with
  | nil => rfl
  | cons c text =>
    obtain ⟨b, bs, henc⟩ := List.exists_cons_of_ne_nil (String.utf8EncodeChar_ne_nil (c := c))
    rw [encode_cons, henc]
    exact agree_byte hd c b (by rw [henc]; exact List.mem_cons_self)

/-- A character that does not begin the closing mark is passed over. -/
theorem searchClose?_char {c : Char} {text : List Char} (h : ¬ ['*', '/'] <+: c :: text) :
    searchClose? (encode (c :: text)) = (searchClose? (encode text)).map (· + c.utf8Size) := by
  have hpass : ∀ bs bytes : List UInt8, (∀ b ∈ bs, b ≠ 0x2A) →
      searchClose? (bs ++ bytes) = (searchClose? bytes).map (· + bs.length) := by
    intro bs bytes hbs
    induction bs with
    | nil => simp
    | cons b bs ih =>
      obtain ⟨hb, hbs⟩ := List.forall_mem_cons.mp hbs
      rw [List.cons_append, searchClose?, beq_eq_false_iff_ne.mpr hb, Bool.false_and,
        if_neg Bool.false_ne_true, ih hbs, Option.map_map]
      rfl
  rw [← String.length_utf8EncodeChar]
  by_cases hstar : c = '*'
  · subst hstar
    have hslash : ((encode text).head? == some 0x2F) = false := by
      refine (head?_encode (d := '/') (by decide) text).trans (beq_eq_false_iff_ne.mpr ?_)
      intro hhead
      obtain ⟨rest, rfl⟩ := List.head?_eq_some_iff.mp hhead
      exact h ⟨rest, rfl⟩
    show searchClose? (0x2A :: encode text) = _
    rw [searchClose?, hslash, Bool.and_false, if_neg Bool.false_ne_true]
    rfl
  · refine hpass _ _ fun b hb hbyte => hstar ?_
    have hsame := agree_byte (d := '*') (by decide) c b hb
    exact beq_iff_eq.mp (hsame.symm.trans (beq_iff_eq.mpr hbyte))

/-- The search comes to the end of a comment. -/
theorem searchClose?_some {body : List Char} (hbody : ¬ ['*', '/'] <:+: body) (rest : List Char) :
    searchClose? (encode (body ++ '*' :: '/' :: rest)) = some (String.utf8Len body) := by
  induction body with
  | nil => rfl
  | cons c body ih =>
    obtain ⟨hstarts, hbody⟩ := not_or.mp fun h => hbody (List.infix_cons_iff.mpr h)
    rw [List.cons_append, searchClose?_char (not_prefix_close hstarts rest), ih hbody,
      String.utf8Len_cons]
    rfl

/-- The search fails in a comment that is never closed. -/
theorem searchClose?_none {text : List Char} (h : ¬ ['*', '/'] <:+: text) :
    searchClose? (encode text) = none := by
  induction text with
  | nil => rfl
  | cons c text ih =>
    obtain ⟨hstarts, htext⟩ := not_or.mp fun hor => h (List.infix_cons_iff.mpr hor)
    rw [searchClose?_char hstarts, ih htext]
    rfl

/-! ### Skipping -/

namespace Bytes

/-- A blank of ASCII other than the vertical tab. -/
def isBlankByte (b : UInt8) : Bool := b == 0x20 || b == 0x09 || b == 0x0A || b == 0x0C || b == 0x0D

/-- Skips blanks and comments from offset `pos` on, in at most `limit` steps, and gives the offset
and the bytes where the next token starts. -/
def skip : ℕ → ℕ → List UInt8 → Option (Except LexFault (ℕ × List UInt8))
  | 0, _, _ => none
  | _ + 1, pos, [] => some (.ok (pos, []))
  | limit + 1, pos, b :: bytes =>
    if isBlankByte b then skip limit (pos + 1) bytes
    else if b == 0x2F && bytes.head? == some 0x2F then
      match search? (· == 0x0A) (b :: bytes) with
      | some n => skip limit (pos + (n + 1)) ((b :: bytes).drop (n + 1))
      | none => skip limit (pos + (b :: bytes).length) []
    else if b == 0x2F && bytes.head? == some 0x2A then
      match searchClose? ((b :: bytes).drop 2) with
      | some n => skip limit (pos + (2 + n + 2)) ((b :: bytes).drop (2 + n + 2))
      | none => some (.error ⟨pos, .closingComment, .endOfInput⟩)
    else do
      match (← sliceFrom? (b :: bytes)).head? with
      | some c =>
        if isBlank c then skip limit (pos + c.utf8Size) ((b :: bytes).drop c.utf8Size)
        else some (.ok (pos, b :: bytes))
      | none => some (.ok (pos, b :: bytes))

theorem isBlankByte_agree : Agree isBlankByte
    fun c => c == ' ' || c == '\t' || c == '\n' || c == '\x0c' || c == '\r' :=
  ((((agree_byte (d := ' ') (by decide)).or (agree_byte (d := '\t') (by decide))).or
    (agree_byte (d := '\n') (by decide))).or (agree_byte (d := '\x0c') (by decide))).or
    (agree_byte (d := '\r') (by decide))

section Skip

variable {limit : ℕ}

/-- Where neither a comment nor a blank byte comes, a character is decoded. -/
theorem skip_char {c : Char} {text : List Char}
    (hline : ∀ more, c = '/' → text = '/' :: more → False)
    (hblock : ∀ more, c = '/' → text = '*' :: more → False) (pos : ℕ) :
    skip (limit + 1) pos (encode (c :: text)) =
      if isBlank c then skip limit (pos + c.utf8Size) (encode text)
      else some (.ok (pos, encode (c :: text))) := by
  obtain ⟨b, bs, henc⟩ := List.exists_cons_of_ne_nil (String.utf8EncodeChar_ne_nil (c := c))
  have hb : b ∈ String.utf8EncodeChar c := by
    rw [henc]
    exact List.mem_cons_self
  have hbytes : encode (c :: text) = b :: (bs ++ encode text) := by
    rw [encode_cons, henc, List.cons_append]
  have hdrop : (b :: (bs ++ encode text)).drop c.utf8Size = encode text := by
    have hdrop := drop_encode [c] text
    rwa [String.utf8Len_cons, String.utf8Len_nil, Nat.zero_add, List.singleton_append, hbytes]
      at hdrop
  by_cases hblank : isBlankByte b = true
  · -- A blank byte is a blank of one byte.
    have hc := (isBlankByte_agree c b hb).symm.trans hblank
    simp only [Bool.or_eq_true, beq_iff_eq] at hc
    have hone : isBlank c = true ∧ c.utf8Size = 1 := by
      rcases hc with (((rfl | rfl) | rfl) | rfl) | rfl <;> exact ⟨by decide, by decide⟩
    rw [hone.2, List.drop_one, List.tail_cons] at hdrop
    rw [hbytes, skip, if_pos hblank, if_pos hone.1, hone.2, hdrop]
  · have hnext : ∀ d : Char, d.toNat < 128 → (∀ more, c = '/' → text = d :: more → False) →
        (b == 0x2F && (bs ++ encode text).head? == some (UInt8.ofNat d.toNat)) = false := by
      intro d hd hnot
      refine Bool.eq_false_iff.mpr fun hboth => ?_
      obtain ⟨hslash, hhead⟩ := Bool.and_eq_true_iff.mp hboth
      obtain rfl : c = '/' :=
        beq_iff_eq.mp ((agree_byte (d := '/') (by decide) c b hb).symm.trans hslash)
      have hbs : bs = [] := (List.cons.inj henc).2.symm
      rw [hbs, List.nil_append, head?_encode hd] at hhead
      obtain ⟨more, rfl⟩ := List.head?_eq_some_iff.mp (beq_iff_eq.mp hhead)
      exact hnot more rfl rfl
    have hline' : ¬ (b == 0x2F && (bs ++ encode text).head? == some 0x2F) = true :=
      Bool.eq_false_iff.mp (hnext '/' (by decide) hline)
    have hblock' : ¬ (b == 0x2F && (bs ++ encode text).head? == some 0x2A) = true :=
      Bool.eq_false_iff.mp (hnext '*' (by decide) hblock)
    have hslice := sliceFrom?_encode (c :: text)
    rw [hbytes] at hslice
    rw [hbytes, skip, if_neg hblank, if_neg hline', if_neg hblock', hslice]
    show (if isBlank c then skip limit _ _ else _) = _
    rw [hdrop]

/-- A line comment is skipped by a search for the end of its line. -/
theorem skip_line (limit pos : ℕ) (text : List Char) : ∃ pos' rest, rest.length ≤ text.length ∧
    skipTrivia .line (pos + 2) text = skipTrivia .blank pos' rest ∧
    skip (limit + 1) pos (encode ('/' :: '/' :: text)) = skip limit pos' (encode rest) := by
  have hagree : Agree (· == 0x0A) (· == '\n') := agree_byte (d := '\n') (by decide)
  have hstep : skip (limit + 1) pos (encode ('/' :: '/' :: text)) =
      match search? (· == 0x0A) (encode ('/' :: '/' :: text)) with
      | some n => skip limit (pos + (n + 1)) ((encode ('/' :: '/' :: text)).drop (n + 1))
      | none => skip limit (pos + (encode ('/' :: '/' :: text)).length) [] := by
    show skip (limit + 1) pos (0x2F :: 0x2F :: encode text) = _
    rw [skip, if_neg (by decide), if_pos (by rfl)]
    rfl
  by_cases hmem : '\n' ∈ text
  · obtain ⟨body, rest, rfl, hbody⟩ := List.eq_append_cons_of_mem hmem
    have hbefore : ∀ c ∈ '/' :: '/' :: body, (c == '\n') = false := by
      simp only [List.forall_mem_cons]
      exact ⟨by decide, by decide,
        fun c hc => beq_eq_false_iff_ne.mpr (ne_of_mem_of_not_mem hc hbody)⟩
    have hsearch : search? (· == 0x0A) (encode ('/' :: '/' :: (body ++ '\n' :: rest))) =
        some (String.utf8Len body + 2) :=
      hagree.search?_some hbefore (c := '\n') (by decide) rest
    have hdrop : (encode ('/' :: '/' :: (body ++ '\n' :: rest))).drop
        (String.utf8Len body + 2 + 1) = encode rest := by
      have hdrop := drop_encode ('/' :: '/' :: (body ++ ['\n'])) rest
      simpa [Char.utf8Size] using hdrop
    refine ⟨pos + (String.utf8Len body + 2 + 1), rest, by simp; omega, ?_, ?_⟩
    · rw [skipTrivia_line_body hbody (by simp),
        skipTrivia_of_isBlank (show isBlank '\n' = true by decide)]
      congr 1
      have hsize : '\n'.utf8Size = 1 := rfl
      omega
    · rw [hstep, hsearch]
      exact congrArg (skip limit _) hdrop
  · have hnone : ∀ c ∈ '/' :: '/' :: text, (c == '\n') = false := by
      simp only [List.forall_mem_cons]
      exact ⟨by decide, by decide,
        fun c hc => beq_eq_false_iff_ne.mpr (ne_of_mem_of_not_mem hc hmem)⟩
    refine ⟨pos + String.utf8Len ('/' :: '/' :: text), [], Nat.zero_le _, ?_, ?_⟩
    · have hskip := @skipTrivia_line_body [] text hmem nofun (pos + 2)
      rw [List.append_nil] at hskip
      rw [hskip]
      congr 1
      have hsize : '/'.utf8Size = 1 := rfl
      simp only [String.utf8Len_cons]
      omega
    · rw [hstep, hagree.search?_none hnone, length_encode]
      rfl

/-- A block comment is skipped by a search for its closing mark. -/
theorem skip_block (limit pos : ℕ) (text : List Char) :
    (∃ pos' rest, rest.length ≤ text.length ∧
      skipTrivia (.block pos) (pos + 2) text = skipTrivia .blank pos' rest ∧
      skip (limit + 1) pos (encode ('/' :: '*' :: text)) = skip limit pos' (encode rest)) ∨
    ∃ f, skipTrivia (.block pos) (pos + 2) text = .error f ∧
      skip (limit + 1) pos (encode ('/' :: '*' :: text)) = some (.error f) := by
  have hstep : skip (limit + 1) pos (encode ('/' :: '*' :: text)) =
      match searchClose? (encode text) with
      | some n => skip limit (pos + (2 + n + 2)) ((encode text).drop (n + 2))
      | none => some (.error ⟨pos, .closingComment, .endOfInput⟩) := by
    have hdrop : ∀ n, (0x2F :: 0x2A :: encode text).drop (2 + n + 2) = (encode text).drop (n + 2) := by
      intro n
      rw [show 2 + n + 2 = n + 2 + 1 + 1 by omega, List.drop_succ_cons, List.drop_succ_cons]
    show skip (limit + 1) pos (0x2F :: 0x2A :: encode text) = _
    rw [skip, if_neg (by decide), if_neg (by rw [List.head?_cons]; decide), if_pos (by rfl)]
    simp only [hdrop, List.drop_succ_cons, List.drop_zero]
  by_cases hclose : ['*', '/'] <:+: text
  · obtain ⟨body, rest, rfl, hbody⟩ := exists_first_close hclose
    have hdrop : (encode (body ++ '*' :: '/' :: rest)).drop (String.utf8Len body + 2) =
        encode rest := by
      have hdrop := drop_encode (body ++ ['*', '/']) rest
      simpa [Char.utf8Size] using hdrop
    refine .inl ⟨pos + (2 + String.utf8Len body + 2), rest, by simp; omega, ?_, ?_⟩
    · rw [skipTrivia_block_body hbody]
      congr 1
      omega
    · rw [hstep, searchClose?_some hbody, ← hdrop]
  · refine .inr ⟨_, skipTrivia_block_open hclose pos (pos + 2), ?_⟩
    rw [hstep, searchClose?_none hclose]

/-- **Bytes are skipped as the characters they encode**: no slice begins inside of one, and the
searches end before the steps are used up. -/
theorem skip_encode (text : List Char) : ∀ limit pos, text.length < limit →
    skip limit pos (encode text) =
      some ((skipTrivia .blank pos text).map fun r => (r.1, encode r.2)) := by
  induction h : text.length using Nat.strong_induction_on generalizing text with
  | _ n ih =>
  intro limit pos hlimit
  obtain ⟨limit, rfl⟩ := Nat.exists_eq_succ_of_ne_zero (Nat.ne_zero_of_lt hlimit)
  have hshorter : ∀ rest pos', rest.length < n → skip limit pos' (encode rest) =
      some ((skipTrivia .blank pos' rest).map fun r => (r.1, encode r.2)) :=
    fun rest pos' hrest => ih _ hrest rest rfl limit pos' (by omega)
  rcases text with _ | ⟨c, text⟩
  · rfl
  · by_cases hline : ∃ more, c = '/' ∧ text = '/' :: more
    · obtain ⟨more, rfl, rfl⟩ := hline
      obtain ⟨pos', rest, hrest, hchars, hbytes⟩ := skip_line limit pos more
      rw [hbytes, hshorter rest pos' (by simp at h; omega), ← hchars]
      rfl
    · by_cases hblock : ∃ more, c = '/' ∧ text = '*' :: more
      · obtain ⟨more, rfl, rfl⟩ := hblock
        rcases skip_block limit pos more with ⟨pos', rest, hrest, hchars, hbytes⟩ |
          ⟨f, hchars, hbytes⟩
        · rw [hbytes, hshorter rest pos' (by simp at h; omega), ← hchars]
          rfl
        · rw [hbytes]
          show _ = some ((skipTrivia (.block pos) (pos + 2) more).map _)
          rw [hchars]
          rfl
      · have hline' := fun more hc ht => hline ⟨more, hc, ht⟩
        have hblock' := fun more hc ht => hblock ⟨more, hc, ht⟩
        rw [skip_char hline' hblock']
        cases hblank : isBlank c with
        | true =>
          rw [if_pos rfl, skipTrivia_of_isBlank hblank, hshorter text _ (by simp at h; omega)]
        | false =>
          rw [if_neg Bool.false_ne_true, skipTrivia_of_not_comment hblank hline' hblock']
          rfl

end Skip

end Bytes

end Signature
end Countersign
