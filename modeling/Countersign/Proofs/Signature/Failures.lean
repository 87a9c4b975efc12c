/-
# Where reading fails

Reading leaves some of the last tokens, whether it succeeds or not: so a token that was not wanted
is one of the tokens of the text, or its end. What keeps a text from being split into tokens stands
between two of its characters, too: where a comment opens that is never closed, or where no token
starts.

Key definitions: `leftOver`, `Keeps`, `Boundary`.
Key theorems: `Keeps.bind`, `readType_keeps`, `tokenize_error`, `Splits.offsetOf_boundary`.
-/
import Countersign.Proofs.Signature.Continued

namespace Countersign
namespace Signature

/-! ### Tokens that are left -/

/-- The tokens that reading leaves: those behind what was read, or those from the unwanted one
on. -/
def leftOver {α : Type} : Except Failure (α × List Lexeme) → List Lexeme
  | .ok (_, rest) => rest
  | .error f => f.rest

/-- Whether it succeeds or not, reading leaves some of the last tokens. -/
def Keeps {α : Type} (item : Reads α) : Prop := ∀ ts, leftOver (item ts) <:+ ts

section Rules

variable {α β : Type} {item : Reads α} {p : Punct} {ts rest : List Lexeme}

theorem Keeps.pure (a : α) : Keeps fun ts => .ok (a, ts) := fun _ => List.suffix_rfl

theorem Keeps.fail (wanted : List Expected) :
    Keeps fun ts => (.error ⟨wanted, ts⟩ : Except Failure (α × List Lexeme)) :=
  fun _ => List.suffix_rfl

theorem Keeps.bind {f : α × List Lexeme → Except Failure (β × List Lexeme)} (h : Keeps item)
    (hf : ∀ a, Keeps fun ts => f (a, ts)) : Keeps fun ts => item ts >>= f := by
  intro ts
  have hleft := h ts
  show leftOver (item ts >>= f) <:+ ts
  cases hread : item ts with
  | error e =>
    rw [hread] at hleft
    exact hleft
  | ok r =>
    rw [hread] at hleft
    exact (hf r.1 r.2).trans hleft

theorem Keeps.look {look : List Lexeme → Option (List Lexeme)} {yes no : Reads α}
    (hlook : ∀ ts rest, look ts = some rest → rest <:+ ts) (hyes : Keeps yes) (hno : Keeps no) :
    Keeps fun ts => match look ts with
      | some rest => yes rest
      | none => no ts := by
  intro ts
  dsimp only
  cases hfound : look ts with
  | none => exact hno ts
  | some rest => exact (hyes rest).trans (hlook ts rest hfound)

theorem Keeps.ite {b : List Lexeme → Bool} {yes no : Reads α} (hyes : Keeps yes) (hno : Keeps no) :
    Keeps fun ts => if b ts then yes ts else no ts := by
  intro ts
  dsimp only
  split
  · exact hyes ts
  · exact hno ts

theorem eat?_suffix (p : Punct) : ∀ ts rest, eat? p ts = some rest → rest <:+ ts := by
  intro ts rest h
  obtain ⟨start, rfl⟩ := eat?_some h
  exact List.suffix_cons _ _

theorem eatWord?_suffix (w : String) : ∀ ts rest, eatWord? w ts = some rest → rest <:+ ts := by
  intro ts rest h
  obtain ⟨start, rfl⟩ := eatWord?_some h
  exact List.suffix_cons _ _

theorem expect_keeps (p : Punct) : Keeps (expect p) :=
  .look (eat?_suffix p) (.pure ()) (.fail [.punct p])

theorem expectWord_keeps (w : String) : Keeps (expectWord w) :=
  .look (eatWord?_suffix w) (.pure ()) (.fail [.word w])

theorem identifier_keeps : Keeps identifier := by
  intro ts
  unfold identifier
  split
  · exact List.suffix_cons _ _
  · exact List.suffix_rfl

theorem further_keeps (h : Keeps item) : ∀ limit, Keeps (further p item limit)
  | 0 => .pure []
  | limit + 1 => by
    rw [further_succ]
    refine .look (eat?_suffix p) (h.bind fun a => ?_) (.pure [])
    dsimp only
    exact (further_keeps h limit).bind fun as => .pure (a :: as)

theorem sepBy_keeps (h : Keeps item) : Keeps (sepBy p item) := by
  have hmore : Keeps fun ts => further p item ts.length ts := fun ts => further_keeps h ts.length ts
  exact h.bind fun a => hmore.bind fun as => .pure (a :: as)

end Rules

/-! ### Types -/

section Types

variable {sub : Reads Ty}

theorem fieldName_keeps : Keeps fieldName := by
  intro ts
  unfold fieldName
  split
  · exact List.suffix_cons _ _
  · split
    · exact List.suffix_cons _ _
    · exact List.suffix_rfl
  · exact List.suffix_rfl

theorem skipSeparator_suffix (ts : List Lexeme) : skipSeparator ts <:+ ts := by
  unfold skipSeparator
  cases hcomma : eat? .comma ts with
  | some rest => exact eat?_suffix .comma ts rest hcomma
  | none =>
    cases hsemicolon : eat? .semicolon ts with
    | some rest => exact eat?_suffix .semicolon ts rest hsemicolon
    | none => exact List.suffix_rfl

theorem fields_keeps (hsub : Keeps sub) : ∀ limit done, Keeps (fields sub limit done)
  | 0, done => .pure done
  | limit + 1, done => by
    rw [funext (fields_succ sub limit done)]
    refine .ite (.pure done) (fieldName_keeps.bind fun name => ?_)
    by_cases hknown : done.any (·.1 == name) = true
    · simp only [hknown, if_true]
      exact .fail [.uniqueFieldName]
    · simp only [hknown, Bool.false_eq_true, if_false]
      refine (expect_keeps .colon).bind fun _ => hsub.bind fun t ts => ?_
      exact (fields_keeps hsub limit _ (skipSeparator ts)).trans (skipSeparator_suffix ts)

theorem object_keeps (hsub : Keeps sub) : Keeps (object sub) := by
  have hfields : Keeps fun ts => fields sub (ts.length + 1) [] ts :=
    fun ts => fields_keeps hsub (ts.length + 1) [] ts
  exact hfields.bind fun fs => (expect_keeps .closeBrace).bind fun _ => .pure (Ty.object fs)

theorem tuple_keeps (hsub : Keeps sub) : Keeps (tuple sub) := by
  have hitems : Keeps (tupleItems sub) := .ite (.pure []) (sepBy_keeps hsub)
  rw [funext (tuple_eq sub)]
  refine hitems.bind fun items => ?_
  dsimp only
  exact (expect_keeps .closeBracket).bind fun _ => .pure (Ty.tuple items)

/-- A type and what is made of it. -/
theorem typed_keeps {α : Type} (hsub : Keeps sub) (make : Ty → α) :
    Keeps fun ts => sub ts >>= fun t => .ok (make t.1, t.2) :=
  hsub.bind fun t => .pure (make t)

theorem eatReceiver?_suffix (ts rest : List Lexeme) (h : eatReceiver? ts = some rest) :
    rest <:+ ts := by
  obtain ⟨ts₁, hthis, hcolon⟩ := Option.bind_eq_some_iff.mp h
  exact (eat?_suffix _ _ _ hcolon).trans (eatWord?_suffix _ _ _ hthis)

theorem param_keeps (hsub : Keeps sub) (done : Params) : Keeps (param sub done) := by
  intro ts
  unfold param
  cases hreceiver : eatReceiver? ts with
  | some rest =>
    dsimp only
    split
    · exact List.suffix_rfl
    · exact (typed_keeps hsub (fun t => { done with receiver := some t }) rest).trans
        (eatReceiver?_suffix ts rest hreceiver)
  | none =>
    dsimp only
    split
    · rename_i s i j rest
      have hrest := typed_keeps hsub
        (fun t => { done with positional := done.positional ++ [(some s, t)] }) rest
      exact hrest.trans ((List.suffix_cons _ _).trans (List.suffix_cons _ _))
    · exact typed_keeps hsub
        (fun t => { done with positional := done.positional ++ [(none, t)] }) ts

theorem params_keeps (hsub : Keeps sub) : ∀ limit done, Keeps (params sub limit done)
  | 0, done => .pure done
  | limit + 1, done => by
    exact (param_keeps hsub done).bind fun ps =>
      .look (eat?_suffix .comma) (params_keeps hsub limit ps) (.pure ps)

theorem functionOrGroupTail_keeps (hsub : Keeps sub) (ps : Params) :
    Keeps (functionOrGroupTail sub ps) := by
  refine .look (eat?_suffix .arrow)
    (typed_keeps hsub fun result => Ty.function ps.positional result ps.receiver) fun ts => ?_
  split
  · exact List.suffix_rfl
  · exact List.suffix_rfl

theorem functionOrGroup_keeps (hsub : Keeps sub) : Keeps (functionOrGroup sub) := by
  have hlist : Keeps (paramList sub) :=
    .ite (.pure _) fun ts => params_keeps hsub (ts.length + 1) ⟨none, []⟩ ts
  rw [funext (functionOrGroup_eq sub)]
  refine hlist.bind fun ps => ?_
  dsimp only
  exact (expect_keeps .closeParen).bind fun _ => functionOrGroupTail_keeps hsub ps

theorem className_keeps (name : String) : Keeps (className name) :=
  .look (eatWord?_suffix "as")
    (identifier_keeps.bind fun newName => .pure (Ty.renamed (.user newName) (.resolve name)))
    (.pure (Ty.ofName name))

theorem primary_keeps (hsub : Keeps sub) : Keeps (primary sub) := by
  intro ts
  unfold primary
  split
  · exact List.suffix_cons _ _
  · exact (className_keeps _ _).trans (List.suffix_cons _ _)
  · exact (object_keeps hsub _).trans (List.suffix_cons _ _)
  · exact (tuple_keeps hsub _).trans (List.suffix_cons _ _)
  · exact (functionOrGroup_keeps hsub _).trans (List.suffix_cons _ _)
  · exact List.suffix_rfl

theorem applied_keeps (hsub : Keeps sub) : Keeps (applied sub) := by
  rw [applied_eq]
  refine (primary_keeps hsub).bind fun base => ?_
  dsimp only
  refine .look (eat?_suffix .less) ((sepBy_keeps hsub).bind fun args => ?_) (.pure base)
  dsimp only
  exact (expect_keeps .greater).bind fun _ => .pure (Ty.generic base args)

theorem union_keeps (hsub : Keeps sub) : Keeps (union sub) := by
  have hintersection : Keeps (intersection sub) :=
    (sepBy_keeps (applied_keeps hsub)).bind fun members => .pure (Ty.intersectionOf members)
  exact (sepBy_keeps hintersection).bind fun members => .pure (Ty.unionOf members)

theorem typeAt_keeps : ∀ depth, Keeps (typeAt depth)
  | 0 => .fail [.type]
  | depth + 1 => union_keeps (typeAt_keeps depth)

/-- **Reading a type leaves some of the last tokens**, whether it succeeds or not. -/
theorem readType_keeps : Keeps readType := fun ts => typeAt_keeps (ts.length + 1) ts

end Types

/-! ### Texts that are not split into tokens -/

/-- The offset stands between two characters of the text, which starts at offset `pos`, or at an end
of it. -/
def Boundary (pos : Nat) (text : List Char) (offset : Nat) : Prop :=
  ∃ before after, text = before ++ after ∧ offset = pos + String.utf8Len before

section Faults

variable {pos offset : Nat} {text : List Char} {f : LexFault}

theorem Boundary.start (pos : Nat) (text : List Char) : Boundary pos text pos :=
  ⟨[], text, rfl, rfl⟩

theorem Boundary.append {before : List Char}
    (h : Boundary (pos + String.utf8Len before) text offset) :
    Boundary pos (before ++ text) offset := by
  obtain ⟨more, after, rfl, rfl⟩ := h
  refine ⟨before ++ more, after, (List.append_assoc _ _ _).symm, ?_⟩
  rw [String.utf8Len_append, Nat.add_assoc]

theorem Boundary.cons {c : Char} (h : Boundary (pos + c.utf8Size) text offset) :
    Boundary pos (c :: text) offset :=
  @Boundary.append pos offset text [c] (by simpa using h)

/-- What cannot be skipped is a comment that is never closed: the one that was open at first, or one
that opens in the text. -/
theorem skipTrivia_error {state : Trivia} (h : skipTrivia state pos text = .error f) :
    state = .block f.offset ∨ Boundary pos text f.offset := by
  fun_induction skipTrivia state pos text with
  | case1 opened pos =>
    cases h
    exact .inl rfl
  | case2 => cases h
  | case3 pos text ih =>
    rcases ih h with hstate | hrest
    · cases hstate
    · exact .inr (.cons (c := '/') (.cons (c := '/') hrest))
  | case4 pos text ih =>
    rcases ih h with hstate | hrest
    · -- The comment that opens here is the one that is never closed.
      cases hstate
      exact .inr (.start _ _)
    · exact .inr (.cons (c := '/') (.cons (c := '*') hrest))
  | case5 pos c text _ _ _ ih =>
    rcases ih h with hstate | hrest
    · cases hstate
    · exact .inr hrest.cons
  | case6 => cases h
  | case7 pos c text ih =>
    rcases ih h with hstate | hrest
    · split at hstate
      · cases hstate
      · cases hstate
    · exact .inr hrest.cons
  | case8 opened pos text ih =>
    rcases ih h with hstate | hrest
    · cases hstate
    · exact .inr (.cons (c := '*') (.cons (c := '/') hrest))
  | case9 opened pos c text _ ih => exact (ih h).imp_right Boundary.cons

theorem scanToken_error {c : Char} (h : scanToken pos c text = .error f) : f.offset = pos := by
  unfold scanToken at h
  split at h
  · cases h
  · split at h
    · split at h
      · cases h
      · cases h
        rfl
    · split at h
      · cases h
      · cases h
        rfl

theorem lexemesFrom_error {limit : Nat} (h : lexemesFrom limit pos text = .error f) :
    Boundary pos text f.offset := by
  induction limit generalizing pos text with
  | zero => cases h
  | succ limit ih =>
    simp only [lexemesFrom, bind, Except.bind] at h
    -- The fault is in what is skipped, where the token should start, or behind the token.
    cases hskip : skipTrivia .blank pos text with
    | error g =>
      rw [hskip] at h
      cases h
      rcases skipTrivia_error hskip with hstate | hinside
      · cases hstate
      · exact hinside
    | ok skipped =>
      obtain ⟨start, rest⟩ := skipped
      rw [hskip] at h
      cases rest with
      | nil => cases h
      | cons c rest =>
        dsimp only at h
        cases hscan : scanToken start c rest with
        | error g =>
          rw [hscan] at h
          cases h
          obtain ⟨skipped, rfl, rfl, -⟩ := skipTrivia_passes hskip
          exact .append (scanToken_error hscan ▸ .start _ _)
        | ok scanned =>
          obtain ⟨t, behind⟩ := scanned
          rw [hscan] at h
          dsimp only at h
          obtain ⟨gap, -, htext, -, -, -, -, hstop⟩ := front_of_token hskip hscan
          cases hmore : lexemesFrom limit (Lexeme.stop ⟨t, start⟩) behind with
          | error g =>
            rw [hmore] at h
            cases h
            rw [htext, ← List.append_assoc]
            exact .append (hstop ▸ ih hmore)
          | ok ls =>
            rw [hmore] at h
            cases h

/-- **A text that is not split into tokens** fails between two of its characters. -/
theorem tokenize_error (h : tokenize text = .error f) : Boundary 0 text f.offset :=
  lexemesFrom_error h

end Faults

/-- **The last tokens of a text begin between two of its characters**, or where it ends if there are
none. -/
theorem Splits.offsetOf_boundary {text : String} {ls rest : List Lexeme}
    (h : Splits 0 text.toList ls) (hrest : rest <:+ ls) :
    Boundary 0 text.toList (offsetOf text rest) := by
  cases rest with
  | nil =>
    refine ⟨text.toList, [], (List.append_nil _).symm, ?_⟩
    rw [offsetOf, utf8ByteSize_eq, Nat.zero_add]
  | cons l rest =>
    obtain ⟨before, after, htext, hstart⟩ := h.stands l (hrest.subset List.mem_cons_self)
    exact ⟨before, _, htext, hstart⟩

end Signature
end Countersign
