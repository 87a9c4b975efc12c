/-
# Reading a type back

Reading the text of a type gives the type back. The rules of the grammar are followed one by one:
each reads the tokens of what it is for and stops at a mark that may follow it. A type nested in
another is followed by a comma or by a closing mark, a member of a union or an intersection by one
of these or by the mark between members, and the base of a generic application by its opening mark.

The rules for unions and intersections are stated for any rule `app` in the place of `applied`.

Key definitions: `Follows`, `ReadsBack`, `Flat`.
Key theorems: `typeAt_back`, `parseType_source`, `source_round_trip`.
-/
import Countersign.Proofs.Signature.Tokens

namespace Countersign
namespace Signature

/-- If anything is left, it begins with one of the marks. -/
def Follows (after : List Punct) (rest : List Lexeme) : Prop :=
  ∀ l ∈ rest.head?, ∃ p ∈ after, l.token = .punct p

/-- The marks that may follow a nested type. -/
def closers : List Punct := [.comma, .greater, .closeParen, .closeBrace, .closeBracket]

/-- The marks that may follow a member of an intersection. -/
def memberEnds : List Punct := .ampersand :: .pipe :: closers

/-- The marks that may follow a type that stands for itself, or in parentheses. -/
def primaryEnds : List Punct := .less :: memberEnds

/-- `item` reads the tokens `ts` as `a` wherever one of the marks follows them. -/
def ReadsBack {α : Type} (item : Reads α) (ts : List Token) (a : α) (after : List Punct) : Prop :=
  ∀ ls rest, ls.map (·.token) = ts → Follows after rest → item (ls ++ rest) = .ok (a, rest)

variable {α : Type} {item : Reads α} {p : Punct} {after : List Punct} {rest : List Lexeme}

theorem Follows.cons (h : p ∈ after) (start : Nat) : Follows after (⟨.punct p, start⟩ :: rest) := by
  intro l hl
  obtain rfl := Option.some.inj hl
  exact ⟨p, h, rfl⟩

theorem Follows.mono {more : List Punct} (h : Follows after rest) (hsub : after ⊆ more) :
    Follows more rest := by
  intro l hl
  obtain ⟨p, hp, htoken⟩ := h l hl
  exact ⟨p, hsub hp, htoken⟩

theorem follows_nil : Follows after [] := by
  intro l hl
  cases hl

theorem ReadsBack.mono {less : List Punct} {ts : List Token} {a : α}
    (h : ReadsBack item ts a after) (hsub : less ⊆ after) : ReadsBack item ts a less :=
  fun ls rest hls hrest => h ls rest hls (hrest.mono hsub)

/-! ### The next token -/

theorem lexemes_cons {ls : List Lexeme} {t : Token} {ts : List Token}
    (h : ls.map (·.token) = t :: ts) : ∃ start ls', ls = ⟨t, start⟩ :: ls' ∧ ls'.map (·.token) = ts := by
  obtain ⟨⟨token, start⟩, ls', rfl, rfl, hls'⟩ := List.map_eq_cons_iff.mp h
  exact ⟨start, ls', rfl, hls'⟩

@[simp] theorem eat?_punct (p : Punct) (start : Nat) (rest : List Lexeme) :
    eat? p (⟨.punct p, start⟩ :: rest) = some rest := by
  simp [eat?]

@[simp] theorem expect_punct (p : Punct) (start : Nat) (rest : List Lexeme) :
    expect p (⟨.punct p, start⟩ :: rest) = .ok ((), rest) := by
  simp [expect]

theorem Follows.eat?_none (h : Follows after rest) (hp : p ∉ after) : eat? p rest = none := by
  cases rest with
  | nil => rfl
  | cons l rest =>
    obtain ⟨q, hq, htoken⟩ := h l rfl
    obtain ⟨token, start⟩ := l
    obtain rfl : token = .punct q := htoken
    have hne : q ≠ p := fun hqp => hp (hqp ▸ hq)
    simp [eat?, hne]

theorem Follows.eatWord?_none (h : Follows after rest) (w : String) : eatWord? w rest = none := by
  cases rest with
  | nil => rfl
  | cons l rest =>
    obtain ⟨q, hq, htoken⟩ := h l rfl
    obtain ⟨token, start⟩ := l
    obtain rfl : token = .punct q := htoken
    rfl

/-- The tokens that begin a type. -/
def Token.Opens : Token → Prop
  | .name _ => True
  | .value _ => True
  | .punct p => p = .openParen ∨ p = .openBrace ∨ p = .openBracket

/-- The first two tokens are a name and a colon. -/
def Labelled : List Token → Prop
  | .name _ :: .punct .colon :: _ => True
  | _ => False

/-- The tokens begin like a type, and not like a label unless a colon follows them. -/
def Begins (ts : List Token) : Prop :=
  (∃ t ts', ts = t :: ts' ∧ t.Opens) ∧
    ∀ more, more.head? ≠ some (.punct .colon) → ¬ Labelled (ts ++ more)

theorem begins_punct (ts : List Token) (h : (Token.punct p).Opens) : Begins (.punct p :: ts) :=
  ⟨⟨_, ts, rfl, h⟩, fun _ _ => id⟩

theorem Begins.append {ts more : List Token} (h : Begins ts)
    (hmore : more = [] ∨ ∃ p more', more = .punct p :: more' ∧ p ≠ .colon) : Begins (ts ++ more) := by
  obtain ⟨⟨t, ts', rfl, hopens⟩, hlabel⟩ := h
  refine ⟨⟨t, ts' ++ more, rfl, hopens⟩, fun rest hrest => ?_⟩
  rw [List.append_assoc]
  refine hlabel _ ?_
  rcases hmore with rfl | ⟨p, more', rfl, hp⟩
  · exact hrest
  · simpa using hp

theorem begins_enclose {least : Nat} {t : Ty} {ts : List Token} (h : Begins ts) :
    Begins (encloseTokens least t ts) := by
  unfold encloseTokens
  split
  · exact begins_punct _ (.inl rfl)
  · exact h

theorem begins_members {least : Nat} {ts : List Ty} (hp : p ≠ .colon) (hne : ts ≠ [])
    (h : ∀ t ∈ ts, Begins (tokens t)) : Begins (listed p (memberTokens least ts)) := by
  cases ts with
  | nil => exact absurd rfl hne
  | cons t ts =>
    rw [memberTokens, listed]
    refine (begins_enclose (h t List.mem_cons_self)).append ?_
    cases hts : memberTokens least ts with
    | nil => exact .inl rfl
    | cons us uss => exact .inr ⟨p, _, rfl, hp⟩

theorem begins_tokens {t : Ty} (h : Written t) : Begins (tokens t) := by
  induction t using Ty.children_induction with
  | step t ih =>
    obtain ⟨hnode, hwritten⟩ := written_iff.mp h
    have hchild : ∀ u ∈ t.children, Begins (tokens u) := fun u hu => ih u hu (hwritten u hu)
    cases t with
    | named c =>
      refine ⟨⟨_, [], rfl, trivial⟩, fun more hmore hlabel => ?_⟩
      unfold Labelled at hlabel
      split at hlabel
      · rename_i heq
        cases heq
        exact hmore rfl
      · exact hlabel
    | value v => exact ⟨⟨_, [], rfl, trivial⟩, fun _ _ => id⟩
    | renamed n s => exact ⟨⟨_, _, rfl, trivial⟩, fun _ _ => id⟩
    | function ps r receiver => exact begins_punct _ (.inl rfl)
    | object fs => exact begins_punct _ (.inr (.inl rfl))
    | union ms =>
      have hne : ms ≠ [] := by
        rintro rfl
        exact absurd hnode (by simp [NodeWritten])
      exact begins_members (by decide) hne hchild
    | intersection ms =>
      have hne : ms ≠ [] := by
        rintro rfl
        exact absurd hnode (by simp [NodeWritten])
      exact begins_members (by decide) hne hchild
    | generic b as =>
      exact (begins_enclose (hchild b List.mem_cons_self)).append (.inr ⟨.less, _, rfl, by decide⟩)
    | tuple is => exact begins_punct _ (.inr (.inr rfl))
    | moduleExports t => exact absurd hnode id

/-- No closing mark stands where a type begins. -/
theorem Begins.atPunct_false {ts : List Token} {ls : List Lexeme} (h : Begins ts)
    (hls : ls.map (·.token) = ts) (hp : p ∈ closers) (rest : List Lexeme) :
    atPunct p (ls ++ rest) = false := by
  obtain ⟨⟨t, ts', rfl, hopens⟩, -⟩ := h
  obtain ⟨start, ls', rfl, -⟩ := lexemes_cons hls
  cases t with
  | name s => rfl
  | value v => rfl
  | punct q =>
    have hne : q ≠ p := by
      rintro rfl
      rcases hopens with rfl | rfl | rfl <;> exact absurd hp (by decide)
    simp [atPunct, eat?, hne]

/-! ### Lists -/

/-- Before further items stands the mark between them. -/
theorem Follows.further {tss : List (List Token)} {ls : List Lexeme} (h : Follows after rest)
    (hls : ls.map (·.token) = tss.flatMap (.punct p :: ·)) : Follows (p :: after) (ls ++ rest) := by
  cases tss with
  | nil =>
    obtain rfl : ls = [] := by simpa using hls
    exact h.mono (List.subset_cons_self _ _)
  | cons ts tss =>
    obtain ⟨start, ls', rfl, -⟩ := lexemes_cons hls
    exact Follows.cons List.mem_cons_self start

theorem length_le_flatMap (p : Punct) (tss : List (List Token)) :
    tss.length ≤ (tss.flatMap (Token.punct p :: ·)).length := by
  induction tss with
  | nil => exact Nat.zero_le _
  | cons ts tss ih =>
    simp only [List.flatMap_cons, List.length_append, List.length_cons]
    omega

theorem further_back (hp : p ∉ after) {tss : List (List Token)} {as : List α}
    (h : List.Forall₂ (fun ts a => ReadsBack item ts a (p :: after)) tss as) :
    ∀ limit ls rest, as.length ≤ limit → ls.map (·.token) = tss.flatMap (.punct p :: ·) →
      Follows after rest → further p item limit (ls ++ rest) = .ok (as, rest) := by
  induction h with
  | nil =>
    intro limit ls rest _ hls hrest
    obtain rfl : ls = [] := by simpa using hls
    cases limit with
    | zero => rfl
    | succ limit => simp [further, hrest.eat?_none hp]
  | @cons ts a tss as hitem _ ih =>
    intro limit ls rest hlimit hls hrest
    obtain ⟨limit, rfl⟩ := Nat.exists_eq_succ_of_ne_zero
      (by simp at hlimit; omega : limit ≠ 0)
    rw [List.flatMap_cons] at hls
    obtain ⟨start, ls', rfl, hls'⟩ := lexemes_cons hls
    obtain ⟨ls₁, ls₂, rfl, hls₁, hls₂⟩ := List.map_eq_append_iff.mp hls'
    have hmore := ih limit ls₂ rest (by simpa using hlimit) hls₂ hrest
    have hone := hitem ls₁ (ls₂ ++ rest) hls₁ (hrest.further hls₂)
    simp only [further, List.cons_append, List.append_assoc, eat?_punct, hone, hmore, bind,
      Except.bind, pure, Except.pure]

/-- One item may be followed by what follows the list. -/
theorem sepBy_one {ts : List Token} {a : α} (hp : p ∉ after) (h : ReadsBack item ts a after) :
    ReadsBack (sepBy p item) ts [a] after := by
  intro ls rest hls hrest
  have hmore : further p item rest.length rest = .ok ([], rest) :=
    further_back hp .nil rest.length [] rest (Nat.zero_le _) rfl hrest
  simp only [sepBy, h ls rest hls hrest, hmore, bind, Except.bind, pure, Except.pure]

/-- Items that are read back one by one are read back with marks between them. -/
theorem sepBy_back (hp : p ∉ after) {tss : List (List Token)} {as : List α} (hne : as ≠ [])
    (h : List.Forall₂ (fun ts a => ReadsBack item ts a (p :: after)) tss as) :
    ReadsBack (sepBy p item) (listed p tss) as after := by
  cases h with
  | nil => exact absurd rfl hne
  | @cons ts a tss as hitem hrest =>
    intro ls rest hls hfollows
    obtain ⟨ls₁, ls₂, rfl, hls₁, hls₂⟩ := List.map_eq_append_iff.mp hls
    have hlimit : as.length ≤ (ls₂ ++ rest).length := by
      have hlength := congrArg List.length hls₂
      have htss := hrest.length_eq
      have hsum := length_le_flatMap p tss
      rw [List.length_map] at hlength
      rw [List.length_append]
      omega
    have hmore := further_back hp hrest _ ls₂ rest hlimit hls₂ hfollows
    have hone := hitem ls₁ (ls₂ ++ rest) hls₁ (hfollows.further hls₂)
    simp only [sepBy, List.append_assoc, hone, hmore, bind, Except.bind, pure, Except.pure]

/-! ### Objects and tuples -/

theorem skipSeparator_comma (start : Nat) (rest : List Lexeme) :
    skipSeparator (⟨.punct .comma, start⟩ :: rest) = rest := by
  simp [skipSeparator]

theorem skipSeparator_follows (h : Follows [.closeBrace] rest) : skipSeparator rest = rest := by
  simp [skipSeparator, h.eat?_none (p := .comma) (by decide),
    h.eat?_none (p := .semicolon) (by decide)]

theorem fields_back {sub : Reads Ty} : ∀ fs : List (String × Ty),
    (∀ f ∈ fs, ReadsBack sub (tokens f.2) f.2 closers) → ∀ limit done ls stop rest,
      fs.length < limit → ((done ++ fs).map (·.1)).Nodup →
      ls.map (·.token) = listed .comma (fieldTokens fs) →
      fields sub limit done (ls ++ ⟨.punct .closeBrace, stop⟩ :: rest) =
        .ok (done ++ fs, ⟨.punct .closeBrace, stop⟩ :: rest)
  | [], _, limit, done, ls, stop, rest, hlimit, _, hls => by
    obtain ⟨limit, rfl⟩ := Nat.exists_eq_succ_of_ne_zero (by omega : limit ≠ 0)
    obtain rfl : ls = [] := by simpa [fieldTokens, listed] using hls
    simp [fields_succ, atPunct]
  | (name, t) :: fs, h, limit, done, ls, stop, rest, hlimit, hnodup, hls => by
    obtain ⟨limit, rfl⟩ := Nat.exists_eq_succ_of_ne_zero (by omega : limit ≠ 0)
    have hfields := fields_back fs (fun f hf => h f (List.mem_cons_of_mem _ hf)) limit
      (done ++ [(name, t)])
    simp only [List.append_assoc, List.cons_append, List.nil_append] at hfields
    have hnew : done.any (·.1 == name) = false := by
      rw [List.map_append, List.nodup_append] at hnodup
      rw [List.any_eq_false]
      intro f hf
      have := hnodup.2.2 f.1 (List.mem_map_of_mem hf) name (by simp)
      simpa using this
    -- What stands behind the type of the field is read by the fields that follow.
    have hrest : ∀ ls₂ : List Lexeme,
        ls₂.map (·.token) = (fieldTokens fs).flatMap (.punct .comma :: ·) →
        Follows closers (ls₂ ++ ⟨.punct .closeBrace, stop⟩ :: rest) ∧
          fields sub limit (done ++ [(name, t)])
            (skipSeparator (ls₂ ++ ⟨.punct .closeBrace, stop⟩ :: rest)) =
              .ok (done ++ (name, t) :: fs, ⟨.punct .closeBrace, stop⟩ :: rest) := by
      intro ls₂ hls₂
      have hclose : Follows [.closeBrace] (⟨.punct .closeBrace, stop⟩ :: rest) :=
        Follows.cons List.mem_cons_self _
      refine ⟨(hclose.further hls₂).mono (by decide), ?_⟩
      cases fs with
      | nil =>
        obtain rfl : ls₂ = [] := by simpa [fieldTokens] using hls₂
        rw [List.nil_append, skipSeparator_follows hclose]
        exact hfields [] stop rest (by simp at hlimit; omega) hnodup rfl
      | cons f fs =>
        obtain ⟨start, ls₃, rfl, hls₃⟩ := lexemes_cons hls₂
        rw [List.cons_append, skipSeparator_comma]
        exact hfields ls₃ stop rest (by simp at hlimit ⊢; omega) hnodup hls₃
    rw [fieldTokens, listed] at hls
    obtain ⟨start₁, ls', rfl, hls'⟩ := lexemes_cons hls
    obtain ⟨start₂, ls'', rfl, hls''⟩ := lexemes_cons hls'
    obtain ⟨ls₁, ls₂, rfl, hls₁, hls₂⟩ := List.map_eq_append_iff.mp hls''
    obtain ⟨hfollows, hmore⟩ := hrest ls₂ hls₂
    have htype := h (name, t) List.mem_cons_self ls₁ _ hls₁ hfollows
    have hopen : ∀ ts, atPunct .closeBrace (⟨.name name, start₁⟩ :: ts) = false := fun _ => rfl
    rw [fields_succ]
    simp [hopen, fieldName, hnew, htype, hmore, bind, Except.bind]

theorem members_back {item : Reads Ty} (least : Nat) : ∀ ts : List Ty,
    (∀ t ∈ ts, ReadsBack item (encloseTokens least t (tokens t)) t after) →
      List.Forall₂ (fun us t => ReadsBack item us t after) (memberTokens least ts) ts
  | [], _ => .nil
  | t :: ts, h => .cons (h t List.mem_cons_self)
      (members_back least ts fun u hu => h u (List.mem_cons_of_mem _ hu))

@[simp] theorem encloseTokens_zero (t : Ty) (ts : List Token) : encloseTokens 0 t ts = ts := by
  simp [encloseTokens]

/-- Nested types with commas between them. -/
theorem types_back {sub : Reads Ty} {ts : List Ty} (hne : ts ≠ []) (hp : .comma ∉ after)
    (hafter : .comma :: after ⊆ closers) (h : ∀ t ∈ ts, ReadsBack sub (tokens t) t closers) :
    ReadsBack (sepBy .comma sub) (listed .comma (memberTokens 0 ts)) ts after := by
  refine sepBy_back hp hne (members_back 0 ts fun t ht => ?_)
  rw [encloseTokens_zero]
  exact (h t ht).mono hafter

theorem begins_types {ts : List Ty} (hne : ts ≠ []) (h : ∀ t ∈ ts, Written t) :
    Begins (listed .comma (memberTokens 0 ts)) :=
  begins_members (by decide) hne fun t ht => begins_tokens (h t ht)

theorem tuple_back {sub : Reads Ty} {is : List Ty} (hw : ∀ t ∈ is, Written t)
    (h : ∀ t ∈ is, ReadsBack sub (tokens t) t closers) {ls : List Lexeme}
    (hls : ls.map (·.token) = listed .comma (memberTokens 0 is)) (stop : Nat)
    (rest : List Lexeme) :
    tuple sub (ls ++ ⟨.punct .closeBracket, stop⟩ :: rest) = .ok (.tuple is, rest) := by
  have hitems : tupleItems sub (ls ++ ⟨.punct .closeBracket, stop⟩ :: rest) =
      .ok (is, ⟨.punct .closeBracket, stop⟩ :: rest) := by
    by_cases hne : is = []
    · subst hne
      obtain rfl : ls = [] := by simpa [memberTokens, listed] using hls
      simp [tupleItems, atPunct]
    · have hat := (begins_types hne hw).atPunct_false hls (p := .closeBracket) (by decide)
      have hback : ReadsBack (sepBy .comma sub) _ is [.closeBracket] :=
        types_back hne (by decide) (by decide) h
      rw [tupleItems, hat, if_neg (by decide)]
      exact hback ls _ hls (Follows.cons List.mem_cons_self stop)
  rw [tuple_eq, hitems]
  simp [bind, Except.bind]

theorem object_back {sub : Reads Ty} {fs : List (String × Ty)} (hnodup : (fs.map (·.1)).Nodup)
    (h : ∀ f ∈ fs, ReadsBack sub (tokens f.2) f.2 closers) {ls : List Lexeme}
    (hls : ls.map (·.token) = listed .comma (fieldTokens fs)) (stop : Nat)
    (rest : List Lexeme) :
    object sub (ls ++ ⟨.punct .closeBrace, stop⟩ :: rest) = .ok (.object fs, rest) := by
  have hlimit : fs.length < (ls ++ ⟨.punct .closeBrace, stop⟩ :: rest).length + 1 := by
    have hlength := congrArg List.length hls
    have hlisted := length_listed .comma (fieldTokens fs)
    have hfields : ∀ fs : List (String × Ty), (fieldTokens fs).length = fs.length := by
      intro fs
      induction fs with
      | nil => rfl
      | cons f fs ih => simp [fieldTokens, ih]
    rw [hfields] at hlisted
    rw [List.length_map] at hlength
    rw [List.length_append, List.length_cons]
    omega
  have hback := fields_back fs h _ [] ls stop rest hlimit hnodup hls
  simp only [object, hback, List.nil_append, expect_punct, bind, Except.bind, pure, Except.pure]

/-! ### Functions and groups -/

/-- A type without a label is read as a parameter without a name. -/
theorem param_unnamed {sub : Reads Ty} {t : Ty} (hw : Written t)
    (h : ReadsBack sub (tokens t) t closers) (done : Params) {ls : List Lexeme}
    (hls : ls.map (·.token) = tokens t) (hrest : Follows closers rest) :
    param sub done (ls ++ rest) =
      .ok ({ done with positional := done.positional ++ [(none, t)] }, rest) := by
  have hmore : (rest.map (·.token)).head? ≠ some (.punct .colon) := by
    intro hhead
    rw [List.head?_map, Option.map_eq_some_iff] at hhead
    obtain ⟨l, hl, htoken⟩ := hhead
    obtain ⟨p, hp, hp'⟩ := hrest l hl
    rw [htoken] at hp'
    cases hp'
    exact absurd hp (by decide)
  have hlabel : ¬ Labelled ((ls ++ rest).map (·.token)) := by
    rw [List.map_append, hls]
    exact (begins_tokens hw).2 _ hmore
  have hreceiver : eatReceiver? (ls ++ rest) = none := by
    cases heat : eatReceiver? (ls ++ rest) with
    | none => rfl
    | some rest' =>
      obtain ⟨ts₂, hword, hcolon⟩ := Option.bind_eq_some_iff.mp heat
      obtain ⟨_, hls'⟩ := eatWord?_some hword
      obtain ⟨_, rfl⟩ := eat?_some hcolon
      rw [hls'] at hlabel
      exact absurd trivial hlabel
  have hback := h ls rest hls hrest
  unfold param
  rw [hreceiver]
  dsimp only
  split
  · rename_i heq
    rw [heq] at hlabel
    exact absurd trivial hlabel
  · simp only [hback, bind, Except.bind, pure, Except.pure]

theorem param_named {sub : Reads Ty} {t : Ty} {name : String} (hname : name ≠ "this")
    (h : ReadsBack sub (tokens t) t closers) (done : Params) {ls : List Lexeme}
    (hls : ls.map (·.token) = .name name :: .punct .colon :: tokens t)
    (hrest : Follows closers rest) :
    param sub done (ls ++ rest) =
      .ok ({ done with positional := done.positional ++ [(some name, t)] }, rest) := by
  obtain ⟨start₁, ls₁, rfl, hls₁⟩ := lexemes_cons hls
  obtain ⟨start₂, ls₂, rfl, hls₂⟩ := lexemes_cons hls₁
  have hback := h ls₂ rest hls₂ hrest
  have hreceiver : eatReceiver? (⟨.name name, start₁⟩ :: ⟨.punct .colon, start₂⟩ :: (ls₂ ++ rest)) =
      none := by
    simp [eatReceiver?, eatWord?, hname]
  simp only [param, List.cons_append, hreceiver, hback, bind, Except.bind, pure, Except.pure]

theorem param_receiver {sub : Reads Ty} {t : Ty} (h : ReadsBack sub (tokens t) t closers)
    {ls : List Lexeme} (hls : ls.map (·.token) = .name "this" :: .punct .colon :: tokens t)
    (hrest : Follows closers rest) :
    param sub ⟨none, []⟩ (ls ++ rest) = .ok (⟨some t, []⟩, rest) := by
  obtain ⟨start₁, ls₁, rfl, hls₁⟩ := lexemes_cons hls
  obtain ⟨start₂, ls₂, rfl, hls₂⟩ := lexemes_cons hls₁
  have hback := h ls₂ rest hls₂ hrest
  have hreceiver : eatReceiver? (⟨.name "this", start₁⟩ :: ⟨.punct .colon, start₂⟩ :: (ls₂ ++ rest)) =
      some (ls₂ ++ rest) := by
    simp [eatReceiver?, eatWord?]
  simp [param, hreceiver, hback, bind, Except.bind, pure, Except.pure]

theorem params_succ (sub : Reads Ty) (limit : Nat) (done : Params) (ts : List Lexeme) :
    params sub (limit + 1) done ts = param sub done ts >>= fun r =>
      match eat? .comma r.2 with
      | some rest => params sub limit r.1 rest
      | none => .ok r := rfl

/-- Parameters after those in `done`, up to the closing parenthesis. -/
theorem params_back {sub : Reads Ty} : ∀ ps : List (Option String × Ty), ps ≠ [] →
    (∀ p ∈ ps, (∀ n ∈ p.1, n ≠ "this") ∧ Written p.2 ∧ ReadsBack sub (tokens p.2) p.2 closers) →
      ∀ limit done ls rest, ps.length ≤ limit → ls.map (·.token) = listed .comma (paramTokens ps) →
        Follows [.closeParen] rest → params sub limit done (ls ++ rest) =
          .ok ({ done with positional := done.positional ++ ps }, rest)
  | [], hne, _ => absurd rfl hne
  | (name, t) :: ps, _, h => by
    intro limit done ls rest hlimit hls hrest
    obtain ⟨limit, rfl⟩ := Nat.exists_eq_succ_of_ne_zero
      (by simp at hlimit; omega : limit ≠ 0)
    obtain ⟨hname, hw, hback⟩ := h (name, t) List.mem_cons_self
    -- One parameter, wherever the tokens of the list are split behind it.
    have hone : ∀ rest', Follows closers rest' → ∀ ls' : List Lexeme,
        ls'.map (·.token) = (paramTokens [(name, t)]).flatMap id →
        param sub done (ls' ++ rest') =
          .ok ({ done with positional := done.positional ++ [(name, t)] }, rest') := by
      intro rest' hrest' ls' hls'
      cases name with
      | none => exact param_unnamed hw hback done (by simpa [paramTokens] using hls') hrest'
      | some n =>
        exact param_named (hname n rfl) hback done (by simpa [paramTokens] using hls') hrest'
    have hsplit : listed .comma (paramTokens ((name, t) :: ps)) =
        (paramTokens [(name, t)]).flatMap id ++ (paramTokens ps).flatMap (.punct .comma :: ·) := by
      cases name <;> simp [paramTokens, listed]
    rw [hsplit] at hls
    obtain ⟨ls₁, ls₂, rfl, hls₁, hls₂⟩ := List.map_eq_append_iff.mp hls
    have hnext : Follows closers (ls₂ ++ rest) := (hrest.further hls₂).mono (by decide)
    rw [List.append_assoc, params_succ, hone _ hnext ls₁ hls₁]
    cases hps : ps with
    | nil =>
      subst hps
      obtain rfl : ls₂ = [] := by simpa [paramTokens] using hls₂
      simp [bind, Except.bind, hrest.eat?_none (p := .comma) (by decide)]
    | cons q qs =>
      have hlisted : (paramTokens ps).flatMap (Token.punct .comma :: ·) =
          .punct .comma :: listed .comma (paramTokens ps) := by
        obtain ⟨_ | n, u⟩ := q <;> simp [hps, paramTokens, listed]
      rw [hlisted] at hls₂
      obtain ⟨start, ls₃, rfl, hls₃⟩ := lexemes_cons hls₂
      have hmore := params_back ps (by simp [hps]) (fun p hp => h p (List.mem_cons_of_mem _ hp))
        limit { done with positional := done.positional ++ [(name, t)] } ls₃ rest
        (by simpa using hlimit) hls₃ hrest
      simp only [bind, Except.bind, List.cons_append, eat?_punct]
      rw [hmore, ← hps]
      simp

theorem length_paramTokens (ps : List (Option String × Ty)) :
    (paramTokens ps).length = ps.length := by
  induction ps with
  | nil => rfl
  | cons p ps ih => obtain ⟨_ | n, t⟩ := p <;> simp [paramTokens, ih]

/-- What reading wants of the parameters and the receiver of a function. -/
def ParamsBack (sub : Reads Ty) (ps : List (Option String × Ty)) (receiver : Option Ty) : Prop :=
  (∀ p ∈ ps, (∀ n ∈ p.1, n ≠ "this") ∧ Written p.2 ∧ ReadsBack sub (tokens p.2) p.2 closers) ∧
    ∀ t ∈ receiver, ReadsBack sub (tokens t) t closers

theorem paramList_back {sub : Reads Ty} {ps : List (Option String × Ty)} {receiver : Option Ty}
    (h : ParamsBack sub ps receiver) {ls : List Lexeme}
    (hls : ls.map (·.token) = listed .comma (receiverTokens receiver ++ paramTokens ps))
    (stop : Nat) (rest : List Lexeme) :
    paramList sub (ls ++ ⟨.punct .closeParen, stop⟩ :: rest) =
      .ok (⟨receiver, ps⟩, ⟨.punct .closeParen, stop⟩ :: rest) := by
  have hclose : Follows [.closeParen] (⟨.punct .closeParen, stop⟩ :: rest) :=
    Follows.cons List.mem_cons_self stop
  have hlength : (receiverTokens receiver ++ paramTokens ps).length ≤ ls.length + 1 := by
    have hlisted := length_listed .comma (receiverTokens receiver ++ paramTokens ps)
    rw [← hls, List.length_map] at hlisted
    omega
  cases receiver with
  | none =>
    rw [receiverTokens, List.nil_append] at hls hlength
    rw [length_paramTokens] at hlength
    cases ps with
    | nil =>
      obtain rfl : ls = [] := by simpa [paramTokens, listed] using hls
      simp [paramList, atPunct]
    | cons p ps =>
      have hat : atPunct .closeParen (ls ++ ⟨.punct .closeParen, stop⟩ :: rest) = false := by
        obtain ⟨_ | n, t⟩ := p
        · rw [paramTokens, listed] at hls
          obtain ⟨ls₁, ls₂, rfl, hls₁, -⟩ := List.map_eq_append_iff.mp hls
          rw [List.append_assoc]
          exact (begins_tokens (h.1 _ List.mem_cons_self).2.1).atPunct_false hls₁ (by decide) _
        · rw [paramTokens, listed] at hls
          obtain ⟨start, ls₁, rfl, -⟩ := lexemes_cons hls
          rfl
      rw [paramList, hat, if_neg (by decide)]
      refine params_back (p :: ps) (by simp) h.1 _ ⟨none, []⟩ ls _ ?_ hls hclose
      rw [List.length_append]
      omega
  | some t =>
    have hsplit : listed .comma (receiverTokens (some t) ++ paramTokens ps) =
        (.name "this" :: .punct .colon :: tokens t) ++
          (paramTokens ps).flatMap (.punct .comma :: ·) := by
      simp [receiverTokens, listed]
    rw [hsplit] at hls
    obtain ⟨ls₁, ls₂, rfl, hls₁, hls₂⟩ := List.map_eq_append_iff.mp hls
    have hat : atPunct .closeParen (ls₁ ++ ls₂ ++ ⟨.punct .closeParen, stop⟩ :: rest) = false := by
      obtain ⟨start, ls₃, rfl, -⟩ := lexemes_cons hls₁
      rfl
    have hnext : Follows closers (ls₂ ++ ⟨.punct .closeParen, stop⟩ :: rest) :=
      (hclose.further hls₂).mono (by decide)
    rw [paramList, hat, if_neg (by decide), params_succ, List.append_assoc,
      param_receiver (h.2 t rfl) hls₁ hnext]
    cases hps : ps with
    | nil =>
      subst hps
      obtain rfl : ls₂ = [] := by simpa [paramTokens] using hls₂
      simp [bind, Except.bind, hclose.eat?_none (p := .comma) (by decide)]
    | cons q qs =>
      have hlisted : (paramTokens ps).flatMap (Token.punct .comma :: ·) =
          .punct .comma :: listed .comma (paramTokens ps) := by
        obtain ⟨_ | n, u⟩ := q <;> simp [hps, paramTokens, listed]
      rw [hlisted] at hls₂
      obtain ⟨start, ls₃, rfl, hls₃⟩ := lexemes_cons hls₂
      have hmore := params_back ps (by simp [hps]) h.1 (ls₁ ++ ((⟨.punct .comma, start⟩ :: ls₃) ++
        ⟨.punct .closeParen, stop⟩ :: rest)).length ⟨some t, []⟩ ls₃
        (⟨.punct .closeParen, stop⟩ :: rest) (by
          simp only [receiverTokens, List.length_append, List.length_cons, List.length_nil,
            length_paramTokens] at hlength ⊢
          omega) hls₃ hclose
      simp only [bind, Except.bind, List.cons_append, eat?_punct]
      rw [List.cons_append] at hmore
      rw [hmore, ← hps, List.nil_append]

theorem function_back {sub : Reads Ty} {ps : List (Option String × Ty)} {r : Ty}
    {receiver : Option Ty} (h : ParamsBack sub ps receiver)
    (hr : ReadsBack sub (tokens r) r closers) :
    ReadsBack (primary sub) (tokens (.function ps r receiver)) (.function ps r receiver) closers := by
  intro ls rest hls hrest
  rw [tokens] at hls
  obtain ⟨start, ls', rfl, hls'⟩ := lexemes_cons hls
  obtain ⟨ls₁, ls₂, rfl, hls₁, hls₂⟩ := List.map_eq_append_iff.mp hls'
  obtain ⟨stop, ls₃, rfl, hls₃⟩ := lexemes_cons hls₂
  obtain ⟨start', ls₄, rfl, hls₄⟩ := lexemes_cons hls₃
  have hresult := hr ls₄ rest hls₄ hrest
  have hparams := paramList_back h hls₁ stop (⟨.punct .arrow, start'⟩ :: (ls₄ ++ rest))
  rw [List.cons_append, List.append_assoc]
  rw [primary, functionOrGroup_eq]
  simp only [List.cons_append, hparams, expect_punct, functionOrGroupTail, eat?_punct, hresult, bind,
    Except.bind]

theorem function_written_back {sub : Reads Ty} {ps : List (Option String × Ty)} {r : Ty}
    {receiver : Option Ty} (hw : Written (.function ps r receiver))
    (h : ∀ u ∈ (Ty.function ps r receiver).children, ReadsBack sub (tokens u) u closers) :
    ReadsBack (primary sub) (tokens (.function ps r receiver)) (.function ps r receiver) closers := by
  obtain ⟨hnode, hwritten⟩ := written_iff.mp hw
  simp only [Ty.children, List.mem_append, List.mem_cons, Option.mem_toList] at h hwritten
  refine function_back ⟨fun p hp => ?_, fun t ht => ?_⟩ ?_
  · have hp' := List.mem_map_of_mem (f := (·.2)) hp
    exact ⟨fun n hn => (hnode p hp n hn).2, hwritten p.2 (.inl hp'), h p.2 (.inl hp')⟩
  · exact h t (.inr (.inr ht))
  · exact h r (.inr (.inl rfl))

/-- A type in parentheses stands for itself unless an arrow follows. -/
theorem group_back {sub : Reads Ty} {t : Ty} (hw : Written t)
    (h : ReadsBack sub (tokens t) t closers) :
    ReadsBack (primary sub) (.punct .openParen :: (tokens t ++ [.punct .closeParen])) t
      primaryEnds := by
  intro ls rest hls hrest
  obtain ⟨start, ls', rfl, hls'⟩ := lexemes_cons hls
  obtain ⟨ls₁, ls₂, rfl, hls₁, hls₂⟩ := List.map_eq_append_iff.mp hls'
  obtain ⟨stop, ls₃, rfl, hls₃⟩ := lexemes_cons hls₂
  obtain rfl : ls₃ = [] := by simpa using hls₃
  have hparams : ParamsBack sub [(none, t)] none := by
    constructor
    · intro p hp
      obtain rfl : p = (none, t) := by simpa using hp
      exact ⟨by simp, hw, h⟩
    · simp
  have hlist := paramList_back hparams (by simpa [receiverTokens, paramTokens, listed] using hls₁)
    stop rest
  rw [List.cons_append, List.append_assoc]
  rw [primary, functionOrGroup_eq]
  simp only [List.cons_append, List.nil_append, hlist, expect_punct, functionOrGroupTail,
    hrest.eat?_none (p := .arrow) (by decide), bind, Except.bind]

/-! ### Types that need no parentheses -/

theorem named_back {sub : Reads Ty} {c : ClassName} (h : c = .resolve c.name) :
    ReadsBack (primary sub) (tokens (.named c)) (.named c) primaryEnds := by
  intro ls rest hls hrest
  obtain ⟨start, ls', rfl, hls'⟩ := lexemes_cons hls
  obtain rfl : ls' = [] := by simpa using hls'
  rw [List.cons_append, List.nil_append, primary, className, hrest.eatWord?_none]
  rw [h]
  rfl

theorem value_back {sub : Reads Ty} (v : Value) :
    ReadsBack (primary sub) (tokens (.value v)) (.value v) primaryEnds := by
  intro ls rest hls _
  obtain ⟨start, ls', rfl, hls'⟩ := lexemes_cons hls
  obtain rfl : ls' = [] := by simpa using hls'
  rfl

theorem renamed_back {sub : Reads Ty} {n s : ClassName} (hn : n = .user n.name)
    (hs : s = .resolve s.name) :
    ReadsBack (primary sub) (tokens (.renamed n s)) (.renamed n s) primaryEnds := by
  intro ls rest hls _
  obtain ⟨start₁, ls₁, rfl, hls₁⟩ := lexemes_cons hls
  obtain ⟨start₂, ls₂, rfl, hls₂⟩ := lexemes_cons hls₁
  obtain ⟨start₃, ls₃, rfl, hls₃⟩ := lexemes_cons hls₂
  obtain rfl : ls₃ = [] := by simpa using hls₃
  rw [hn, hs]
  rfl

theorem object_primary {sub : Reads Ty} {fs : List (String × Ty)}
    (hnodup : (fs.map (·.1)).Nodup) (h : ∀ f ∈ fs, ReadsBack sub (tokens f.2) f.2 closers) :
    ReadsBack (primary sub) (tokens (.object fs)) (.object fs) primaryEnds := by
  intro ls rest hls _
  rw [tokens] at hls
  obtain ⟨start, ls', rfl, hls'⟩ := lexemes_cons hls
  obtain ⟨ls₁, ls₂, rfl, hls₁, hls₂⟩ := List.map_eq_append_iff.mp hls'
  obtain ⟨stop, ls₃, rfl, hls₃⟩ := lexemes_cons hls₂
  obtain rfl : ls₃ = [] := by simpa using hls₃
  rw [List.cons_append, List.append_assoc, primary]
  exact object_back hnodup h hls₁ stop rest

theorem tuple_primary {sub : Reads Ty} {is : List Ty} (hw : ∀ t ∈ is, Written t)
    (h : ∀ t ∈ is, ReadsBack sub (tokens t) t closers) :
    ReadsBack (primary sub) (tokens (.tuple is)) (.tuple is) primaryEnds := by
  intro ls rest hls _
  rw [tokens] at hls
  obtain ⟨start, ls', rfl, hls'⟩ := lexemes_cons hls
  obtain ⟨ls₁, ls₂, rfl, hls₁, hls₂⟩ := List.map_eq_append_iff.mp hls'
  obtain ⟨stop, ls₃, rfl, hls₃⟩ := lexemes_cons hls₂
  obtain rfl : ls₃ = [] := by simpa using hls₃
  rw [List.cons_append, List.append_assoc, primary]
  exact tuple_back hw h hls₁ stop rest

/-- Neither a connective nor a generic application. -/
def Simple (t : Ty) : Prop := t.rank = 3 ∧ ∀ b as, t ≠ .generic b as

theorem primary_back {sub : Reads Ty} {t : Ty} (hw : Written t) (ht : Simple t)
    (h : ∀ u ∈ t.children, ReadsBack sub (tokens u) u closers) :
    ReadsBack (primary sub) (tokens t) t primaryEnds := by
  obtain ⟨hnode, hwritten⟩ := written_iff.mp hw
  cases t with
  | named c => exact named_back hnode.1
  | value v => exact value_back v
  | renamed n s => exact renamed_back hnode.1 hnode.2.2.1
  | object fs => exact object_primary hnode fun f hf => h f.2 (List.mem_map_of_mem hf)
  | tuple is => exact tuple_primary hwritten h
  | generic b as => exact absurd rfl (ht.2 b as)
  | moduleExports t => exact absurd hnode id
  | function ps r receiver => exact absurd ht.1 (by simp [Ty.rank])
  | union ms => exact absurd ht.1 (by simp [Ty.rank])
  | intersection ms => exact absurd ht.1 (by simp [Ty.rank])

theorem rank_le (t : Ty) : t.rank ≤ 3 := by
  induction t using Ty.children_induction with
  | step t ih =>
    cases t with
    | moduleExports t => exact ih t (List.mem_singleton_self t)
    | _ => simp [Ty.rank]

/-- The base of a generic application that is none itself. -/
theorem base_back {sub : Reads Ty} {b : Ty} (hw : Written b) (hb : ∀ c cs, b ≠ .generic c cs)
    (h : ∀ u ∈ b.children, ReadsBack sub (tokens u) u closers)
    (hself : ReadsBack sub (tokens b) b closers) :
    ReadsBack (primary sub) (encloseTokens 3 b (tokens b)) b primaryEnds := by
  unfold encloseTokens
  split
  · exact group_back hw hself
  · rename_i hrank
    have hle := rank_le b
    exact primary_back hw ⟨by omega, hb⟩ h

/-! ### Members of intersections and unions -/

/-- A type in the place of which a connective could not stand, read by `app`; the types nested in
it are smaller than `size`. -/
structure MembersBack (G : Ty → Prop) (app : Reads Ty) (size : Nat) : Prop where
  tight : ∀ t, G t → t.size ≤ size → t.rank = 3 → ReadsBack app (tokens t) t memberEnds
  function : ∀ t, G t → t.size ≤ size → t.rank = 0 → ReadsBack app (tokens t) t closers
  group : ∀ t, G t → t.size < size →
    ReadsBack app (.punct .openParen :: (tokens t ++ [.punct .closeParen])) t memberEnds

/-- An intersection of what `app` reads. -/
def intersectionOver (app : Reads Ty) : Reads Ty := fun ts => do
  let (members, ts) ← sepBy .ampersand app ts
  return (.intersectionOf members, ts)

/-- A union of intersections of what `app` reads. -/
def unionOver (app : Reads Ty) : Reads Ty := fun ts => do
  let (members, ts) ← sepBy .pipe (intersectionOver app) ts
  return (.unionOf members, ts)

theorem intersectionOver_one {app : Reads Ty} {ts : List Token} {t : Ty}
    (hafter : .ampersand ∉ after) (h : ReadsBack app ts t after) :
    ReadsBack (intersectionOver app) ts t after := by
  intro ls rest hls hrest
  have hone := sepBy_one hafter h ls rest hls hrest
  simp only [intersectionOver, hone, bind, Except.bind, pure, Except.pure, Ty.intersectionOf]

theorem unionOver_one {app : Reads Ty} {ts : List Token} {t : Ty}
    (hafter : .pipe ∉ after) (h : ReadsBack (intersectionOver app) ts t after) :
    ReadsBack (unionOver app) ts t after := by
  intro ls rest hls hrest
  have hone := sepBy_one hafter h ls rest hls hrest
  simp only [unionOver, hone, bind, Except.bind, pure, Except.pure, Ty.unionOf]

theorem intersectionOf_of_two_le {ms : List Ty} (h : 2 ≤ ms.length) :
    Ty.intersectionOf ms = .intersection ms := by
  match ms, h with
  | _ :: _ :: _, _ => rfl

theorem unionOf_of_two_le {ms : List Ty} (h : 2 ≤ ms.length) : Ty.unionOf ms = .union ms := by
  match ms, h with
  | _ :: _ :: _, _ => rfl

section Connectives

variable {G : Ty → Prop} {app : Reads Ty} {size : Nat}

theorem MembersBack.enclosed (h : MembersBack G app size) {t : Ty} (ht : G t)
    (hsize : t.size < size) : ReadsBack app (encloseTokens 3 t (tokens t)) t memberEnds := by
  unfold encloseTokens
  split
  · exact h.group t ht hsize
  · have hle := rank_le t
    exact h.tight t ht (by omega) (by omega)

theorem MembersBack.intersection (h : MembersBack G app size)
    (hG : ∀ t u, G t → u ∈ t.children → G u) {ms : List Ty} (ht : G (.intersection ms))
    (hlength : 2 ≤ ms.length) (hsize : (Ty.intersection ms).size ≤ size) :
    ReadsBack (intersectionOver app) (tokens (.intersection ms)) (.intersection ms)
      (.pipe :: closers) := by
  intro ls rest hls hrest
  have hmembers : ∀ t ∈ ms, ReadsBack app (encloseTokens 3 t (tokens t)) t memberEnds := by
    intro t htm
    have hlt : t.size < (Ty.intersection ms).size := Ty.size_lt_of_mem_children htm
    exact h.enclosed (hG _ t ht htm) (by omega)
  have hne : ms ≠ [] := by
    rintro rfl
    simp at hlength
  have hlist := sepBy_back (by decide) hne (members_back 3 ms hmembers) ls rest hls hrest
  simp only [intersectionOver, hlist, bind, Except.bind, pure, Except.pure,
    intersectionOf_of_two_le hlength]

/-- A member of a union. -/
theorem MembersBack.unionMember (h : MembersBack G app size)
    (hG : ∀ t u, G t → u ∈ t.children → G u) (hwritten : ∀ t, G t → Written t) {t : Ty} (ht : G t)
    (hsize : t.size < size) :
    ReadsBack (intersectionOver app) (encloseTokens 2 t (tokens t)) t (.pipe :: closers) := by
  unfold encloseTokens
  split
  · exact intersectionOver_one (by decide) ((h.group t ht hsize).mono (by decide))
  · rename_i hrank
    by_cases htight : t.rank = 3
    · exact intersectionOver_one (by decide) ((h.tight t ht (by omega) htight).mono (by decide))
    · have hnode := (written_iff.mp (hwritten t ht)).1
      cases t with
      | intersection ms => exact h.intersection hG ht hnode (by omega)
      | moduleExports t => exact absurd hnode id
      | union ms => exact absurd (by simp [Ty.rank]) hrank
      | function ps r receiver => exact absurd (by simp [Ty.rank]) hrank
      | _ => exact absurd rfl htight

/-- A union of what `app` reads is read back with everything nested in it. -/
theorem MembersBack.union (h : MembersBack G app size)
    (hG : ∀ t u, G t → u ∈ t.children → G u) (hwritten : ∀ t, G t → Written t) {t : Ty} (ht : G t)
    (hsize : t.size ≤ size) : ReadsBack (unionOver app) (tokens t) t closers := by
  have hnode := (written_iff.mp (hwritten t ht)).1
  have htight : t.rank = 3 → ReadsBack (unionOver app) (tokens t) t closers := fun hrank =>
    unionOver_one (by decide)
      (intersectionOver_one (by decide) ((h.tight t ht hsize hrank).mono (by decide)))
  cases t with
  | function ps r receiver =>
    exact unionOver_one (by decide) (intersectionOver_one (by decide) (h.function _ ht hsize rfl))
  | intersection ms =>
    exact unionOver_one (by decide) ((h.intersection hG ht hnode hsize).mono (by decide))
  | union ms =>
    intro ls rest hls hrest
    have hlength : 2 ≤ ms.length := hnode
    have hmembers : ∀ t ∈ ms,
        ReadsBack (intersectionOver app) (encloseTokens 2 t (tokens t)) t (.pipe :: closers) := by
      intro t htm
      have hlt : t.size < (Ty.union ms).size := Ty.size_lt_of_mem_children htm
      exact h.unionMember hG hwritten (hG _ t ht htm) (by omega)
    have hne : ms ≠ [] := by
      rintro rfl
      simp at hlength
    have hlist := sepBy_back (by decide) hne (members_back 2 ms hmembers) ls rest hls hrest
    simp only [unionOver, hlist, bind, Except.bind, pure, Except.pure, unionOf_of_two_le hlength]
  | moduleExports t => exact absurd hnode id
  | _ => exact htight rfl

end Connectives

/-! ### Whole types -/

/-- No generic application in the type has another one as its base. -/
def Flat (t : Ty) : Prop := ∀ b as, .generic b as ∈ t.parts → ∀ c cs, b ≠ .generic c cs

/-- Whether the outermost node is not a generic application of another one. -/
def nodeFlat : Ty → Bool
  | .generic (.generic _ _) _ => false
  | _ => true

theorem flat_iff {t : Ty} : (∀ u ∈ t.parts, nodeFlat u = true) ↔ Flat t := by
  constructor
  · rintro h b as hb c cs rfl
    exact absurd (h _ hb) (by simp [nodeFlat])
  · intro h u hu
    unfold nodeFlat
    split
    · exact absurd rfl (h _ _ hu _ _)
    · rfl

instance (t : Ty) : Decidable (Flat t) := decidable_of_iff _ flat_iff

theorem Flat.child {t u : Ty} (h : Flat t) (hu : u ∈ t.children) : Flat u :=
  fun b as hb => h b as (Ty.parts_subset_of_mem_children hu hb)

theorem applied_of_primary {sub : Reads Ty} {ts : List Token} {t : Ty} (hafter : .less ∉ after)
    (h : ReadsBack (primary sub) ts t after) : ReadsBack (applied sub) ts t after := by
  intro ls rest hls hrest
  simp only [applied, h ls rest hls hrest, hrest.eat?_none hafter, bind, Except.bind, pure,
    Except.pure]

theorem applied_generic {sub : Reads Ty} {b : Ty} {as : List Ty} (hne : as ≠ [])
    (hb : ReadsBack (primary sub) (encloseTokens 3 b (tokens b)) b primaryEnds)
    (has : ∀ t ∈ as, ReadsBack sub (tokens t) t closers) :
    ReadsBack (applied sub) (tokens (.generic b as)) (.generic b as) memberEnds := by
  intro ls rest hls hrest
  rw [tokens] at hls
  obtain ⟨ls₁, ls₂, rfl, hls₁, hls₂⟩ := List.map_eq_append_iff.mp hls
  obtain ⟨start, ls₃, rfl, hls₃⟩ := lexemes_cons hls₂
  obtain ⟨ls₄, ls₅, rfl, hls₄, hls₅⟩ := List.map_eq_append_iff.mp hls₃
  obtain ⟨stop, ls₆, rfl, hls₆⟩ := lexemes_cons hls₅
  obtain rfl : ls₆ = [] := by simpa using hls₆
  have hbase := hb ls₁ (⟨.punct .less, start⟩ :: (ls₄ ++ ⟨.punct .greater, stop⟩ :: rest)) hls₁
    (Follows.cons List.mem_cons_self start)
  have hback : ReadsBack (sepBy .comma sub) _ as [.greater] :=
    types_back hne (by decide) (by decide) has
  have hargs := hback ls₄ (⟨.punct .greater, stop⟩ :: rest) hls₄ (Follows.cons List.mem_cons_self stop)
  simp only [applied, List.append_assoc, List.cons_append, List.nil_append, hbase, eat?_punct, hargs,
    expect_punct, bind, Except.bind, pure, Except.pure]

theorem applied_back {sub : Reads Ty} {size : Nat}
    (h : ∀ t, Written t ∧ Flat t → t.size < size → ReadsBack sub (tokens t) t closers) :
    MembersBack (fun t => Written t ∧ Flat t) (applied sub) size := by
  have hchildren : ∀ t, Written t ∧ Flat t → t.size ≤ size → ∀ u ∈ t.children,
      (Written u ∧ Flat u) ∧ u.size < size := by
    intro t ht hsize u hu
    have hlt := Ty.size_lt_of_mem_children hu
    exact ⟨⟨(written_iff.mp ht.1).2 u hu, ht.2.child hu⟩, by omega⟩
  have hback : ∀ t, Written t ∧ Flat t → t.size ≤ size → ∀ u ∈ t.children,
      ReadsBack sub (tokens u) u closers := by
    intro t ht hsize u hu
    obtain ⟨hu', hlt⟩ := hchildren t ht hsize u hu
    exact h u hu' hlt
  constructor
  · intro t ht hsize hrank
    cases t with
    | generic b as =>
      obtain ⟨hb, hlt⟩ := hchildren _ ht hsize b List.mem_cons_self
      refine applied_generic (written_iff.mp ht.1).1 ?_ fun u hu =>
        hback _ ht hsize u (List.mem_cons_of_mem _ hu)
      exact base_back hb.1 (ht.2 b as (Ty.mem_parts_self _)) (hback b hb (by omega)) (h b hb hlt)
    | moduleExports t => exact absurd (written_iff.mp ht.1).1 id
    | union ms => exact absurd hrank (by simp [Ty.rank])
    | intersection ms => exact absurd hrank (by simp [Ty.rank])
    | function ps r receiver => exact absurd hrank (by simp [Ty.rank])
    | _ =>
      refine applied_of_primary (by decide) (ReadsBack.mono (primary_back ht.1 ?_ ?_) (by decide))
      · exact ⟨rfl, fun _ _ => Ty.noConfusion⟩
      · exact hback _ ht hsize
  · intro t ht hsize hrank
    have hnode := (written_iff.mp ht.1).1
    cases t with
    | function ps r receiver =>
      exact applied_of_primary (by decide) (function_written_back ht.1 (hback _ ht hsize))
    | moduleExports t => exact absurd hnode id
    | _ => exact absurd hrank (by simp [Ty.rank])
  · intro t ht hlt
    exact applied_of_primary (by decide) ((group_back ht.1 (h t ht hlt)).mono (by decide))

theorem typeAt_succ (depth : Nat) : typeAt (depth + 1) = unionOver (applied (typeAt depth)) := rfl

/-- A type with at most `depth` nodes is read back within `depth` levels of nesting. -/
theorem typeAt_back (depth : Nat) : ∀ t, Written t ∧ Flat t → t.size ≤ depth →
    ReadsBack (typeAt depth) (tokens t) t closers := by
  induction depth with
  | zero =>
    intro t _ hsize
    have hsize' := Ty.size_eq t
    omega
  | succ depth ih =>
    intro t ht hsize
    rw [typeAt_succ]
    refine (applied_back fun u hu hlt => ih u hu (by omega)).union ?_ (fun _ h => h.1) ht hsize
    exact fun t u ht hu => ⟨(written_iff.mp ht.1).2 u hu, ht.2.child hu⟩

/-- A legible type is what its text is read as. -/
theorem parseType_of_legible {t : Ty} (h : Legible t) (hflat : Flat t) :
    parseType t.source = .ok t := by
  obtain ⟨ls, hls, htokens⟩ := tokenize_source h
  have hsize : t.size ≤ ls.length + 1 := by
    have hle := size_le_length_tokens h.1
    rw [← htokens, List.length_map] at hle
    omega
  have hread := typeAt_back _ t ⟨h.1, hflat⟩ hsize ls [] htokens follows_nil
  rw [List.append_nil] at hread
  have hwhole : wholeType ls = .ok (t, []) := by
    simp only [wholeType, readType, hread, endOfInput, bind, Except.bind, pure, Except.pure]
  simp only [parseType, Cursor.ofText, hls, Cursor.read, hwhole, bind, Except.bind]

theorem same_refl_of_written {t : Ty} (h : Written t) : (t == t) = true :=
  Ty.same_refl fun _ hfs => h _ hfs

/-- **Reading the text of a type that was read gives the type back**, if the names of its fields
need no quotes and no generic application in it has another one as its base. -/
theorem parseType_source {text : String} {t : Ty} (h : parseType text = .ok t)
    (hfields : FieldsNamed t) (hflat : Flat t) :
    parseType t.source = .ok t ∧ (t == t) = true :=
  ⟨parseType_of_legible ⟨parseType_written h, hfields⟩ hflat,
    same_refl_of_written (parseType_written h)⟩

/-- A function with a receiver, named and unnamed parameters, applied and grouped types. -/
def handlerText : String :=
  "(this: Channel, on: 'a' | -1.5, (x: N) => void) => (A & [B])<\x7b id: Node as N \x7d>"

theorem parseType_source_handler : ∃ t, parseType handlerText = .ok t ∧
    parseType t.source = .ok t ∧ (t == t) = true := by
  have hread : (parseType handlerText).toOption.any
      (fun t => decide (FieldsNamed t) && decide (Flat t)) = true := by decide +kernel
  obtain ⟨t, h, hplain⟩ := ok_of_any hread
  rw [Bool.and_eq_true, decide_eq_true_eq, decide_eq_true_eq] at hplain
  exact ⟨t, h, parseType_source h hplain.1 hplain.2⟩

end Signature
end Countersign
