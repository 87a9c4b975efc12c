/-
# Types with more behind them

What is read off the front of a list of tokens stays the same when the tokens are moved and when more
tokens follow, as long as these begin with a semicolon: no rule goes on past a semicolon that it did
not need, and the bounds on the number and the nesting of items are never reached.

Key definitions: `carried`, `Carries`, `Looks`.
Key theorems: `Carries.bind`, `Carries.look`, `readType_carries`.
-/
import Countersign.Proofs.Signature.Places

namespace Countersign
namespace Signature

/-- The tokens moved, with `more` behind them. -/
def carried (k : Nat) (more ls : List Lexeme) : List Lexeme := ls.map (Lexeme.moved k) ++ more

@[simp]
theorem carried_nil (k : Nat) (more : List Lexeme) : carried k more [] = more := rfl

@[simp]
theorem carried_cons (k : Nat) (more : List Lexeme) (t : Token) (start : Nat) (ls : List Lexeme) :
    carried k more (⟨t, start⟩ :: ls) = ⟨t, start + k⟩ :: carried k more ls := rfl

theorem length_carried (k : Nat) (more ls : List Lexeme) :
    (carried k more ls).length = ls.length + more.length := by
  rw [carried, List.length_append, List.length_map]

/-- The tokens begin with a semicolon, if there are any. -/
def Fenced (more : List Lexeme) : Prop := ∀ l ∈ more.head?, l.token = .punct .semicolon

theorem fenced_nil : Fenced [] := nofun

/-- Whatever the first rule reads off at most `n` tokens, the second reads off them when they are
moved and more follows. -/
def Carries (k : Nat) (more : List Lexeme) (n : Nat) {α : Type} (item item' : Reads α) : Prop :=
  ∀ ls a rest, ls.length ≤ n → item ls = .ok (a, rest) →
    rest <:+ ls ∧ item' (carried k more ls) = .ok (a, carried k more rest)

/-- Looking for something in front finds the same when the tokens are moved and more follows. -/
def Looks (k : Nat) (more : List Lexeme) (look : List Lexeme → Option (List Lexeme)) : Prop :=
  ∀ ls, look (carried k more ls) = (look ls).map (carried k more) ∧
    ∀ rest, look ls = some rest → rest <:+ ls ∧ rest.length < ls.length

section Rules

variable {k n : Nat} {more : List Lexeme} {α β : Type}

theorem Carries.pure (a : α) :
    Carries k more n (fun ts => .ok (a, ts)) (fun ts => .ok (a, ts)) := by
  intro ls b rest _ h
  cases h
  exact ⟨List.suffix_refl _, rfl⟩

theorem Carries.bind {item item' : Reads α} {f f' : α × List Lexeme → Except Failure (β × List Lexeme)}
    (h : Carries k more n item item')
    (hf : ∀ a, Carries k more n (fun ts => f (a, ts)) (fun ts => f' (a, ts))) :
    Carries k more n (fun ts => item ts >>= f) (fun ts => item' ts >>= f') := by
  intro ls b rest hn hread
  obtain ⟨⟨a, ls₁⟩, ha, hread⟩ := ok_of_bind hread
  obtain ⟨hsuffix, hitem⟩ := h ls a ls₁ hn ha
  obtain ⟨hsuffix', hrest⟩ := hf a ls₁ b rest (Nat.le_trans hsuffix.length_le hn) hread
  refine ⟨hsuffix'.trans hsuffix, ?_⟩
  show (item' (carried k more ls) >>= f') = _
  rw [hitem]
  exact hrest

theorem Carries.look {look : List Lexeme → Option (List Lexeme)} {yes no yes' no' : Reads α}
    (hlook : Looks k more look) (hyes : ∀ m < n, Carries k more m yes yes')
    (hno : Carries k more n no no') :
    Carries k more n
      (fun ts => match look ts with
        | some rest => yes rest
        | none => no ts)
      (fun ts => match look ts with
        | some rest => yes' rest
        | none => no' ts) := by
  intro ls a rest hn h
  obtain ⟨hsame, hshorter⟩ := hlook ls
  dsimp only at h ⊢
  rw [hsame]
  cases hfound : look ls with
  | none =>
    rw [hfound] at h
    exact hno ls a rest hn h
  | some ls₁ =>
    rw [hfound] at h
    obtain ⟨hsuffix, hlt⟩ := hshorter ls₁ hfound
    obtain ⟨hsuffix', hread⟩ := hyes ls₁.length (by omega) ls₁ a rest (Nat.le_refl _) h
    exact ⟨hsuffix'.trans hsuffix, hread⟩

theorem Carries.mono {m : Nat} {item item' : Reads α} (h : Carries k more n item item')
    (hm : m ≤ n) : Carries k more m item item' :=
  fun ls a rest hls => h ls a rest (Nat.le_trans hls hm)

/-- A rule that reads at most as many items as there are tokens. -/
theorem Carries.bounded {f f' : Nat → Reads α}
    (h : ∀ m limit limit', m ≤ limit → limit ≤ limit' → Carries k more m (f limit) (f' limit')) :
    Carries k more n (fun ts => f ts.length ts) (fun ts => f' ts.length ts) := by
  intro ls a rest _ hread
  have hlength : ls.length ≤ (carried k more ls).length := by
    rw [length_carried]
    omega
  exact h _ _ _ (Nat.le_refl _) hlength ls a rest (Nat.le_refl _) hread

/-! ### Marks and words -/

theorem looks_eat? (hmore : Fenced more) {p : Punct} (hp : p ≠ .semicolon) :
    Looks k more (eat? p) := by
  intro ls
  cases ls with
  | nil =>
    refine ⟨?_, by simp [eat?]⟩
    cases more with
    | nil => rfl
    | cons l more =>
      obtain ⟨t, start⟩ := l
      obtain rfl : t = .punct .semicolon := hmore _ rfl
      simp [carried, eat?, hp.symm]
  | cons l ls =>
    obtain ⟨t, start⟩ := l
    rw [carried_cons]
    cases t with
    | punct q =>
      by_cases hq : q = p
      · simp [eat?, hq]
      · simp [eat?, hq]
    | _ => exact ⟨rfl, by simp [eat?]⟩

theorem looks_eatWord? (hmore : Fenced more) (w : String) : Looks k more (eatWord? w) := by
  intro ls
  cases ls with
  | nil =>
    refine ⟨?_, by simp [eatWord?]⟩
    cases more with
    | nil => rfl
    | cons l more =>
      obtain ⟨t, start⟩ := l
      obtain rfl : t = .punct .semicolon := hmore _ rfl
      rfl
  | cons l ls =>
    obtain ⟨t, start⟩ := l
    rw [carried_cons]
    cases t with
    | name s =>
      by_cases hs : s = w
      · simp [eatWord?, hs]
      · simp [eatWord?, hs]
    | _ => exact ⟨rfl, by simp [eatWord?]⟩

/-- One look after another. -/
theorem Looks.bind {look look' : List Lexeme → Option (List Lexeme)} (h : Looks k more look)
    (h' : Looks k more look') : Looks k more fun ls => (look ls).bind look' := by
  intro ls
  obtain ⟨hsame, hshorter⟩ := h ls
  constructor
  · show (look (carried k more ls)).bind look' = ((look ls).bind look').map (carried k more)
    rw [hsame]
    cases look ls with
    | none => rfl
    | some ls₁ => exact (h' ls₁).1
  · intro rest hrest
    obtain ⟨ls₁, hfound, hrest⟩ := Option.bind_eq_some_iff.mp hrest
    obtain ⟨hsuffix, hlt⟩ := hshorter ls₁ hfound
    obtain ⟨hsuffix', hlt'⟩ := (h' ls₁).2 rest hrest
    exact ⟨hsuffix'.trans hsuffix, by omega⟩

theorem looks_eatReceiver? (hmore : Fenced more) : Looks k more eatReceiver? :=
  (looks_eatWord? hmore "this").bind (looks_eat? hmore (by decide))

/-- Whether a mark comes next is the same when the tokens are moved and more follows. -/
theorem atPunct_carried (hmore : Fenced more) {p : Punct} (hp : p ≠ .semicolon) (ls : List Lexeme) :
    atPunct p (carried k more ls) = atPunct p ls := by
  rw [atPunct, (looks_eat? hmore hp ls).1, Option.isSome_map]
  rfl

theorem Carries.ifAt (hmore : Fenced more) {p : Punct} (hp : p ≠ .semicolon)
    {yes no yes' no' : Reads α} (hyes : Carries k more n yes yes') (hno : Carries k more n no no') :
    Carries k more n (fun ts => if atPunct p ts then yes ts else no ts)
      (fun ts => if atPunct p ts then yes' ts else no' ts) := by
  intro ls a rest hn h
  dsimp only at h ⊢
  rw [atPunct_carried hmore hp]
  split at h
  · rename_i hat
    rw [if_pos hat]
    exact hyes ls a rest hn h
  · rename_i hat
    rw [if_neg hat]
    exact hno ls a rest hn h

/-- After a mark there are fewer tokens. -/
theorem Carries.expect (hmore : Fenced more) {p : Punct} (hp : p ≠ .semicolon)
    {f f' : Unit × List Lexeme → Except Failure (α × List Lexeme)}
    (hf : ∀ m < n, Carries k more m (fun ts => f ((), ts)) (fun ts => f' ((), ts))) :
    Carries k more n (fun ts => Signature.expect p ts >>= f)
      (fun ts => Signature.expect p ts >>= f') := by
  have heq : ∀ g : Unit × List Lexeme → Except Failure (α × List Lexeme),
      (fun ts => Signature.expect p ts >>= g) = fun ts => match eat? p ts with
        | some rest => g ((), rest)
        | none => .error ⟨[.punct p], ts⟩ := by
    intro g
    funext ts
    unfold Signature.expect
    cases eat? p ts <;> rfl
  rw [heq f, heq f']
  exact .look (looks_eat? hmore hp) hf nofun

theorem expectWord_carries (hmore : Fenced more) (w : String) :
    Carries k more n (expectWord w) (expectWord w) :=
  .look (looks_eatWord? hmore w) (fun _ _ => .pure ()) nofun

theorem identifier_carries : Carries k more n identifier identifier := by
  intro ls s rest _ h
  unfold identifier at h
  split at h
  · cases h
    exact ⟨List.suffix_cons _ _, rfl⟩
  · cases h

end Rules

/-! ### Lists -/

section Lists

variable {k n : Nat} {more : List Lexeme} {α : Type} {p : Punct} {item item' : Reads α}

theorem further_nil (p : Punct) (item : Reads α) (limit : Nat) {ls : List Lexeme}
    (h : eat? p ls = none) : further p item limit ls = .ok ([], ls) := by
  cases limit with
  | zero => rfl
  | succ limit => rw [further, h]

theorem further_succ (p : Punct) (item : Reads α) (limit : Nat) :
    further p item (limit + 1) = fun ts => match eat? p ts with
      | some rest => item rest >>= fun a => further p item limit a.2 >>= fun as =>
        .ok (a.1 :: as.1, as.2)
      | none => .ok ([], ts) := by
  funext ts
  rw [further]
  cases eat? p ts <;> rfl

theorem further_carries (hmore : Fenced more) (hp : p ≠ .semicolon)
    (hitem : ∀ n, Carries k more n item item') : ∀ m limit limit', m ≤ limit → limit ≤ limit' →
      Carries k more m (further p item limit) (further p item' limit')
  | 0, limit, limit', _, _ => by
    intro ls as rest hls h
    obtain rfl := List.eq_nil_of_length_eq_zero (Nat.le_zero.mp hls)
    rw [further_nil p item limit rfl] at h
    cases h
    have hnone : eat? p more = none := (looks_eat? (k := k) hmore hp []).1
    exact ⟨List.suffix_refl _, further_nil p item' limit' hnone⟩
  | m + 1, limit, limit', hlimit, hlimit' => by
    obtain ⟨limit, rfl⟩ := Nat.exists_eq_succ_of_ne_zero (by omega : limit ≠ 0)
    obtain ⟨limit', rfl⟩ := Nat.exists_eq_succ_of_ne_zero (by omega : limit' ≠ 0)
    rw [Nat.succ_eq_add_one, Nat.succ_eq_add_one, further_succ, further_succ]
    refine .look (looks_eat? hmore hp) (fun m' hm' => .bind (hitem m') fun a => ?_) (.pure [])
    have hrest := further_carries hmore hp hitem m limit limit' (by omega) (by omega)
    dsimp only
    exact (hrest.mono (by omega)).bind fun as => .pure (a :: as)

theorem sepBy_carries (hmore : Fenced more) (hp : p ≠ .semicolon)
    (hitem : ∀ n, Carries k more n item item') : Carries k more n (sepBy p item) (sepBy p item') :=
  .bind (hitem n) fun a => .bind (.bounded (further_carries hmore hp hitem)) fun as => .pure (a :: as)

end Lists

/-! ### Types -/

section Types

variable {k n : Nat} {more : List Lexeme} {sub sub' : Reads Ty}

theorem fieldName_carries : Carries k more n fieldName fieldName := by
  intro ls name rest _ h
  unfold fieldName at h
  split at h
  · cases h
    exact ⟨List.suffix_cons _ _, rfl⟩
  · rename_i v start ls
    split at h
    · rename_i hkind
      cases h
      refine ⟨List.suffix_cons _ _, ?_⟩
      rw [carried_cons, fieldName, if_pos hkind]
    · cases h
  · cases h

/-- An optional mark between fields is never the one that ends the tokens. -/
theorem Carries.skipSeparator {α : Type} {item item' : Reads α} (h : Carries k more n item item')
    (hnil : ∀ a rest, item [] ≠ .ok (a, rest)) :
    Carries k more n (fun ts => item (skipSeparator ts)) (fun ts => item' (skipSeparator ts)) := by
  intro ls a rest hn hread
  cases ls with
  | nil => exact absurd hread (hnil a rest)
  | cons l ls =>
    obtain ⟨t, start⟩ := l
    have hskip : Signature.skipSeparator (⟨t, start⟩ :: ls) <:+ ⟨t, start⟩ :: ls ∧
        Signature.skipSeparator (carried k more (⟨t, start⟩ :: ls)) =
          carried k more (Signature.skipSeparator (⟨t, start⟩ :: ls)) := by
      cases t with
      | punct q =>
        cases q with
        | comma => exact ⟨List.suffix_cons _ _, rfl⟩
        | semicolon => exact ⟨List.suffix_cons _ _, rfl⟩
        | _ => exact ⟨List.suffix_refl _, rfl⟩
      | _ => exact ⟨List.suffix_refl _, rfl⟩
    obtain ⟨hsuffix, hcarried⟩ := hskip
    obtain ⟨hsuffix', hitem⟩ := h _ a rest (Nat.le_trans hsuffix.length_le hn) hread
    refine ⟨hsuffix'.trans hsuffix, ?_⟩
    dsimp only
    rw [hcarried]
    exact hitem

/-- Without tokens there is no closing brace. -/
theorem fields_nil (sub : Reads Ty) (limit : Nat) (done : List (String × Ty))
    (fs : List (String × Ty)) (rest : List Lexeme) :
    fields sub (limit + 1) done [] ≠ .ok (fs, rest) := by
  rw [fields_succ]
  exact nofun

theorem fields_carries (hmore : Fenced more) (hsub : ∀ n, Carries k more n sub sub') :
    ∀ m limit limit' done, m < limit → limit ≤ limit' →
      Carries k more m (fields sub limit done) (fields sub' limit' done) := by
  intro m
  induction m using Nat.strong_induction_on with
  | _ m ih =>
    intro limit limit' done hlimit hlimit'
    obtain ⟨limit, rfl⟩ := Nat.exists_eq_succ_of_ne_zero (by omega : limit ≠ 0)
    obtain ⟨limit', rfl⟩ := Nat.exists_eq_succ_of_ne_zero (by omega : limit' ≠ 0)
    rw [Nat.succ_eq_add_one, Nat.succ_eq_add_one, funext (fields_succ sub limit done),
      funext (fields_succ sub' limit' done)]
    refine .ifAt hmore (by decide) (.pure done) (fieldName_carries.bind fun name => ?_)
    cases hknown : done.any (·.1 == name) with
    | true =>
      simp only [hknown, if_true]
      exact nofun
    | false =>
      simp only [hknown, Bool.false_eq_true, if_false]
      refine .expect hmore (by decide) fun m' hm' => (hsub m').bind fun t => ?_
      -- A field was read, so the bound is still above what is left.
      obtain ⟨limit, rfl⟩ := Nat.exists_eq_succ_of_ne_zero (by omega : limit ≠ 0)
      exact (ih m' hm' _ limit' (done ++ [(name, t)]) (by omega) (by omega)).skipSeparator
        (fields_nil sub limit _)

theorem object_carries (hmore : Fenced more) (hsub : ∀ n, Carries k more n sub sub') :
    Carries k more n (object sub) (object sub') := by
  have hfields : Carries k more n (fun ts => fields sub (ts.length + 1) [] ts)
      (fun ts => fields sub' (ts.length + 1) [] ts) :=
    .bounded fun m limit limit' hm hlimit =>
      fields_carries hmore hsub m (limit + 1) (limit' + 1) [] (by omega) (by omega)
  exact hfields.bind fun fs => .expect hmore (by decide) fun _ _ => .pure (Ty.object fs)

theorem tuple_carries (hmore : Fenced more) (hsub : ∀ n, Carries k more n sub sub') :
    Carries k more n (tuple sub) (tuple sub') := by
  have hitems : Carries k more n (tupleItems sub) (tupleItems sub') :=
    .ifAt hmore (by decide) (.pure []) (sepBy_carries hmore (by decide) hsub)
  rw [funext (tuple_eq sub), funext (tuple_eq sub')]
  refine hitems.bind fun items => ?_
  dsimp only
  exact .expect hmore (by decide) fun _ _ => .pure (Ty.tuple items)

/-- A name before a colon stands there before tokens are moved and more follows. -/
theorem named_of_carried (hmore : Fenced more) {ls rest : List Lexeme} {s : String} {i j : Nat}
    (h : carried k more ls = ⟨.name s, i⟩ :: ⟨.punct .colon, j⟩ :: rest) :
    ∃ i' j' rest', ls = ⟨.name s, i'⟩ :: ⟨.punct .colon, j'⟩ :: rest' := by
  match ls, h with
  | [], h =>
    rw [carried_nil] at h
    subst h
    cases hmore _ rfl
  | [⟨t, i'⟩], h =>
    obtain ⟨-, h⟩ := List.cons.inj h
    have h : more = _ := h
    subst h
    cases hmore _ rfl
  | ⟨t, i'⟩ :: ⟨u, j'⟩ :: ls, h =>
    obtain ⟨hname, h⟩ := List.cons.inj h
    obtain ⟨hcolon, -⟩ := List.cons.inj h
    cases hname
    cases hcolon
    exact ⟨i', j', ls, rfl⟩

/-- A type and what is made of it. -/
theorem typed_carries {α : Type} (hsub : ∀ n, Carries k more n sub sub') (make : Ty → α) :
    Carries k more n (fun ts => sub ts >>= fun t => .ok (make t.1, t.2))
      (fun ts => sub' ts >>= fun t => .ok (make t.1, t.2)) :=
  (hsub n).bind fun t => .pure (make t)

theorem param_carries (hmore : Fenced more) (hsub : ∀ n, Carries k more n sub sub') (done : Params) :
    Carries k more n (param sub done) (param sub' done) := by
  intro ls ps rest hn h
  obtain ⟨hsame, hshorter⟩ := looks_eatReceiver? (k := k) hmore ls
  unfold param at h ⊢
  rw [hsame]
  cases hfound : eatReceiver? ls with
  | some ls₁ =>
    rw [hfound] at h
    dsimp only [Option.map_some] at h ⊢
    split at h
    · cases h
    · rename_i hfirst
      rw [if_neg hfirst]
      obtain ⟨hsuffix, hrest⟩ := typed_carries hsub (fun t => Params.mk (some t) done.positional) ls₁
        ps rest (Nat.le_refl _) h
      exact ⟨hsuffix.trans (hshorter ls₁ hfound).1, hrest⟩
  | none =>
    rw [hfound] at h
    dsimp only [Option.map_none] at h ⊢
    split at h
    · rename_i s i j ls
      obtain ⟨hsuffix, hrest⟩ := typed_carries hsub
        (fun t => Params.mk done.receiver (done.positional ++ [(some s, t)])) ls ps rest
        (Nat.le_refl _) h
      exact ⟨hsuffix.trans ((List.suffix_cons _ _).trans (List.suffix_cons _ _)), hrest⟩
    · rename_i hunnamed
      split
      · rename_i s i j ls₁ heq
        obtain ⟨i', j', ls', rfl⟩ := named_of_carried hmore heq
        exact absurd rfl (hunnamed s i' j' ls')
      · exact typed_carries hsub
          (fun t => Params.mk done.receiver (done.positional ++ [(none, t)])) ls ps rest hn h

theorem params_carries (hmore : Fenced more) (hsub : ∀ n, Carries k more n sub sub') :
    ∀ m limit limit' done, m < limit → limit ≤ limit' →
      Carries k more m (params sub limit done) (params sub' limit' done) := by
  intro m
  induction m using Nat.strong_induction_on with
  | _ m ih =>
    intro limit limit' done hlimit hlimit'
    obtain ⟨limit, rfl⟩ := Nat.exists_eq_succ_of_ne_zero (by omega : limit ≠ 0)
    obtain ⟨limit', rfl⟩ := Nat.exists_eq_succ_of_ne_zero (by omega : limit' ≠ 0)
    refine .bind (param_carries hmore hsub done) fun done' => ?_
    refine .look (looks_eat? hmore (by decide)) (fun m' hm' => ?_) (.pure done')
    exact ih m' hm' limit limit' done' (by omega) (by omega)

theorem functionOrGroup_carries (hmore : Fenced more) (hsub : ∀ n, Carries k more n sub sub') :
    Carries k more n (functionOrGroup sub) (functionOrGroup sub') := by
  have hparams : Carries k more n (fun ts => params sub (ts.length + 1) ⟨none, []⟩ ts)
      (fun ts => params sub' (ts.length + 1) ⟨none, []⟩ ts) :=
    .bounded fun m limit limit' hm hlimit =>
      params_carries hmore hsub m (limit + 1) (limit' + 1) _ (by omega) (by omega)
  have hlist : Carries k more n (paramList sub) (paramList sub') :=
    .ifAt hmore (by decide) (.pure _) hparams
  rw [funext (functionOrGroup_eq sub), funext (functionOrGroup_eq sub')]
  refine hlist.bind fun ps => ?_
  dsimp only
  refine .expect hmore (by decide) fun m _ => ?_
  refine .look (looks_eat? hmore (p := .arrow) (by decide)) (fun m' _ => ?_) ?_
  · exact typed_carries hsub fun result => Ty.function ps.positional result ps.receiver
  · intro ls t rest _ h
    dsimp only at h ⊢
    split at h
    · cases h
      exact ⟨List.suffix_refl _, rfl⟩
    · cases h

theorem className_carries (hmore : Fenced more) (name : String) :
    Carries k more n (className name) (className name) :=
  .look (looks_eatWord? hmore "as")
    (fun _ _ => identifier_carries.bind fun newName =>
      .pure (Ty.renamed (.user newName) (.resolve name)))
    (.pure (Ty.ofName name))

theorem primary_carries (hmore : Fenced more) (hsub : ∀ n, Carries k more n sub sub') :
    Carries k more n (primary sub) (primary sub') := by
  intro ls t rest hn h
  unfold primary at h
  split at h
  · cases h
    exact ⟨List.suffix_cons _ _, rfl⟩
  · rename_i s start ls
    obtain ⟨hsuffix, hread⟩ := className_carries (k := k) hmore s ls t rest (Nat.le_refl _) h
    exact ⟨hsuffix.trans (List.suffix_cons _ _), hread⟩
  · rename_i start ls
    obtain ⟨hsuffix, hread⟩ := object_carries hmore hsub ls t rest (Nat.le_refl _) h
    exact ⟨hsuffix.trans (List.suffix_cons _ _), hread⟩
  · rename_i start ls
    obtain ⟨hsuffix, hread⟩ := tuple_carries hmore hsub ls t rest (Nat.le_refl _) h
    exact ⟨hsuffix.trans (List.suffix_cons _ _), hread⟩
  · rename_i start ls
    obtain ⟨hsuffix, hread⟩ := functionOrGroup_carries hmore hsub ls t rest (Nat.le_refl _) h
    exact ⟨hsuffix.trans (List.suffix_cons _ _), hread⟩
  · cases h

theorem applied_eq (sub : Reads Ty) : applied sub = fun ts => primary sub ts >>= fun base =>
    match eat? .less base.2 with
    | some rest => sepBy .comma sub rest >>= fun args => expect .greater args.2 >>= fun close =>
      .ok (.generic base.1 args.1, close.2)
    | none => .ok (base.1, base.2) := by
  funext ts
  refine congrArg (primary sub ts >>= ·) (funext fun base => ?_)
  dsimp only
  cases eat? .less base.2 <;> rfl

theorem applied_carries (hmore : Fenced more) (hsub : ∀ n, Carries k more n sub sub') :
    Carries k more n (applied sub) (applied sub') := by
  rw [applied_eq, applied_eq]
  refine .bind (primary_carries hmore hsub) fun base => ?_
  dsimp only
  refine .look (looks_eat? hmore (by decide)) (fun m _ => ?_) (.pure base)
  refine (sepBy_carries hmore (by decide) hsub).bind fun args => ?_
  dsimp only
  exact .expect hmore (by decide) fun _ _ => .pure (Ty.generic base args)

theorem intersection_carries (hmore : Fenced more) (hsub : ∀ n, Carries k more n sub sub') :
    Carries k more n (intersection sub) (intersection sub') :=
  .bind (sepBy_carries hmore (by decide) fun _ => applied_carries hmore hsub) fun members =>
    .pure (Ty.intersectionOf members)

theorem union_carries (hmore : Fenced more) (hsub : ∀ n, Carries k more n sub sub') :
    Carries k more n (union sub) (union sub') :=
  .bind (sepBy_carries hmore (by decide) fun _ => intersection_carries hmore hsub) fun members =>
    .pure (Ty.unionOf members)

theorem typeAt_carries (hmore : Fenced more) : ∀ depth depth', depth ≤ depth' → ∀ n,
    Carries k more n (typeAt depth) (typeAt depth')
  | 0, _, _, _ => nofun
  | depth + 1, depth', hdepth, n => by
    obtain ⟨depth', rfl⟩ := Nat.exists_eq_succ_of_ne_zero (by omega : depth' ≠ 0)
    exact union_carries hmore (typeAt_carries hmore depth depth' (by omega))

theorem readType_carries (hmore : Fenced more) : Carries k more n readType readType :=
  .bounded (f := fun limit => typeAt (limit + 1)) fun m limit limit' _ hlimit =>
    typeAt_carries hmore (limit + 1) (limit' + 1) (by omega) m

end Types

end Signature
end Countersign
