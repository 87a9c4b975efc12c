/-
# The grammar of types, and that reading keeps to it

The grammar as rules that say which tokens stand for what, apart from any way of reading them:

    type         := intersection ('|' intersection)*
    intersection := applied ('&' applied)*
    applied      := primary ('<' type (',' type)* '>')?
    primary      := value | Name | Name 'as' Name | '\x7b' fields '\x7d' | '[' ']'
                  | '[' type (',' type)* ']' | '(' params ')' '=>' type | '(' type ')'
    fields       := (label ':' type (',' | ';')?)*
    params       := (param (',' param)*)? | 'this' ':' type (',' param)*
    param        := Name ':' type | type

A label is a name or a string, and no two fields of an object have the same one. No parameter but
the receiver is named `this`.

A reader takes its item off the front of the tokens, and the tokens that it takes are derived from
its nonterminal with the item as their meaning.

Key definitions: `Nonterminal`, `Derives`, `Sound`.
Key theorems: `typeAt_sound`, `parseType_derived`.
-/
import Countersign.Proofs.Signature.Written

namespace Countersign
namespace Signature

/-- The nonterminals of the grammar. A list has one or more items, with a mark between them. -/
inductive Nonterminal where
  | type
  | intersection
  | applied
  | primary
  | fields
  | params
  | param
  | list (mark : Punct) (item : Nonterminal)
  deriving Repr, DecidableEq, Inhabited

/-- What the tokens of a nonterminal mean. -/
@[reducible] def Nonterminal.Meaning : Nonterminal → Type
  | type => Ty
  | intersection => Ty
  | applied => Ty
  | primary => Ty
  | fields => List (String × Ty)
  | params => Params
  | param => Option String × Ty
  | list _ item => List item.Meaning

/-- The name of the field that a token labels: a name, or what a string has between its quotes. -/
def Token.label? : Token → Option String
  | .name s => some s
  | .value v => if v.kind = .string then some (unquote v.text) else none
  | .punct _ => none

/-- The tokens are derived from the nonterminal and mean this. -/
inductive Derives : (x : Nonterminal) → List Token → x.Meaning → Prop
  | last {x : Nonterminal} {mark : Punct} {ts : List Token} {a : x.Meaning} :
      Derives x ts a → Derives (.list mark x) ts [a]
  | next {x : Nonterminal} {mark : Punct} {ts us : List Token} {a : x.Meaning}
      {as : List x.Meaning} : Derives x ts a → Derives (.list mark x) us as →
      Derives (.list mark x) (ts ++ .punct mark :: us) (a :: as)
  | union {ts : List Token} {ms : List Ty} :
      Derives (.list .pipe .intersection) ts ms → Derives .type ts (.unionOf ms)
  | intersection {ts : List Token} {ms : List Ty} :
      Derives (.list .ampersand .applied) ts ms → Derives .intersection ts (.intersectionOf ms)
  | bare {ts : List Token} {t : Ty} : Derives .primary ts t → Derives .applied ts t
  | generic {ts us : List Token} {t : Ty} {as : List Ty} :
      Derives .primary ts t → Derives (.list .comma .type) us as →
      Derives .applied (ts ++ .punct .less :: (us ++ [.punct .greater])) (.generic t as)
  | value (v : Value) : Derives .primary [.value v] (.value v)
  | name (s : String) : Derives .primary [.name s] (.named ⟨s, isBuiltinClass s⟩)
  | renamed (s n : String) : Derives .primary [.name s, .name "as", .name n]
      (.renamed ⟨n, false⟩ ⟨s, isBuiltinClass s⟩)
  | object {ts : List Token} {fs : List (String × Ty)} : Derives .fields ts fs →
      Derives .primary (.punct .openBrace :: (ts ++ [.punct .closeBrace])) (.object fs)
  | emptyTuple : Derives .primary [.punct .openBracket, .punct .closeBracket] (.tuple [])
  | tuple {ts : List Token} {is : List Ty} : Derives (.list .comma .type) ts is →
      Derives .primary (.punct .openBracket :: (ts ++ [.punct .closeBracket])) (.tuple is)
  | function {ts us : List Token} {ps : Params} {r : Ty} :
      Derives .params ts ps → Derives .type us r →
      Derives .primary (.punct .openParen :: (ts ++ .punct .closeParen :: .punct .arrow :: us))
        (.function ps.positional r ps.receiver)
  | group {ts : List Token} {t : Ty} : Derives .type ts t →
      Derives .primary (.punct .openParen :: (ts ++ [.punct .closeParen])) t
  | noFields : Derives .fields [] []
  | field {label : Token} {name : String} {ts sep us : List Token} {t : Ty}
      {fs : List (String × Ty)} : label.label? = some name → Derives .type ts t →
      (sep = [] ∨ sep = [.punct .comma] ∨ sep = [.punct .semicolon]) → Derives .fields us fs →
      name ∉ fs.map (·.1) →
      Derives .fields (label :: .punct .colon :: (ts ++ (sep ++ us))) ((name, t) :: fs)
  | noParams : Derives .params [] ⟨none, []⟩
  | positional {ts : List Token} {ps : List (Option String × Ty)} :
      Derives (.list .comma .param) ts ps → Derives .params ts ⟨none, ps⟩
  | receiver {ts : List Token} {t : Ty} : Derives .type ts t →
      Derives .params (.name "this" :: .punct .colon :: ts) ⟨some t, []⟩
  | receiverFirst {ts us : List Token} {t : Ty} {ps : List (Option String × Ty)} :
      Derives .type ts t → Derives (.list .comma .param) us ps →
      Derives .params (.name "this" :: .punct .colon :: (ts ++ .punct .comma :: us)) ⟨some t, ps⟩
  | named {name : String} {ts : List Token} {t : Ty} : name ≠ "this" → Derives .type ts t →
      Derives .param (.name name :: .punct .colon :: ts) (some name, t)
  | unnamed {ts : List Token} {t : Ty} : Derives .type ts t → Derives .param ts (none, t)

/-- `item` takes tokens off the front that are derived from `x` and mean what it gives. -/
def Sound (x : Nonterminal) (item : Reads x.Meaning) : Prop :=
  ∀ ls a rest, item ls = .ok (a, rest) →
    ∃ used, ls = used ++ rest ∧ Derives x (used.map (·.token)) a

/-! ### Lists -/

section Lists

variable {x : Nonterminal} {p : Punct} {item : Reads x.Meaning}

/-- Further items go on from an item that stands before them. -/
theorem further_sound (hitem : Sound x item) (limit : Nat) : ∀ ls as rest,
    further p item limit ls = .ok (as, rest) → ∃ used, ls = used ++ rest ∧
      ∀ ts a, Derives x ts a → Derives (.list p x) (ts ++ used.map (·.token)) (a :: as) := by
  induction limit with
  | zero =>
    intro ls as rest h
    cases h
    refine ⟨[], rfl, fun ts a ha => ?_⟩
    rw [List.map_nil, List.append_nil]
    exact .last ha
  | succ limit ih =>
    intro ls as rest h
    rw [further] at h
    split at h
    · cases h
      refine ⟨[], rfl, fun ts a ha => ?_⟩
      rw [List.map_nil, List.append_nil]
      exact .last ha
    · rename_i ls₁ heat
      obtain ⟨start, rfl⟩ := eat?_some heat
      obtain ⟨⟨b, ls₂⟩, hb, h⟩ := ok_of_bind h
      obtain ⟨⟨bs, ls₃⟩, hbs, h⟩ := ok_of_bind h
      cases h
      obtain ⟨used₁, rfl, hderived⟩ := hitem _ _ _ hb
      obtain ⟨used₂, rfl, hmore⟩ := ih _ _ _ hbs
      refine ⟨⟨.punct p, start⟩ :: (used₁ ++ used₂), by simp, fun ts a ha => ?_⟩
      have hlist := Derives.next ha (hmore _ _ hderived)
      simpa using hlist

theorem sepBy_sound (hitem : Sound x item) : Sound (.list p x) (sepBy p item) := by
  intro ls as rest h
  obtain ⟨⟨a, ls₁⟩, ha, h⟩ := ok_of_bind h
  obtain ⟨⟨more, ls₂⟩, hmore, h⟩ := ok_of_bind h
  cases h
  obtain ⟨used₁, rfl, hderived⟩ := hitem _ _ _ ha
  obtain ⟨used₂, rfl, hlist⟩ := further_sound hitem _ _ _ _ hmore
  refine ⟨used₁ ++ used₂, by simp, ?_⟩
  rw [List.map_append]
  exact hlist _ _ hderived

end Lists

variable {sub : Reads Ty}

/-! ### Objects and tuples -/

theorem fieldName_label {ls rest : List Lexeme} {name : String}
    (h : fieldName ls = .ok (name, rest)) :
    ∃ l, ls = l :: rest ∧ l.token.label? = some name := by
  unfold fieldName at h
  split at h
  · cases h
    exact ⟨_, rfl, rfl⟩
  · rename_i v start more
    split at h
    · rename_i hkind
      cases h
      exact ⟨_, rfl, if_pos hkind⟩
    · cases h
  · cases h

theorem skipSeparator_cases (ls : List Lexeme) : ∃ sep, ls = sep ++ skipSeparator ls ∧
    (sep.map (·.token) = [] ∨ sep.map (·.token) = [.punct .comma] ∨
      sep.map (·.token) = [.punct .semicolon]) := by
  unfold skipSeparator
  split
  · rename_i rest heat
    obtain ⟨start, rfl⟩ := eat?_some heat
    exact ⟨[⟨.punct .comma, start⟩], rfl, .inr (.inl rfl)⟩
  · cases heat : eat? .semicolon ls with
    | none => exact ⟨[], rfl, .inl rfl⟩
    | some rest =>
      obtain ⟨start, rfl⟩ := eat?_some heat
      exact ⟨[⟨.punct .semicolon, start⟩], rfl, .inr (.inr rfl)⟩

/-- Fields are read after those in `done`, whose names they do not repeat. -/
theorem fields_sound (hsub : Sound .type sub) (limit : Nat) : ∀ done ls fs rest,
    fields sub limit done ls = .ok (fs, rest) → ∃ more used, fs = done ++ more ∧
      ls = used ++ rest ∧ Derives .fields (used.map (·.token)) more ∧
        ∀ f ∈ more, done.any (·.1 == f.1) = false := by
  induction limit with
  | zero =>
    intro done ls fs rest h
    cases h
    exact ⟨[], [], by simp, rfl, .noFields, by simp⟩
  | succ limit ih =>
    intro done ls fs rest h
    rw [fields_succ] at h
    split at h
    · cases h
      exact ⟨[], [], by simp, rfl, .noFields, by simp⟩
    · obtain ⟨⟨name, ls₁⟩, hname, hnext⟩ := ok_of_bind h
      obtain ⟨l, rfl, hlabel⟩ := fieldName_label hname
      dsimp only at hnext
      split at hnext
      · cases hnext
      · rename_i hnew
        obtain ⟨⟨u, ls₂⟩, hcolon, htype⟩ := ok_of_bind hnext
        obtain ⟨start, rfl⟩ := expect_ok hcolon
        obtain ⟨⟨t, ls₃⟩, ht, hfields⟩ := ok_of_bind htype
        obtain ⟨used₁, rfl, hderived⟩ := hsub _ _ _ ht
        obtain ⟨sep, hsep, hcases⟩ := skipSeparator_cases ls₃
        obtain ⟨more, used₂, rfl, hrest, hmore, hdistinct⟩ := ih _ _ _ _ hfields
        have hfresh : ∀ f ∈ more, done.any (·.1 == f.1) = false ∧ name ≠ f.1 := by
          intro f hf
          have hboth := hdistinct f hf
          rw [List.any_append, Bool.or_eq_false_iff] at hboth
          exact ⟨hboth.1, by simpa using hboth.2⟩
        have hnotMem : name ∉ more.map (·.1) := by
          intro hmem
          obtain ⟨f, hf, hfname⟩ := List.mem_map.mp hmem
          exact (hfresh f hf).2 hfname.symm
        refine ⟨(name, t) :: more, l :: ⟨.punct .colon, start⟩ :: (used₁ ++ (sep ++ used₂)),
          by simp, ?_, ?_, ?_⟩
        · rw [hrest] at hsep
          simp [hsep]
        · have hfield := Derives.field hlabel hderived hcases hmore hnotMem
          simpa using hfield
        · intro f hf
          rcases List.mem_cons.mp hf with rfl | hf
          · exact Bool.eq_false_iff.mpr hnew
          · exact (hfresh f hf).1

theorem object_sound (hsub : Sound .type sub) {ls rest : List Lexeme} {t : Ty}
    (h : object sub ls = .ok (t, rest)) : ∃ used, ls = used ++ rest ∧
      Derives .primary (.punct .openBrace :: used.map (·.token)) t := by
  obtain ⟨⟨fs, ls₁⟩, hfs, h⟩ := ok_of_bind h
  obtain ⟨⟨u, ls₂⟩, hclose, h⟩ := ok_of_bind h
  obtain ⟨stop, rfl⟩ := expect_ok hclose
  cases h
  obtain ⟨more, used, rfl, rfl, hderived, -⟩ := fields_sound hsub _ _ _ _ _ hfs
  refine ⟨used ++ [⟨.punct .closeBrace, stop⟩], by simp, ?_⟩
  have hobject := Derives.object hderived
  simpa using hobject

theorem tuple_sound (hsub : Sound .type sub) {ls rest : List Lexeme} {t : Ty}
    (h : tuple sub ls = .ok (t, rest)) : ∃ used, ls = used ++ rest ∧
      Derives .primary (.punct .openBracket :: used.map (·.token)) t := by
  rw [tuple_eq] at h
  obtain ⟨⟨items, ls₁⟩, hitems, h⟩ := ok_of_bind h
  obtain ⟨⟨u, ls₂⟩, hclose, h⟩ := ok_of_bind h
  obtain ⟨stop, rfl⟩ := expect_ok hclose
  cases h
  unfold tupleItems at hitems
  split at hitems
  · cases hitems
    exact ⟨[⟨.punct .closeBracket, stop⟩], rfl, .emptyTuple⟩
  · obtain ⟨used, rfl, hderived⟩ := sepBy_sound hsub _ _ _ hitems
    refine ⟨used ++ [⟨.punct .closeBracket, stop⟩], by simp, ?_⟩
    have htuple := Derives.tuple hderived
    simpa using htuple

/-! ### Functions and groups -/

/-- A parameter is a receiver, which nothing stands before, or one more positional parameter. -/
theorem param_sound (hsub : Sound .type sub) {done ps : Params} {ls rest : List Lexeme}
    (h : param sub done ls = .ok (ps, rest)) :
    (∃ t ts used, done = ⟨none, []⟩ ∧ ps = ⟨some t, []⟩ ∧ ls = used ++ rest ∧
      used.map (·.token) = .name "this" :: .punct .colon :: ts ∧ Derives .type ts t) ∨
    ∃ p used, ps = { done with positional := done.positional ++ [p] } ∧ ls = used ++ rest ∧
      Derives .param (used.map (·.token)) p := by
  unfold param at h
  split at h
  · rename_i ls₁ heat
    obtain ⟨ls₂, hword, hcolon⟩ := Option.bind_eq_some_iff.mp heat
    obtain ⟨start, rfl⟩ := eatWord?_some hword
    obtain ⟨start', rfl⟩ := eat?_some hcolon
    split at h
    · cases h
    · rename_i hfirst
      obtain ⟨⟨t, ls₃⟩, ht, h⟩ := ok_of_bind h
      cases h
      obtain ⟨used, rfl, hderived⟩ := hsub _ _ _ ht
      obtain ⟨receiver, positional⟩ := done
      obtain ⟨rfl, rfl⟩ : receiver = none ∧ positional = [] := by simpa using hfirst
      exact .inl ⟨t, _, ⟨.name "this", start⟩ :: ⟨.punct .colon, start'⟩ :: used, rfl, rfl, rfl,
        rfl, hderived⟩
  · rename_i hnone
    refine .inr ?_
    split at h
    · rename_i s start start' ls₁
      obtain ⟨⟨t, ls₂⟩, ht, h⟩ := ok_of_bind h
      cases h
      obtain ⟨used, rfl, hderived⟩ := hsub _ _ _ ht
      exact ⟨(some s, t), ⟨.name s, start⟩ :: ⟨.punct .colon, start'⟩ :: used, rfl, rfl,
        .named (ne_this_of_eatReceiver? hnone) hderived⟩
    · obtain ⟨⟨t, ls₂⟩, ht, h⟩ := ok_of_bind h
      cases h
      obtain ⟨used, rfl, hderived⟩ := hsub _ _ _ ht
      exact ⟨(none, t), used, rfl, rfl, .unnamed hderived⟩

/-- Parameters after the first one are positional. The limit is never reached: every comma is a
token less. -/
theorem params_sound (hsub : Sound .type sub) (limit : Nat) : ∀ done ls ps rest,
    ls.length < limit → done ≠ ⟨none, []⟩ → params sub limit done ls = .ok (ps, rest) →
      ∃ more used, ps = { done with positional := done.positional ++ more } ∧ ls = used ++ rest ∧
        Derives (.list .comma .param) (used.map (·.token)) more := by
  induction limit with
  | zero =>
    intro done ls ps rest hlimit
    omega
  | succ limit ih =>
    intro done ls ps rest hlimit hdone h
    obtain ⟨⟨done', ls₁⟩, hparam, hnext⟩ := ok_of_bind h
    rcases param_sound hsub hparam with ⟨_, _, _, rfl, _⟩ | ⟨p, used, rfl, rfl, hderived⟩
    · exact absurd rfl hdone
    · dsimp only at hnext
      split at hnext
      · rename_i ls₂ heat
        obtain ⟨start, rfl⟩ := eat?_some heat
        have hlength : ls₂.length < limit := by
          simp only [List.length_append, List.length_cons] at hlimit
          omega
        have hsome : ({ done with positional := done.positional ++ [p] } : Params) ≠ ⟨none, []⟩ := by
          simp
        obtain ⟨more, used', rfl, rfl, hmore⟩ := ih _ _ _ _ hlength hsome hnext
        refine ⟨p :: more, used ++ ⟨.punct .comma, start⟩ :: used', by simp, by simp, ?_⟩
        have hlist := Derives.next hderived hmore
        simpa using hlist
      · cases hnext
        exact ⟨[p], used, rfl, rfl, .last hderived⟩

theorem paramList_sound (hsub : Sound .type sub) : Sound .params (paramList sub) := by
  intro ls ps rest h
  unfold paramList at h
  split at h
  · cases h
    exact ⟨[], rfl, .noParams⟩
  · obtain ⟨⟨done, ls₁⟩, hparam, h⟩ := ok_of_bind h
    simp only at h
    rcases param_sound hsub hparam with ⟨t, ts, used, -, rfl, rfl, hused, hderived⟩ |
      ⟨p, used, rfl, rfl, hderived⟩
    · split at h
      · rename_i ls₂ heat
        obtain ⟨start, rfl⟩ := eat?_some heat
        obtain ⟨more, used', rfl, rfl, hmore⟩ := params_sound hsub _ _ _ _ _
          (by simp; omega) (by simp) h
        refine ⟨used ++ ⟨.punct .comma, start⟩ :: used', by simp, ?_⟩
        have hparams := Derives.receiverFirst hderived hmore
        simpa [hused] using hparams
      · cases h
        refine ⟨used, rfl, ?_⟩
        rw [hused]
        exact .receiver hderived
    · split at h
      · rename_i ls₂ heat
        obtain ⟨start, rfl⟩ := eat?_some heat
        obtain ⟨more, used', rfl, rfl, hmore⟩ := params_sound hsub _ _ _ _ _
          (by simp; omega) (by simp) h
        refine ⟨used ++ ⟨.punct .comma, start⟩ :: used', by simp, ?_⟩
        have hlist := Derives.next hderived hmore
        have hparams := Derives.positional hlist
        simpa using hparams
      · cases h
        exact ⟨used, rfl, .positional (.last hderived)⟩

/-- A single parameter without a name is a type. -/
theorem type_of_params {ts : List Token} {t : Ty} (h : Derives .params ts ⟨none, [(none, t)]⟩) :
    Derives .type ts t := by
  cases h with
  | positional hlist =>
    cases hlist with
    | last hparam =>
      cases hparam with
      | unnamed ht => exact ht
    | next _ hmore => nomatch hmore

theorem functionOrGroup_sound (hsub : Sound .type sub) {ls rest : List Lexeme} {t : Ty}
    (h : functionOrGroup sub ls = .ok (t, rest)) : ∃ used, ls = used ++ rest ∧
      Derives .primary (.punct .openParen :: used.map (·.token)) t := by
  rw [functionOrGroup_eq] at h
  obtain ⟨⟨ps, ls₁⟩, hps, htail⟩ := ok_of_bind h
  obtain ⟨⟨u, ls₂⟩, hclose, htail⟩ := ok_of_bind htail
  obtain ⟨stop, rfl⟩ := expect_ok hclose
  obtain ⟨used, rfl, hparams⟩ := paramList_sound hsub _ _ _ hps
  unfold functionOrGroupTail at htail
  split at htail
  · rename_i ls₃ heat
    obtain ⟨start, rfl⟩ := eat?_some heat
    obtain ⟨⟨r, ls₄⟩, hr, hlast⟩ := ok_of_bind htail
    cases hlast
    obtain ⟨used', rfl, hresult⟩ := hsub _ _ _ hr
    refine ⟨used ++ ⟨.punct .closeParen, stop⟩ :: ⟨.punct .arrow, start⟩ :: used', by simp, ?_⟩
    have hfunction := Derives.function hparams hresult
    simpa using hfunction
  · split at htail
    · rename_i hsingle
      cases htail
      obtain rfl : ps = ⟨none, [(none, t)]⟩ := hsingle
      refine ⟨used ++ [⟨.punct .closeParen, stop⟩], by simp, ?_⟩
      have hgroup := Derives.group (type_of_params hparams)
      simpa using hgroup
    · cases htail

/-! ### Types -/

theorem className_sound {name : String} {ls rest : List Lexeme} {t : Ty}
    (h : className name ls = .ok (t, rest)) : ∃ used, ls = used ++ rest ∧
      Derives .primary (.name name :: used.map (·.token)) t := by
  unfold className at h
  split at h
  · rename_i ls₁ heat
    obtain ⟨start, rfl⟩ := eatWord?_some heat
    obtain ⟨⟨newName, ls₂⟩, hnew, h⟩ := ok_of_bind h
    cases h
    unfold identifier at hnew
    split at hnew
    · rename_i s start' ls₃
      cases hnew
      exact ⟨[⟨.name "as", start⟩, ⟨.name newName, start'⟩], rfl, .renamed name newName⟩
    · cases hnew
  · cases h
    exact ⟨[], rfl, .name name⟩

theorem primary_sound (hsub : Sound .type sub) : Sound .primary (primary sub) := by
  intro ls t rest h
  unfold primary at h
  split at h
  · rename_i v start ls₁
    cases h
    exact ⟨[⟨.value v, start⟩], rfl, .value v⟩
  · rename_i s start ls₁
    obtain ⟨used, rfl, hderived⟩ := className_sound h
    exact ⟨⟨.name s, start⟩ :: used, rfl, hderived⟩
  · rename_i start ls₁
    obtain ⟨used, rfl, hderived⟩ := object_sound hsub h
    exact ⟨⟨.punct .openBrace, start⟩ :: used, rfl, hderived⟩
  · rename_i start ls₁
    obtain ⟨used, rfl, hderived⟩ := tuple_sound hsub h
    exact ⟨⟨.punct .openBracket, start⟩ :: used, rfl, hderived⟩
  · rename_i start ls₁
    obtain ⟨used, rfl, hderived⟩ := functionOrGroup_sound hsub h
    exact ⟨⟨.punct .openParen, start⟩ :: used, rfl, hderived⟩
  · cases h

theorem applied_sound (hsub : Sound .type sub) : Sound .applied (applied sub) := by
  intro ls t rest h
  obtain ⟨⟨base, ls₁⟩, hbase, hnext⟩ := ok_of_bind h
  obtain ⟨used, rfl, hderived⟩ := primary_sound hsub _ _ _ hbase
  dsimp only at hnext
  split at hnext
  · cases hnext
    exact ⟨used, rfl, .bare hderived⟩
  · rename_i ls₂ heat
    obtain ⟨start, rfl⟩ := eat?_some heat
    obtain ⟨⟨args, ls₃⟩, hargs, hend⟩ := ok_of_bind hnext
    obtain ⟨⟨u, ls₄⟩, hclose, hlast⟩ := ok_of_bind hend
    obtain ⟨stop, rfl⟩ := expect_ok hclose
    cases hlast
    obtain ⟨used', rfl, hlist⟩ := sepBy_sound hsub _ _ _ hargs
    refine ⟨used ++ ⟨.punct .less, start⟩ :: (used' ++ [⟨.punct .greater, stop⟩]), by simp, ?_⟩
    have hgeneric := Derives.generic hderived hlist
    simpa using hgeneric

theorem intersection_sound (hsub : Sound .type sub) : Sound .intersection (intersection sub) := by
  intro ls t rest h
  obtain ⟨⟨members, ls₁⟩, hmembers, h⟩ := ok_of_bind h
  cases h
  obtain ⟨used, rfl, hlist⟩ := sepBy_sound (applied_sound hsub) _ _ _ hmembers
  exact ⟨used, rfl, .intersection hlist⟩

theorem union_sound (hsub : Sound .type sub) : Sound .type (union sub) := by
  intro ls t rest h
  obtain ⟨⟨members, ls₁⟩, hmembers, h⟩ := ok_of_bind h
  cases h
  obtain ⟨used, rfl, hlist⟩ := sepBy_sound (intersection_sound hsub) _ _ _ hmembers
  exact ⟨used, rfl, .union hlist⟩

/-- Reading a type keeps to the grammar, however deep types are nested. -/
theorem typeAt_sound (depth : Nat) : Sound .type (typeAt depth) := by
  induction depth with
  | zero =>
    intro ls t rest h
    cases h
  | succ depth ih => exact union_sound ih

/-- What is read from a text is read from all of its tokens. -/
theorem typeAt_of_parseType {text : String} {t : Ty} (h : parseType text = .ok t) :
    ∃ ls, tokenize text.toList = .ok ls ∧ typeAt (ls.length + 1) ls = .ok (t, []) := by
  obtain ⟨c, hc, h⟩ := ok_of_bind h
  unfold Cursor.ofText at hc
  split at hc
  · rename_i ls hls
    cases hc
    refine ⟨ls, hls, ?_⟩
    unfold Cursor.read at h
    split at h
    · rename_i u rest hread
      cases h
      obtain ⟨⟨v, ls₁⟩, hv, hend⟩ := ok_of_bind hread
      obtain ⟨⟨u, ls₂⟩, hnone, hlast⟩ := ok_of_bind hend
      cases hlast
      unfold endOfInput at hnone
      split at hnone
      · exact hv
      · cases hnone
    · cases h
  · cases hc

/-- **Reading is sound for the grammar.** If a text is read as a type, the text is split into
tokens, and all of these together are derived as a type that means the type read. -/
theorem parseType_derived {text : String} {t : Ty} (h : parseType text = .ok t) :
    ∃ ls, tokenize text.toList = .ok ls ∧ Derives .type (ls.map (·.token)) t := by
  obtain ⟨ls, hls, hread⟩ := typeAt_of_parseType h
  obtain ⟨used, hused, hderived⟩ := typeAt_sound _ _ _ _ hread
  rw [List.append_nil] at hused
  exact ⟨ls, hls, hused ▸ hderived⟩

/-- A function with a receiver, whose result is an applied group: every rule has its part in it. -/
def serverText : String :=
  "(this: Server, port: 80 | -1, (Request as R) => void) => (\x7b 'c-d': [], e: A; \x7d & [B])<C, ()=>D>"

theorem parseType_derived_server : ∃ t, parseType serverText = .ok t ∧
    ∃ ls, tokenize serverText.toList = .ok ls ∧ Derives .type (ls.map (·.token)) t := by
  have hread : (parseType serverText).isOk = true := by decide +kernel
  obtain ⟨t, h⟩ := ok_of_isOk hread
  exact ⟨t, h, parseType_derived h⟩

end Signature
end Countersign
