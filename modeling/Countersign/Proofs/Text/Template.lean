/-
# Filling templates key by key, and at once

Filling goes key by key over the text that has grown so far. What it should come to is the template
with every hole replaced once, by the value of its key (`fillAtOnce`). The two differ where a hole
comes up that the template does not have: inside a value, or where a value meets what stands beside
it.

Where the holes of a template are set apart from each other and from all other braces (`Fenced`), as
in every message, the first is the only way: each value is itself filled by the keys behind its own
(`fill_eq_settled`). So templates of this kind are filled at once if and only if no value is changed
by the keys behind it. Where no value has a brace, and braces only stand in pairs, all holes are
those of the template (`fill_of_plain`).

Key definitions: `Template.fillAtOnce`, `Template.settled`, `Template.Fenced`, `Template.Paired`.
Key theorems: `Template.fill_eq_settled`, `Template.fill_of_plain`, `Diagnostic.message_eq`,
`Template.filled_at_once`.
-/
import Countersign.Diagnostic
import Countersign.Proofs.Text.Runs

namespace Countersign
namespace Template

/-- The keys with the texts that stand for them; a key without a value has a question mark. -/
def texts (values : List (String × Option String)) : List (String × String) :=
  values.map fun v => (v.1, v.2.getD "?")

/-- Replaces the hole of every key from left to right, after passing over `skip` characters that a
replacement already stands for. -/
def fillFrom (values : List (String × String)) : ℕ → List Char → List Char
  | _, [] => []
  | skip + 1, _ :: cs => fillFrom values skip cs
  | 0, c :: cs =>
    match values.find? fun v => (hole v.1).toList.isPrefixOf (c :: cs) with
    | some v => v.2.toList ++ fillFrom values ((hole v.1).toList.length - 1) cs
    | none => c :: fillFrom values 0 cs

/-- The template with each of its holes replaced once, by the text for its key. -/
def fillAtOnce (template : String) (values : List (String × String)) : String :=
  String.ofList (fillFrom values 0 template.toList)

/-- Each key with its text, filled by the keys behind it. -/
def settled : List (String × Option String) → List (String × String)
  | [] => []
  | (key, v) :: rest => (key, fill (v.getD "?") rest) :: settled rest

/-- Neither brace. -/
def Plain (text : List Char) : Prop := '\x7b' ∉ text ∧ '\x7d' ∉ text

/-- Exactly the hole of one of the keys, or a text without any. -/
def Block (keys : List String) (block : List Char) : Prop :=
  (∃ key ∈ keys, block = (hole key).toList) ∨ ∀ key ∈ keys, ¬ (hole key).toList <:+: block

/-- On both sides of each hole there is an end of the text or a character that is in no hole. -/
inductive Fenced (keys : List String) : List Char → Prop
  | block {b : List Char} : Block keys b → Fenced keys b
  | fence {b text : List Char} {f : Char} : Block keys b → (∀ key ∈ keys, f ∉ (hole key).toList) →
      Fenced keys text → Fenced keys (b ++ f :: text)

/-- Each opening brace is closed before the next one opens. -/
inductive Paired : List Char → Prop
  | nil : Paired []
  | char {c : Char} {text : List Char} : Plain [c] → Paired text → Paired (c :: text)
  | pair {inner text : List Char} : Plain inner → Paired text →
      Paired ('\x7b' :: (inner ++ '\x7d' :: text))

/-! ### Holes -/

theorem hole_toList (key : String) : (hole key).toList = '\x7b' :: (key.toList ++ ['\x7d']) := by
  simp [hole]

theorem hole_ne_nil (key : String) : (hole key).toList ≠ [] := by
  rw [hole_toList]
  exact List.cons_ne_nil _ _

/-- A hole begins a text just if it is the first pair of braces there. -/
theorem hole_prefix_pair {key : String} {inner text : List Char} (hkey : Plain key.toList)
    (hinner : Plain inner) :
    (hole key).toList <+: '\x7b' :: (inner ++ '\x7d' :: text) ↔ key.toList = inner := by
  rw [hole_toList, List.prefix_cons_inj]
  constructor
  · rintro ⟨rest, hrest⟩
    rw [List.append_assoc, List.singleton_append] at hrest
    exact before_unique hkey.2 hinner.2 hrest
  · rintro rfl
    exact ⟨text, by simp⟩

/-! ### All keys at once -/

section AtOnce

variable {values : List (String × String)}

/-- What stands for a pair of braces: the text of the key inside, or the pair itself. -/
def standsFor (values : List (String × String)) (inner : List Char) : List Char :=
  match values.find? (·.1.toList == inner) with
  | some v => v.2.toList
  | none => '\x7b' :: (inner ++ ['\x7d'])

theorem standsFor_cons_self (v : String × String) (rest : List (String × String)) :
    standsFor (v :: rest) v.1.toList = v.2.toList := by
  simp only [standsFor, List.find?_cons, beq_self_eq_true]

theorem standsFor_cons_of_ne {v : String × String} {inner : List Char} (h : v.1.toList ≠ inner)
    (rest : List (String × String)) : standsFor (v :: rest) inner = standsFor rest inner := by
  rw [standsFor, List.find?_cons_of_neg (by simpa using h), standsFor]

theorem fillFrom_drop (values : List (String × String)) (text : List Char) :
    ∀ skip, fillFrom values skip text = fillFrom values 0 (text.drop skip) := by
  induction text with
  | nil =>
    intro skip
    rw [List.drop_nil, fillFrom, fillFrom]
  | cons c text ih =>
    intro skip
    cases skip with
    | zero => rfl
    | succ skip => exact ih skip

theorem fillFrom_of_find?_none {c : Char} {text : List Char}
    (h : values.find? (fun v => (hole v.1).toList.isPrefixOf (c :: text)) = none) :
    fillFrom values 0 (c :: text) = c :: fillFrom values 0 text := by
  rw [fillFrom, h]

/-- Filling goes on afresh behind a character that is in no hole. -/
theorem fillFrom_fence {f : Char} (hf : ∀ v ∈ values, f ∉ (hole v.1).toList) (b a : List Char) :
    ∀ skip ≤ a.length,
      fillFrom values skip (a ++ f :: b) = fillFrom values skip a ++ f :: fillFrom values 0 b := by
  induction a with
  | nil =>
    intro skip hskip
    obtain rfl : skip = 0 := Nat.le_zero.mp hskip
    have hnone : values.find? (fun v => (hole v.1).toList.isPrefixOf (f :: b)) = none := by
      refine List.find?_eq_none.mpr fun v hv => ?_
      have hempty := isPrefixOf_fence (a := []) (b := b) (hf v hv)
      rw [List.nil_append] at hempty
      rw [hempty, List.isPrefixOf_iff_prefix, List.prefix_nil]
      exact hole_ne_nil v.1
    rw [List.nil_append, fillFrom_of_find?_none hnone]
    rfl
  | cons c a ih =>
    intro skip hskip
    cases skip with
    | succ skip => exact ih skip (Nat.le_of_succ_le_succ hskip)
    | zero =>
      have hsame : values.find? (fun v => (hole v.1).toList.isPrefixOf (c :: (a ++ f :: b))) =
          values.find? (fun v => (hole v.1).toList.isPrefixOf (c :: a)) :=
        List.find?_congr fun v hv => isPrefixOf_fence (a := c :: a) (hf v hv)
      rw [List.cons_append, fillFrom, fillFrom, hsame]
      split
      · rename_i v hfind
        have hstarts : (hole v.1).toList.isPrefixOf (c :: a) = true :=
          List.find?_some (p := fun v : String × String => (hole v.1).toList.isPrefixOf (c :: a)) hfind
        have hle := (List.isPrefixOf_iff_prefix.mp hstarts).length_le
        rw [List.length_cons] at hle
        rw [ih _ (by omega), List.append_assoc]
      · rw [ih 0 (Nat.zero_le _), List.cons_append]

theorem fillFrom_of_holeless {text : List Char}
    (h : ∀ v ∈ values, ¬ (hole v.1).toList <:+: text) : fillFrom values 0 text = text := by
  induction text with
  | nil => rfl
  | cons c text ih =>
    have hnone : values.find? (fun v => (hole v.1).toList.isPrefixOf (c :: text)) = none := by
      refine List.find?_eq_none.mpr fun v hv => ?_
      exact fun hstarts => h v hv (List.isPrefixOf_iff_prefix.mp hstarts).isInfix
    have hrest : ∀ v ∈ values, ¬ (hole v.1).toList <:+: text := fun v hv hinside =>
      h v hv (List.infix_cons_iff.mpr (.inr hinside))
    rw [fillFrom_of_find?_none hnone, ih hrest]

/-- No hole begins in a text without an opening brace. -/
theorem fillFrom_append_of_notMem (values : List (String × String)) {a : List Char}
    (ha : '\x7b' ∉ a) (b : List Char) :
    fillFrom values 0 (a ++ b) = a ++ fillFrom values 0 b := by
  induction a with
  | nil => rfl
  | cons c a ih =>
    obtain ⟨hc, ha⟩ := not_or.mp (fun h => ha (List.mem_cons.mpr h))
    have hnone : values.find? (fun v => (hole v.1).toList.isPrefixOf (c :: (a ++ b))) = none := by
      refine List.find?_eq_none.mpr fun v _ => ?_
      rw [hole_toList, List.isPrefixOf_cons_cons, beq_eq_false_iff_ne.mpr hc]
      exact Bool.false_ne_true
    rw [List.cons_append, fillFrom_of_find?_none hnone, ih ha, List.cons_append]

theorem fillFrom_pair (hplain : ∀ v ∈ values, Plain v.1.toList) {inner : List Char}
    (hinner : Plain inner) (text : List Char) :
    fillFrom values 0 ('\x7b' :: (inner ++ '\x7d' :: text)) =
      standsFor values inner ++ fillFrom values 0 text := by
  have hfind : values.find? (fun v =>
      (hole v.1).toList.isPrefixOf ('\x7b' :: (inner ++ '\x7d' :: text))) =
      values.find? (·.1.toList == inner) := by
    refine List.find?_congr fun v hv => ?_
    rw [Bool.eq_iff_iff, List.isPrefixOf_iff_prefix, hole_prefix_pair (hplain v hv) hinner,
      beq_iff_eq]
  cases hkey : values.find? (·.1.toList == inner) with
  | none =>
    rw [fillFrom_of_find?_none (hfind.trans hkey), fillFrom_append_of_notMem values hinner.1,
      standsFor, hkey]
    -- The closing brace opens no hole either.
    have hclose := fillFrom_append_of_notMem values (a := ['\x7d']) (by decide) text
    rw [List.singleton_append] at hclose
    rw [hclose]
    simp
  | some v =>
    have hv : v.1.toList = inner := by
      simpa using List.find?_some (p := fun v : String × String => v.1.toList == inner) hkey
    have hdrop : (inner ++ '\x7d' :: text).drop ((hole v.1).toList.length - 1) = text := by
      rw [hole_toList, hv]
      simp
    rw [fillFrom, hfind, hkey]
    show v.2.toList ++ fillFrom values _ _ = _
    rw [fillFrom_drop, hdrop, standsFor, hkey]

theorem fillFrom_hole (hplain : ∀ v ∈ values, Plain v.1.toList) {key : String}
    (hkey : Plain key.toList) :
    fillFrom values 0 (hole key).toList = standsFor values key.toList := by
  rw [hole_toList, fillFrom_pair hplain hkey, fillFrom, List.append_nil]

end AtOnce

/-! ### One key after the other -/

/-- The text with the holes of every key filled in turn. -/
def fillInTurn (values : List (String × String)) (text : List Char) : List Char :=
  values.foldl (fun text v => fillFrom [v] 0 text) text

theorem replaceFrom_eq_fillFrom (key value : String) (text : List Char) : ∀ skip,
    replaceFrom (hole key).toList value.toList skip text = fillFrom [(key, value)] skip text := by
  induction text with
  | nil =>
    intro skip
    rw [replaceFrom, fillFrom]
  | cons c text ih =>
    intro skip
    cases skip with
    | succ skip => exact ih skip
    | zero =>
      rw [replaceFrom, fillFrom, List.find?_singleton]
      cases (hole key).toList.isPrefixOf (c :: text) with
      | true => exact congrArg (value.toList ++ ·) (ih _)
      | false => exact congrArg (c :: ·) (ih 0)

theorem fill_toList (template : String) (values : List (String × Option String)) :
    (fill template values).toList = fillInTurn (texts values) template.toList := by
  induction values generalizing template with
  | nil => rfl
  | cons v rest ih =>
    show (fill (replaceAll template (hole v.1) (v.2.getD "?")) rest).toList = _
    rw [ih, replaceAll, String.toList_ofList, replaceFrom_eq_fillFrom]
    rfl

theorem texts_keys (values : List (String × Option String)) :
    (texts values).map (·.1) = values.map (·.1) := by
  rw [texts, List.map_map]
  rfl

theorem settled_keys (values : List (String × Option String)) :
    (settled values).map (·.1) = values.map (·.1) := by
  induction values with
  | nil => rfl
  | cons v rest ih => rw [settled, List.map_cons, List.map_cons, ih]

section InTurn

variable {values : List (String × String)}

theorem fillInTurn_fence {f : Char} (hf : ∀ v ∈ values, f ∉ (hole v.1).toList) (a b : List Char) :
    fillInTurn values (a ++ f :: b) = fillInTurn values a ++ f :: fillInTurn values b := by
  induction values generalizing a b with
  | nil => rfl
  | cons v rest ih =>
    obtain ⟨hv, hrest⟩ := List.forall_mem_cons.mp hf
    show fillInTurn rest (fillFrom [v] 0 (a ++ f :: b)) = _
    rw [fillFrom_fence (List.forall_mem_singleton.mpr hv) b a 0 (Nat.zero_le _), ih hrest]
    rfl

theorem fillInTurn_of_holeless {text : List Char}
    (h : ∀ v ∈ values, ¬ (hole v.1).toList <:+: text) : fillInTurn values text = text := by
  induction values with
  | nil => rfl
  | cons v rest ih =>
    obtain ⟨hv, hrest⟩ := List.forall_mem_cons.mp h
    show fillInTurn rest (fillFrom [v] 0 text) = text
    rw [fillFrom_of_holeless (List.forall_mem_singleton.mpr hv), ih hrest]

end InTurn

/-- A value without the holes of the keys is not changed by them. -/
theorem fill_of_holeless {text : String} {values : List (String × Option String)}
    (h : ∀ v ∈ values, ¬ (hole v.1).toList <:+: text.toList) : fill text values = text := by
  refine String.toList_inj.mp ((fill_toList _ _).trans (fillInTurn_of_holeless ?_))
  intro v hv
  obtain ⟨w, hw, rfl⟩ := List.mem_map.mp hv
  exact h w hw

/-! ### Templates whose holes are set apart -/

section Fenced

variable {values : List (String × Option String)}

theorem forall_texts {P : String → Prop} (h : ∀ key ∈ values.map (·.1), P key) :
    ∀ v ∈ texts values, P v.1 := by
  intro v hv
  refine h _ ?_
  rw [← texts_keys]
  exact List.mem_map_of_mem hv

theorem forall_settled {P : String → Prop} (h : ∀ key ∈ values.map (·.1), P key) :
    ∀ v ∈ settled values, P v.1 := by
  intro v hv
  refine h _ ?_
  rw [← settled_keys]
  exact List.mem_map_of_mem hv

/-- A hole becomes the value of its key, filled by the keys behind it. -/
theorem fillInTurn_hole (hplain : ∀ key ∈ values.map (·.1), Plain key.toList) {key : String}
    (hkey : key ∈ values.map (·.1)) :
    fillInTurn (texts values) (hole key).toList = standsFor (settled values) key.toList := by
  induction values with
  | nil => cases hkey
  | cons v rest ih =>
    obtain ⟨key', value⟩ := v
    obtain ⟨hplain', hrest⟩ := List.forall_mem_cons.mp hplain
    have hone : ∀ v ∈ [(key', value.getD "?")], Plain v.1.toList :=
      List.forall_mem_singleton.mpr hplain'
    show fillInTurn (texts rest) (fillFrom [(key', value.getD "?")] 0 (hole key).toList) =
      standsFor ((key', fill (value.getD "?") rest) :: settled rest) key.toList
    rw [fillFrom_hole hone (hplain key hkey)]
    by_cases hsame : key' = key
    · subst hsame
      rw [standsFor_cons_self (key', _), standsFor_cons_self (key', _), fill_toList]
    · have hne : key'.toList ≠ key.toList := fun h => hsame (String.toList_inj.mp h)
      have hmem : key ∈ rest.map (·.1) :=
        (List.mem_cons.mp hkey).resolve_left fun h => hsame h.symm
      rw [standsFor_cons_of_ne hne, standsFor_cons_of_ne hne, ← ih hrest hmem, hole_toList]
      rfl

/-- **Each value is filled by the keys behind its own**, where the holes of the template are set
apart, and by no others. -/
theorem fill_eq_settled (hplain : ∀ key ∈ values.map (·.1), Plain key.toList) {template : String}
    (h : Fenced (values.map (·.1)) template.toList) :
    fill template values = fillAtOnce template (settled values) := by
  refine String.toList_inj.mp ?_
  rw [fill_toList, fillAtOnce, String.toList_ofList]
  generalize template.toList = text at h
  have hblock : ∀ b, Block (values.map (·.1)) b →
      fillInTurn (texts values) b = fillFrom (settled values) 0 b := by
    rintro b (⟨key, hkey, rfl⟩ | hnone)
    · rw [fillInTurn_hole hplain hkey, fillFrom_hole (forall_settled hplain) (hplain key hkey)]
    · rw [fillInTurn_of_holeless (forall_texts hnone), fillFrom_of_holeless (forall_settled hnone)]
  induction h with
  | block hb => exact hblock _ hb
  | @fence b text f hb hf _ ih =>
    rw [fillInTurn_fence (forall_texts hf), fillFrom_fence (forall_settled hf) text b 0
      (Nat.zero_le _), hblock b hb, ih]

/-- The hole of a key is a template of its own. -/
theorem fenced_hole {keys : List String} {key : String} (hkey : key ∈ keys) :
    Fenced keys (hole key).toList :=
  .block (.inl ⟨key, hkey, rfl⟩)

/-- Texts for the same keys are told apart by what stands for the holes. -/
theorem eq_of_standsFor {l m : List (String × String)} (hkeys : l.map (·.1) = m.map (·.1))
    (hdistinct : (l.map (·.1)).Nodup)
    (h : ∀ key ∈ l.map (·.1), standsFor l key.toList = standsFor m key.toList) : l = m := by
  induction l generalizing m with
  | nil => exact (List.map_eq_nil_iff.mp hkeys.symm).symm
  | cons v l ih =>
    obtain ⟨w, m, rfl⟩ := List.exists_cons_of_ne_nil (l := m) (by rintro rfl; simp at hkeys)
    rw [List.map_cons, List.map_cons, List.cons.injEq] at hkeys
    rw [List.map_cons, List.nodup_cons] at hdistinct
    rw [List.map_cons, List.forall_mem_cons] at h
    have hhead := h.1
    rw [standsFor_cons_self, hkeys.1, standsFor_cons_self] at hhead
    have htail : l = m := by
      refine ih hkeys.2 hdistinct.2 fun key hkey => ?_
      have hne : v.1.toList ≠ key.toList := by
        rw [Ne, String.toList_inj]
        rintro rfl
        exact hdistinct.1 hkey
      have hsame := h.2 key hkey
      rwa [standsFor_cons_of_ne hne, standsFor_cons_of_ne (hkeys.1 ▸ hne)] at hsame
    rw [htail, Prod.ext hkeys.1 (String.toList_inj.mp hhead)]

/-- Nothing changes in values without the holes of the keys behind them. -/
theorem settled_of_holeless (h : values.Pairwise fun v w =>
    ¬ (hole w.1).toList <:+: (v.2.getD "?").toList) : settled values = texts values := by
  induction h with
  | nil => rfl
  | @cons v rest hv _ ih =>
    rw [settled, fill_of_holeless hv, ih]
    rfl

end Fenced

/-! ### Values without braces -/

section Plain

variable {values : List (String × String)}

/-- The first of the keys can be filled beforehand, and braces still stand in pairs then. -/
theorem fillFrom_cons {v : String × String} (hv : Plain v.2.toList)
    (hplain : ∀ w ∈ v :: values, Plain w.1.toList) {text : List Char} (h : Paired text) :
    fillFrom (v :: values) 0 text = fillFrom values 0 (fillFrom [v] 0 text) ∧
      Paired (fillFrom [v] 0 text) := by
  obtain ⟨hkey, hrest⟩ := List.forall_mem_cons.mp hplain
  have hone : ∀ w ∈ [v], Plain w.1.toList := List.forall_mem_singleton.mpr hkey
  have hpaired : ∀ {a b : List Char}, Plain a → Paired b → Paired (a ++ b) := by
    intro a b ha hb
    induction a with
    | nil => exact hb
    | cons c a ih =>
      obtain ⟨hopen, hclose⟩ := ha
      rw [List.mem_cons, not_or] at hopen hclose
      exact .char ⟨by simpa using hopen.1, by simpa using hclose.1⟩ (ih ⟨hopen.2, hclose.2⟩)
  induction h with
  | nil => exact ⟨rfl, .nil⟩
  | @char c text hc _ ih =>
    have hchar : ∀ values, fillFrom values 0 (c :: text) = c :: fillFrom values 0 text :=
      fun values => fillFrom_append_of_notMem values hc.1 text
    have hchar' := fillFrom_append_of_notMem values hc.1 (fillFrom [v] 0 text)
    rw [List.singleton_append, List.singleton_append] at hchar'
    rw [hchar, hchar, hchar', ih.1]
    exact ⟨rfl, .char hc ih.2⟩
  | @pair inner text hinner _ ih =>
    rw [fillFrom_pair hplain hinner, fillFrom_pair hone hinner]
    by_cases hsame : v.1.toList = inner
    · subst hsame
      rw [standsFor_cons_self, standsFor_cons_self, fillFrom_append_of_notMem values hv.1, ih.1]
      exact ⟨rfl, hpaired hv ih.2⟩
    · have hnone : standsFor [v] inner ++ fillFrom [v] 0 text =
          '\x7b' :: (inner ++ '\x7d' :: fillFrom [v] 0 text) := by
        rw [standsFor_cons_of_ne hsame]
        simp [standsFor]
      rw [standsFor_cons_of_ne hsame, hnone, fillFrom_pair hrest hinner, ih.1]
      exact ⟨rfl, .pair hinner ih.2⟩

/-- **Values without braces are filled in at once** where the template has its braces in pairs. -/
theorem fill_of_plain {values : List (String × Option String)}
    (hplain : ∀ key ∈ values.map (·.1), Plain key.toList)
    (hvalues : ∀ v ∈ texts values, Plain v.2.toList) {template : String}
    (h : Paired template.toList) : fill template values = fillAtOnce template (texts values) := by
  refine String.toList_inj.mp ?_
  rw [fill_toList, fillAtOnce, String.toList_ofList]
  have hkeys := forall_texts hplain
  generalize texts values = values at hkeys hvalues
  generalize template.toList = text at h
  induction values generalizing text with
  | nil => exact (fillFrom_of_holeless (fun _ hv => absurd hv List.not_mem_nil)).symm
  | cons v rest ih =>
    obtain ⟨hv, hrest⟩ := List.forall_mem_cons.mp hvalues
    obtain ⟨hfirst, hpaired⟩ := fillFrom_cons hv hkeys h
    rw [hfirst]
    exact ih (List.forall_mem_cons.mp hkeys).2 hrest _ hpaired

end Plain

end Template

/-! ### Messages -/

namespace Template

section Words

variable {keys : List String} {a b s : List Char} {fence : Char → Bool}

theorem fenced_of_notMem (h : '\x7b' ∉ s) : Fenced keys s := by
  refine .block (.inr fun key _ hinside => h (hinside.subset ?_))
  rw [hole_toList]
  exact List.mem_cons_self

theorem Fenced.append {f : Char} (ha : Fenced keys a) (hf : ∀ key ∈ keys, f ∉ (hole key).toList)
    (hb : Fenced keys b) : Fenced keys (a ++ f :: b) := by
  induction ha with
  | block h => exact .fence h hf hb
  | fence h hg _ ih =>
    rw [List.append_assoc]
    exact .fence h hg ih

/-- The holes are set apart, from one that follows as well. -/
def Open (keys : List String) (text : List Char) : Prop :=
  ∃ a f, text = a ++ [f] ∧ (∀ key ∈ keys, f ∉ (hole key).toList) ∧ Fenced keys a

theorem Open.fenced (h : Open keys s) : Fenced keys s := by
  obtain ⟨a, f, rfl, hf, ha⟩ := h
  exact ha.append hf (fenced_of_notMem List.not_mem_nil)

/-- Words without an opening brace. -/
theorem open_words (hfence : ∀ f, fence f = true → ∀ key ∈ keys, f ∉ (hole key).toList)
    (h : '\x7b' ∉ s) (hlast : s.getLast?.any fence = true) : Open keys s := by
  obtain ⟨f, hf, hfence'⟩ := (Option.any_eq_true _ _).mp hlast
  obtain ⟨a, rfl⟩ := List.getLast?_eq_some_iff.mp hf
  exact ⟨a, f, rfl, hfence f hfence', fenced_of_notMem fun ha => h (List.mem_append_left _ ha)⟩

/-- A hole and more words. -/
theorem Open.hole_words (hfence : ∀ f, fence f = true → ∀ key ∈ keys, f ∉ (hole key).toList)
    {a key s : String} (ha : Open keys a.toList) (hkey : key ∈ keys) (h : '\x7b' ∉ s.toList)
    (hfirst : s.toList.head?.any fence = true) (hlast : s.toList.getLast?.any fence = true) :
    Open keys (a ++ hole key ++ s).toList := by
  rw [String.toList_append, String.toList_append]
  generalize s.toList = s at h hfirst hlast
  obtain ⟨a, f, hopen, hf, ha⟩ := ha
  rw [hopen]
  cases s with
  | nil => cases hfirst
  | cons g s =>
    have hg := hfence g hfirst
    rcases List.eq_nil_or_concat s with rfl | ⟨s, l, rfl⟩
    · refine ⟨a ++ f :: (hole key).toList, g, by simp, hg, ha.append hf (fenced_hole hkey)⟩
    · rw [List.concat_eq_append] at hlast h ⊢
      rw [← List.cons_append, List.getLast?_append_of_ne_nil _ (by simp)] at hlast
      have hl : fence l = true := hlast
      have hs : '\x7b' ∉ s := fun hs => h (List.mem_cons_of_mem _ (by simp [hs]))
      refine ⟨a ++ f :: ((hole key).toList ++ g :: s), l, by simp, hfence l hl, ?_⟩
      exact ha.append hf ((fenced_hole hkey).append hg (fenced_of_notMem hs))

end Words

end Template

namespace Diagnostic

open Template

/-- The keys of the fields. -/
def keys : List String :=
  ["funcName", "fieldName", "objName", "expected", "actual", "expectedArgs", "actualArgs",
    "otherField", "name"]

/-- The characters beside the holes in messages. -/
def isFence (c : Char) : Bool := [' ', '\'', '(', ')', '.'].contains c

theorem isFence_notMem (f : Char) (hf : isFence f = true) :
    ∀ key ∈ keys, f ∉ (hole key).toList := by
  have hkeys : ∀ key ∈ keys, (hole key).toList.all (!isFence ·) = true := by
    simp only [hole_toList, keys, List.forall_mem_cons]
    refine ⟨?_, ?_, ?_, ?_, ?_, ?_, ?_, ?_, ?_, fun _ h => absurd h List.not_mem_nil⟩
    all_goals
      rewrite [String.toList_ofList]
      decide +kernel
  intro key hkey hmem
  have hno := List.all_eq_true.mp (hkeys key hkey) f hmem
  rw [hf] at hno
  cases hno

theorem template_open (kind : DiagnosticKind) : Open keys kind.template.toList := by
  delta DiagnosticKind.template
  cases kind <;> dsimp only
  all_goals
    repeat' first
      | with_reducible refine Open.hole_words isFence_notMem ?_ ?_ ?_ ?_ ?_
      | with_reducible refine open_words isFence_notMem ?_ ?_
  all_goals first
    | (rewrite [String.toList_ofList]; decide +kernel)
    | simp only [keys, List.mem_cons, true_or, or_true]

theorem keys_plain : ∀ key ∈ keys, Plain key.toList := by
  simp only [Plain, keys, List.forall_mem_cons]
  refine ⟨?_, ?_, ?_, ?_, ?_, ?_, ?_, ?_, ?_, fun _ h => absurd h List.not_mem_nil⟩
  all_goals
    rewrite [String.toList_ofList]
    decide +kernel

/-- In a message each value is filled by the keys behind its own. -/
theorem message_eq (d : Diagnostic) :
    d.message = fillAtOnce d.kind.template (settled d.fields) :=
  @fill_eq_settled d.fields keys_plain _ (template_open d.kind).fenced

end Diagnostic

namespace Template

/-- **Templates are filled at once just if no value is changed by the keys behind it**, where their
holes are set apart, as they are in every message. None is changed that has no hole of these keys.
And values without braces are filled in at once wherever braces stand in pairs. -/
theorem filled_at_once (values : List (String × Option String))
    (hdistinct : (values.map (·.1)).Nodup) (hplain : ∀ key ∈ values.map (·.1), Plain key.toList) :
    (∀ template, Fenced (values.map (·.1)) template.toList →
      fill template values = fillAtOnce template (settled values)) ∧
    ((∀ template, Fenced (values.map (·.1)) template.toList →
      fill template values = fillAtOnce template (texts values)) ↔ settled values = texts values) ∧
    ((values.Pairwise fun v w => ¬ (hole w.1).toList <:+: (v.2.getD "?").toList) →
      settled values = texts values) ∧
    ((∀ v ∈ texts values, Plain v.2.toList) → ∀ template, Paired template.toList →
      fill template values = fillAtOnce template (texts values)) ∧
    ∀ d : Diagnostic, d.fields = values →
      d.message = fillAtOnce d.kind.template (settled values) := by
  refine ⟨fun template h => fill_eq_settled hplain h, ⟨fun h => ?_, fun h template hfenced => ?_⟩,
    settled_of_holeless, fun hvalues template h => fill_of_plain hplain hvalues h, ?_⟩
  · -- What the hole of a key alone becomes tells the texts for the key apart.
    refine eq_of_standsFor ((settled_keys values).trans (texts_keys values).symm)
      ((settled_keys values).symm ▸ hdistinct) fun key hkey => ?_
    rw [settled_keys] at hkey
    have hsame := (fill_eq_settled hplain (fenced_hole hkey)).symm.trans
      (h (hole key) (fenced_hole hkey))
    rw [fillAtOnce, fillAtOnce, String.ofList_inj,
      fillFrom_hole (forall_settled hplain) (hplain key hkey),
      fillFrom_hole (forall_texts hplain) (hplain key hkey)] at hsame
    exact hsame
  · rw [fill_eq_settled hplain hfenced, h]
  · rintro d rfl
    exact d.message_eq

theorem filled_at_once_nested :
    ["a", "b"].Nodup ∧ (∀ key ∈ ["a", "b"], Plain key.toList) ∧
      fill (hole "a") [("a", some (hole "b")), ("b", some "x")] =
        fillAtOnce (hole "a") (settled [("a", some (hole "b")), ("b", some "x")]) := by
  have hdistinct : ["a", "b"].Nodup := by decide
  have hkeys : ∀ key ∈ ["a", "b"], Plain key.toList := by
    unfold Plain
    decide
  have hfilled := filled_at_once [("a", some (hole "b")), ("b", some "x")] hdistinct hkeys
  exact ⟨hdistinct, hkeys, hfilled.1 (hole "a") (fenced_hole (by decide))⟩

/-- A hole inside a value is filled as well, in a template of one hole and in a message. -/
theorem value_expanded :
    ¬ (∀ (template : String) (values : List (String × Option String)),
      (values.map (·.1)).Nodup → fill template values = fillAtOnce template (texts values)) ∧
    ¬ ∀ d : Diagnostic, d.message = fillAtOnce d.kind.template (texts d.fields) := by
  constructor
  · intro h
    exact absurd (h (hole "a") [("a", some (hole "b")), ("b", some "x")] (by decide))
      (by decide +kernel)
  · intro h
    have hd := h
      { kind := .typeClassMismatch
        line := 1
        expected := some ("Array<'" ++ hole "actual" ++ "'>")
        actual := some "Number" }
    exact absurd hd (by decide +kernel)

end Template
end Countersign
