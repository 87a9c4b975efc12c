/-
# Lines of a text

Line numbers count the ends of lines. The map keeps the offsets at which lines begin, which are
strictly ascending, and finds the line of an offset among them by halving: what is found is the
number of line starts up to the offset, and the first line start is up to every offset, so neither
the search nor the column subtracts too much. A column is one more than the distance from the start
of its line, as long as that is a 32-bit word.

Key definitions: `Terminator`, `EndsBehind`.
Key theorems: `LineMap.search_eq`, `LineMap.lineIndex_eq`, `LineMap.mem_later`,
`LineMap.lines_counted`.
-/
import Countersign.Text.LineMap
import Countersign.Text.Span
import Mathlib.Data.List.GetD
import Mathlib.Data.Set.Card
import Mathlib.Order.Bounds.Basic

namespace Countersign

/-! ### Ends of lines -/

/-- The stretch of the text ends a line: a carriage return with a line feed, either of them alone, a
line separator or a paragraph separator. -/
inductive Terminator (text : List Char) : Span → Prop
  | pair {i : Nat} : text[i]? = some '\r' → text[i + 1]? = some '\n' → Terminator text ⟨i, i + 2⟩
  | carriageReturn {i : Nat} : text[i]? = some '\r' → text[i + 1]? ≠ some '\n' →
      Terminator text ⟨i, i + 1⟩
  | lineFeed {i : Nat} : text[i]? = some '\n' → (∀ j, j + 1 = i → text[j]? ≠ some '\r') →
      Terminator text ⟨i, i + 1⟩
  | separator {i : Nat} : text[i]? = some '\u2028' ∨ text[i]? = some '\u2029' →
      Terminator text ⟨i, i + 1⟩

/-- A line ends behind the character at index `k`. -/
def EndsBehind (text : List Char) (k : Nat) : Prop :=
  ∃ c, text[k]? = some c ∧ Text.isLineBreak c = true ∧ (c = '\r' → text[k + 1]? ≠ some '\n')

section Terminators

variable {text : List Char}

theorem Terminator.endsBehind {t : Span} (h : Terminator text t) :
    ∃ k, t.stop = k + 1 ∧ EndsBehind text k := by
  cases h with
  | @pair i _ hfeed => exact ⟨i + 1, rfl, '\n', hfeed, rfl, by simp⟩
  | @carriageReturn i hreturn hfeed => exact ⟨i, rfl, '\r', hreturn, rfl, fun _ => hfeed⟩
  | @lineFeed i hfeed _ => exact ⟨i, rfl, '\n', hfeed, rfl, by simp⟩
  | @separator i hmark =>
    rcases hmark with hmark | hmark
    · exact ⟨i, rfl, _, hmark, rfl, by simp⟩
    · exact ⟨i, rfl, _, hmark, rfl, by simp⟩

theorem EndsBehind.terminator {k : Nat} (h : EndsBehind text k) :
    ∃ t, Terminator text t ∧ t.stop = k + 1 := by
  obtain ⟨c, hc, hbreak, hreturn⟩ := h
  simp only [Text.isLineBreak, Bool.or_eq_true, beq_iff_eq] at hbreak
  rcases hbreak with ((rfl | rfl) | rfl) | rfl
  · by_cases hpair : ∃ j, j + 1 = k ∧ text[j]? = some '\r'
    · obtain ⟨j, rfl, hj⟩ := hpair
      exact ⟨_, .pair hj hc, rfl⟩
    · exact ⟨_, .lineFeed hc fun j hj hjc => hpair ⟨j, hj, hjc⟩, rfl⟩
  · exact ⟨_, .carriageReturn hc (hreturn rfl), rfl⟩
  · exact ⟨_, .separator (.inl hc), rfl⟩
  · exact ⟨_, .separator (.inr hc), rfl⟩

/-- Where a terminator starts: in front of the character that ends the line, or of the carriage
return before that. -/
theorem Terminator.pos_eq {t : Span} (h : Terminator text t) {k : Nat} (hk : t.stop = k + 1) :
    (∃ j, k = j + 1 ∧ t.pos = j ∧ text[j]? = some '\r' ∧ text[k]? = some '\n') ∨
      (t.pos = k ∧ (text[k]? = some '\n' → ∀ j, j + 1 = k → text[j]? ≠ some '\r')) := by
  cases h with
  | @pair i hreturn hfeed =>
    obtain rfl : k = i + 1 := (Nat.succ.inj hk).symm
    exact .inl ⟨i, rfl, rfl, hreturn, hfeed⟩
  | @carriageReturn i hreturn _ =>
    obtain rfl : k = i := (Nat.succ.inj hk).symm
    exact .inr ⟨rfl, by simp [hreturn]⟩
  | @lineFeed i _ hbefore =>
    obtain rfl : k = i := (Nat.succ.inj hk).symm
    exact .inr ⟨rfl, fun _ => hbefore⟩
  | @separator i hmark =>
    obtain rfl : k = i := (Nat.succ.inj hk).symm
    refine .inr ⟨rfl, fun hfeed => ?_⟩
    rcases hmark with hmark | hmark
    · simp [hmark] at hfeed
    · simp [hmark] at hfeed

/-- No two terminators end at the same offset. -/
theorem Terminator.eq_of_stop {t t' : Span} (h : Terminator text t) (h' : Terminator text t')
    (hstop : t.stop = t'.stop) : t = t' := by
  obtain ⟨k, hk, -⟩ := h.endsBehind
  have hpos : t.pos = t'.pos := by
    rcases h.pos_eq hk with ⟨j, rfl, hj, hreturn, hfeed⟩ | ⟨hpos, hlone⟩
    · rcases h'.pos_eq (hstop ▸ hk) with ⟨j', hjj, hj', -, -⟩ | ⟨-, hlone⟩
      · omega
      · exact absurd hreturn (hlone hfeed j rfl)
    · rcases h'.pos_eq (hstop ▸ hk) with ⟨j', rfl, -, hreturn, hfeed⟩ | ⟨hpos', -⟩
      · exact absurd hreturn (hlone hfeed j' rfl)
      · rw [hpos, hpos']
  obtain ⟨p, q⟩ := t
  obtain ⟨p', q'⟩ := t'
  exact Span.mk.injEq _ _ _ _ ▸ ⟨hpos, hstop⟩

end Terminators

namespace LineMap

/-! ### Halving -/

section Search

variable {numbers : List Nat} (pos : Nat)

/-- Of strictly ascending numbers, those not above a number are the first ones. -/
theorem getD_le_iff (hsorted : numbers.Pairwise (· < ·)) {j : Nat} (hj : j < numbers.length) :
    numbers.getD j 0 ≤ pos ↔ j < numbers.countP (· ≤ pos) := by
  induction numbers generalizing j with
  | nil => exact absurd hj (Nat.not_lt_zero j)
  | cons n numbers ih =>
    obtain ⟨hfirst, hrest⟩ := List.pairwise_cons.mp hsorted
    have hnone : pos < n → numbers.countP (· ≤ pos) = 0 := by
      intro hn
      refine List.countP_eq_zero.mpr fun m hm => ?_
      have hlt := hfirst m hm
      simp only [decide_eq_true_eq]
      omega
    rw [List.countP_cons]
    cases j with
    | zero =>
      rw [List.getD_cons_zero]
      by_cases hn : n ≤ pos
      · simp [hn]
      · simp [hn, hnone (by omega)]
    | succ j =>
      rw [List.length_cons] at hj
      rw [List.getD_cons_succ, ih hrest (by omega)]
      by_cases hn : n ≤ pos
      · simp [hn]
      · simp [hn, hnone (by omega)]

/-- **Halving finds the last number that is not above another one.** As long as it lies in the
stretch, the half that is kept holds it. -/
theorem narrow_eq (hsorted : numbers.Pairwise (· < ·)) : ∀ limit base size, size ≤ limit →
    base + size ≤ numbers.length → base ≤ numbers.countP (· ≤ pos) - 1 →
    numbers.countP (· ≤ pos) - 1 < base + size →
    narrow numbers pos limit base size = numbers.countP (· ≤ pos) - 1
  | 0, base, size, hlimit, _, hlow, hhigh => by
    rw [narrow]
    omega
  | limit + 1, base, size, hlimit, hlength, hlow, hhigh => by
    rw [narrow]
    split
    · omega
    · rename_i hsize
      have hmiddle := getD_le_iff pos hsorted (show base + size / 2 < numbers.length by omega)
      dsimp only
      split
      · exact narrow_eq hsorted limit _ _ (by omega) (by omega) hlow (by omega)
      · exact narrow_eq hsorted limit _ _ (by omega) (by omega) (by omega) (by omega)

/-- A number that is there is the last one not above itself. -/
theorem mem_iff_getD (hsorted : numbers.Pairwise (· < ·)) (hne : numbers ≠ []) :
    pos ∈ numbers ↔ numbers.getD (numbers.countP (· ≤ pos) - 1) 0 = pos := by
  have hle : numbers.countP (· ≤ pos) ≤ numbers.length := List.countP_le_length
  have hlength : 0 < numbers.length := List.length_pos_iff.mpr hne
  have hlast : numbers.countP (· ≤ pos) - 1 < numbers.length := by omega
  constructor
  · intro hmem
    obtain ⟨j, hj, hpos⟩ := List.getElem_of_mem hmem
    have hget : numbers.getD j 0 = pos := by rw [List.getD_eq_getElem _ _ hj, hpos]
    have hcounted := (getD_le_iff pos hsorted hj).mp hget.le
    -- The number behind it, if there is one, is greater and not counted.
    have hnext : ¬ j + 1 < numbers.countP (· ≤ pos) := by
      intro hlt
      have hnot := (getD_le_iff pos hsorted (show j + 1 < numbers.length by omega)).mpr hlt
      have hgreater :=
        List.pairwise_iff_getElem.mp hsorted j (j + 1) hj (by omega) (Nat.lt_succ_self j)
      rw [List.getD_eq_getElem _ _ (by omega)] at hnot
      omega
    rwa [show numbers.countP (· ≤ pos) - 1 = j by omega]
  · intro hget
    rw [← hget, List.getD_eq_getElem _ _ hlast]
    exact List.getElem_mem hlast

/-- **What the search finds.** A number that is there is found at its index, and for any other one
the index is given at which the greater ones begin. -/
theorem search_eq (hsorted : numbers.Pairwise (· < ·)) : search numbers pos =
    if pos ∈ numbers then .found (numbers.countP (· ≤ pos) - 1)
    else .absent (numbers.countP (· ≤ pos)) := by
  cases numbers with
  | nil => rfl
  | cons n numbers =>
    have hmem := mem_iff_getD pos hsorted (List.cons_ne_nil n numbers)
    have hle : (n :: numbers).countP (· ≤ pos) ≤ (n :: numbers).length := List.countP_le_length
    have hlength : 0 < (n :: numbers).length := Nat.succ_pos _
    have hnarrow : narrow (n :: numbers) pos (n :: numbers).length 0 (n :: numbers).length =
        (n :: numbers).countP (· ≤ pos) - 1 :=
      narrow_eq pos hsorted _ _ _ (Nat.le_refl _) (by omega) (Nat.zero_le _) (by omega)
    have hcounted := getD_le_iff pos hsorted
      (show (n :: numbers).countP (· ≤ pos) - 1 < (n :: numbers).length by omega)
    rw [search, if_neg (by simp), hnarrow]
    dsimp only
    by_cases hfound : pos ∈ n :: numbers
    · rw [if_pos (hmem.mp hfound), if_pos hfound]
    · have hne : (n :: numbers).getD ((n :: numbers).countP (· ≤ pos) - 1) 0 ≠ pos :=
        fun h => hfound (hmem.mpr h)
      rw [if_neg hne, if_neg hfound]
      split
      · exact congrArg Slot.absent (by omega)
      · exact congrArg Slot.absent (by omega)

end Search

/-! ### Line starts -/

theorem lt_of_mem_startsFrom {i p : Nat} {text : List Char} (h : p ∈ startsFrom i text) :
    i < p := by
  fun_induction startsFrom i text with
  | case1 => exact absurd h List.not_mem_nil
  | case2 i rest ih =>
    rcases List.mem_cons.mp h with rfl | h
    · omega
    · have hlt := ih h
      omega
  | case3 i c rest _ _ ih =>
    rcases List.mem_cons.mp h with rfl | h
    · omega
    · have hlt := ih h
      omega
  | case4 i c rest _ _ ih =>
    have hlt := ih h
    omega

theorem startsFrom_ascending (i : Nat) (text : List Char) :
    (startsFrom i text).Pairwise (· < ·) := by
  fun_induction startsFrom i text with
  | case1 => exact .nil
  | case2 i rest ih => exact .cons (fun _ h => lt_of_mem_startsFrom h) ih
  | case3 i c rest _ _ ih => exact .cons (fun _ h => lt_of_mem_startsFrom h) ih
  | case4 i c rest _ _ ih => exact ih

/-- **Line starts are strictly ascending.** -/
theorem starts_ascending (text : String) : (ofText text).starts.Pairwise (· < ·) :=
  .cons (fun _ h => lt_of_mem_startsFrom h) (startsFrom_ascending 0 text.toList)

section Lookup

variable (text : String) (pos : Nat)

theorem countP_starts : (ofText text).starts.countP (· ≤ pos) =
    (ofText text).later.countP (· ≤ pos) + 1 := by
  rw [starts, List.countP_cons_of_pos (by simp)]

/-- The first line starts up to every offset, so the search never says that an offset belongs in
front of it. -/
theorem pos_of_search_absent {i : Nat} (h : search (ofText text).starts pos = .absent i) :
    0 < i := by
  rw [search_eq pos (starts_ascending text)] at h
  split at h
  · cases h
  · cases h
    rw [countP_starts]
    exact Nat.succ_pos _

/-- **The line of an offset is found**: as many lines start up to it, after the first one. -/
theorem lineIndex_eq : (ofText text).lineIndex pos = (ofText text).later.countP (· ≤ pos) := by
  rw [lineIndex, search_eq pos (starts_ascending text), countP_starts]
  split
  · rename_i h
    split at h
    · cases h
      rfl
    · cases h
  · rename_i h
    split at h
    · cases h
    · cases h
      rfl

theorem lineIndex_lt : (ofText text).lineIndex pos < (ofText text).starts.length := by
  have hcount := countP_starts text pos
  have hle : (ofText text).starts.countP (· ≤ pos) ≤ (ofText text).starts.length :=
    List.countP_le_length
  rw [lineIndex_eq]
  omega

theorem starts_lineIndex :
    (ofText text).starts[(ofText text).lineIndex pos]? = some ((ofText text).lineStart pos) := by
  rw [lineStart, List.getD_eq_getElem _ _ (lineIndex_lt text pos),
    List.getElem?_eq_getElem (lineIndex_lt text pos)]

/-- **The line of an offset begins with the last line start up to it.** -/
theorem lineStart_isGreatest : IsGreatest {q | q ∈ (ofText text).starts ∧ q ≤ pos}
    ((ofText text).lineStart pos) := by
  have hsorted := starts_ascending text
  have hindex := lineIndex_lt text pos
  have hcount : (ofText text).starts.countP (· ≤ pos) = (ofText text).lineIndex pos + 1 := by
    rw [countP_starts, lineIndex_eq]
  obtain ⟨_, hstart⟩ := List.getElem?_eq_some_iff.mp (starts_lineIndex text pos)
  refine ⟨⟨List.mem_of_getElem? (starts_lineIndex text pos), ?_⟩, fun q ⟨hq, hqpos⟩ => ?_⟩
  · exact (getD_le_iff pos hsorted hindex).mpr (by omega)
  · obtain ⟨j, hj, rfl⟩ := List.getElem_of_mem hq
    rw [← List.getD_eq_getElem _ 0 hj, getD_le_iff pos hsorted hj] at hqpos
    rw [← hstart]
    rcases Nat.lt_or_eq_of_le (show j ≤ (ofText text).lineIndex pos by omega) with hlt | rfl
    · exact (List.pairwise_iff_getElem.mp hsorted j _ hj hindex hlt).le
    · exact le_rfl

end Lookup

/-! ### Lines counted -/

/-- **Lines start where lines end.** -/
theorem mem_startsFrom {i q : Nat} {text : List Char} :
    q ∈ startsFrom i text ↔ ∃ k, q = i + k + 1 ∧ EndsBehind text k := by
  fun_induction startsFrom i text with
  | case1 i => simp [EndsBehind]
  | case2 i rest ih =>
    rw [List.mem_cons, ih]
    constructor
    · rintro (rfl | ⟨k, rfl, hk⟩)
      · exact ⟨1, rfl, '\n', rfl, rfl, by simp⟩
      · exact ⟨k + 2, by omega, hk⟩
    · rintro ⟨k, rfl, hk⟩
      match k, hk with
      | 0, ⟨c, hc, _, hreturn⟩ =>
        cases hc
        exact absurd rfl (hreturn rfl)
      | 1, _ => exact .inl rfl
      | k + 2, hk => exact .inr ⟨k, by omega, hk⟩
  | case3 i c rest hpair hbreak ih =>
    rw [List.mem_cons, ih]
    constructor
    · rintro (rfl | ⟨k, rfl, hk⟩)
      · refine ⟨0, rfl, c, rfl, hbreak, ?_⟩
        rintro rfl hfeed
        obtain ⟨tail, rfl⟩ : ∃ tail, rest = '\n' :: tail := by
          cases rest with
          | nil => cases hfeed
          | cons d tail =>
            cases hfeed
            exact ⟨tail, rfl⟩
        exact hpair tail rfl rfl
      · exact ⟨k + 1, by omega, hk⟩
    · rintro ⟨k, rfl, hk⟩
      match k, hk with
      | 0, _ => exact .inl rfl
      | k + 1, hk => exact .inr ⟨k, by omega, hk⟩
  | case4 i c rest hpair hbreak ih =>
    rw [ih]
    constructor
    · rintro ⟨k, rfl, hk⟩
      exact ⟨k + 1, by omega, hk⟩
    · rintro ⟨k, rfl, hk⟩
      match k, hk with
      | 0, ⟨d, hd, hdbreak, _⟩ =>
        cases hd
        exact absurd hdbreak hbreak
      | k + 1, hk => exact ⟨k, by omega, hk⟩

section Counted

variable (text : String) (pos : Nat)

theorem mem_later {q : Nat} :
    q ∈ (ofText text).later ↔ ∃ t, Terminator text.toList t ∧ t.stop = q := by
  rw [ofText, mem_startsFrom]
  constructor
  · rintro ⟨k, rfl, hk⟩
    obtain ⟨t, ht, hstop⟩ := hk.terminator
    exact ⟨t, ht, by omega⟩
  · rintro ⟨t, ht, rfl⟩
    obtain ⟨k, hk, hends⟩ := ht.endsBehind
    exact ⟨k, by omega, hends⟩

/-- As many lines start up to an offset, after the first one, as terminators end up to it. -/
theorem ncard_terminators : {t | Terminator text.toList t ∧ t.stop ≤ pos}.ncard =
    (ofText text).later.countP (· ≤ pos) := by
  have hinj : Set.InjOn Span.stop {t | Terminator text.toList t ∧ t.stop ≤ pos} :=
    fun t ht t' ht' hstop => ht.1.eq_of_stop ht'.1 hstop
  have himage : Span.stop '' {t | Terminator text.toList t ∧ t.stop ≤ pos} =
      (((ofText text).later.filter (· ≤ pos)).toFinset : Set Nat) := by
    ext q
    simp only [Set.mem_image, Set.mem_ofPred_eq, List.coe_toFinset, List.mem_filter,
      decide_eq_true_eq, mem_later]
    constructor
    · rintro ⟨t, ⟨ht, hle⟩, rfl⟩
      exact ⟨⟨t, ht, rfl⟩, hle⟩
    · rintro ⟨⟨t, ht, rfl⟩, hle⟩
      exact ⟨t, ⟨ht, hle⟩, rfl⟩
  have hnodup : ((ofText text).later.filter (· ≤ pos)).Nodup :=
    ((startsFrom_ascending 0 text.toList).imp fun h => Nat.ne_of_lt h).filter _
  rw [← hinj.ncard_image, himage, Set.ncard_coe_finset,
    List.toFinset_card_of_nodup hnodup, List.countP_eq_length_filter]

theorem lineNumber_mono : Monotone (ofText text).lineNumber := by
  intro p q hpq
  rw [lineNumber, lineNumber, lineIndex_eq, lineIndex_eq]
  refine Nat.succ_le_succ (List.countP_mono_left fun s _ hs => ?_)
  simp only [decide_eq_true_eq] at hs ⊢
  omega

/-- Between two offsets a number of line starts is passed if there is one there. -/
theorem countP_lt_iff {p q : Nat} (hpq : p ≤ q) (numbers : List Nat) :
    numbers.countP (· ≤ p) < numbers.countP (· ≤ q) ↔ ∃ s ∈ numbers, p < s ∧ s ≤ q := by
  induction numbers with
  | nil => simp
  | cons n numbers ih =>
    have hmono : numbers.countP (· ≤ p) ≤ numbers.countP (· ≤ q) :=
      List.countP_mono_left fun s _ hs => by
        simp only [decide_eq_true_eq] at hs ⊢
        omega
    rw [List.countP_cons, List.countP_cons, List.exists_mem_cons_iff, ← ih]
    by_cases hp : n ≤ p
    · simp [hp, Nat.le_trans hp hpq]
    · by_cases hq : n ≤ q
      · simp [hp, hq]
        omega
      · simp [hp, hq]

/-- The line number grows from one offset to a later one just if a line ends between them. -/
theorem lineNumber_lt_iff {p q : Nat} (hpq : p ≤ q) :
    (ofText text).lineNumber p < (ofText text).lineNumber q ↔
      ∃ k, p ≤ k ∧ k < q ∧ EndsBehind text.toList k := by
  rw [lineNumber, lineNumber, lineIndex_eq, lineIndex_eq, Nat.add_lt_add_iff_right,
    countP_lt_iff hpq]
  constructor
  · rintro ⟨s, hs, hlow, hhigh⟩
    obtain ⟨k, rfl, hk⟩ := mem_startsFrom.mp hs
    exact ⟨k, by omega, by omega, hk⟩
  · rintro ⟨k, hlow, hhigh, hk⟩
    exact ⟨0 + k + 1, mem_startsFrom.mpr ⟨k, rfl, hk⟩, by omega, by omega⟩

/-- A column is one more than the distance from the start of its line if that is a 32-bit word. -/
theorem column_eq_iff : (ofText text).column pos = pos - (ofText text).lineStart pos + 1 ↔
    pos - (ofText text).lineStart pos < 4294967295 := by
  rw [column]
  omega

end Counted

/-- **Lines are counted.** The line starts ascend strictly from zero; the line of an offset is one
more than the number of terminators that end up to it, so it is monotone; the search never says that
an offset belongs in front of the first line start, and finds the greatest line start up to it; and
the column is one more than the distance from there, wherever that is a 32-bit word. -/
theorem lines_counted (text : String) :
    (ofText text).starts.head? = some 0 ∧ (ofText text).starts.Pairwise (· < ·) ∧
    Monotone (ofText text).lineNumber ∧
    ∀ pos,
      (ofText text).lineNumber pos = 1 + {t | Terminator text.toList t ∧ t.stop ≤ pos}.ncard ∧
      (∀ i, search (ofText text).starts pos = .absent i → 0 < i) ∧
      (ofText text).starts[(ofText text).lineIndex pos]? = some ((ofText text).lineStart pos) ∧
      IsGreatest {q | q ∈ (ofText text).starts ∧ q ≤ pos} ((ofText text).lineStart pos) ∧
      ((ofText text).column pos = pos - (ofText text).lineStart pos + 1 ↔
        pos - (ofText text).lineStart pos < 4294967295) := by
  refine ⟨rfl, starts_ascending text, lineNumber_mono text, fun pos => ⟨?_, ?_, ?_, ?_, ?_⟩⟩
  · rw [lineNumber, lineIndex_eq, ncard_terminators, Nat.add_comm]
  · exact fun i => pos_of_search_absent text pos
  · exact starts_lineIndex text pos
  · exact lineStart_isGreatest text pos
  · exact column_eq_iff text pos

/-- At the largest offset on the first line there is no column left. -/
theorem column_overflows : (ofText "").lineStart 4294967295 = 0 ∧
    (ofText "").column 4294967295 = 0 := by
  decide

end LineMap
end Countersign
