/-
# Byte offsets of characters

The characters before a byte offset, and where an error stands that is behind some characters of a
text.

Key theorems: `charsBefore_append`, `textBefore_utf8Len`, `SignatureError.locate_behind`.
-/
import Countersign.Signature.Error
import Mathlib.Data.String.Basic
import Mathlib.Tactic

namespace Countersign
namespace Signature

theorem utf8ByteSize_eq (s : String) : s.utf8ByteSize = String.utf8Len s.toList := by
  rw [← String.utf8ByteSize_ofList, String.ofList_toList]

theorem charsBefore_zero (text : List Char) : charsBefore 0 text = [] := by
  cases text with
  | nil => rfl
  | cons c text =>
    rw [charsBefore, if_neg]
    exact Nat.not_le_of_lt c.utf8Size_pos

/-- The characters before an offset behind a first part are that part and those behind it. -/
theorem charsBefore_append (before text : List Char) (n : Nat) :
    charsBefore (String.utf8Len before + n) (before ++ text) = before ++ charsBefore n text := by
  induction before with
  | nil => simp
  | cons c before ih =>
    rw [List.cons_append, charsBefore, String.utf8Len_cons, if_pos (by omega),
      show String.utf8Len before + c.utf8Size + n - c.utf8Size = String.utf8Len before + n by omega,
      ih, List.cons_append]

theorem charsBefore_utf8Len (before text : List Char) :
    charsBefore (String.utf8Len before) (before ++ text) = before := by
  have h := charsBefore_append before text 0
  rwa [charsBefore_zero, List.append_nil, Nat.add_zero] at h

theorem charsBefore_prefix (offset : Nat) (text : List Char) : charsBefore offset text <+: text := by
  induction text generalizing offset with
  | nil => exact List.prefix_rfl
  | cons c text ih =>
    rw [charsBefore]
    split
    · exact (List.prefix_cons_inj c).mpr (ih _)
    · exact List.nil_prefix

theorem textBefore_utf8Len (before text : List Char) :
    textBefore (before ++ text) (String.utf8Len before) = before := by
  have hbytes : (String.ofList before).utf8ByteSize = String.utf8Len before :=
    String.utf8ByteSize_ofList before
  dsimp only [textBefore]
  rw [charsBefore_utf8Len, if_pos hbytes]

end Signature

open Signature

/-- An error behind some characters of a text. -/
theorem SignatureError.locate_behind (before text : List Char) (first : Nat)
    (expected : List Expected) (found : Found) :
    locate (before ++ text) first (String.utf8Len before) expected found =
      { offset := String.utf8Len before
        line := lineWord (before.count '\n' + 1 + (first - 1))
        column := lineWord ((before.reverse.takeWhile (· != '\n')).length + 1)
        expected
        found } := by
  have hle : String.utf8Len before ≤ (String.ofList (before ++ text)).utf8ByteSize := by
    rw [String.utf8ByteSize_ofList, String.utf8Len_append]
    exact Nat.le_add_right _ _
  dsimp only [locate]
  rw [Nat.min_eq_left hle, textBefore_utf8Len]

end Countersign
