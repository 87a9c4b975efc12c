/-
# Blank characters

The characters that separate words without belonging to any: the Unicode property White_Space,
the line breaks among them, and the blanks of program text, which leave out the next-line control
and add the byte order mark.

Key definitions: `isBlank`, `isLineBreak`, `isInlineBlank`.
-/

namespace Countersign
namespace Text

/-- A character with the Unicode property White_Space. -/
def isBlank (c : Char) : Bool :=
  let n := c.toNat
  (9 ≤ n && n ≤ 13) || n == 0x20 || n == 0x85 || n == 0xA0 || n == 0x1680 ||
    (0x2000 ≤ n && n ≤ 0x200A) || n == 0x2028 || n == 0x2029 || n == 0x202F || n == 0x205F ||
    n == 0x3000

/-- A character that ends a line: line feed, carriage return, line or paragraph separator. -/
def isLineBreak (c : Char) : Bool :=
  c == '\n' || c == '\r' || c == '\u2028' || c == '\u2029'

/-- A blank of program text that does not end a line. The next-line control is not one. -/
def isInlineBlank (c : Char) : Bool :=
  c == ' ' || c == '\t' || c == '\x0b' || c == '\x0c' || c == '\u00a0' || c == '\ufeff' ||
    (0x1680 ≤ c.toNat && !isLineBreak c && isBlank c)

/-- Every line break is blank. -/
theorem isBlank_of_isLineBreak {c : Char} (h : isLineBreak c = true) : isBlank c = true := by
  simp only [isLineBreak, Bool.or_eq_true, beq_iff_eq] at h
  rcases h with ((rfl | rfl) | rfl) | rfl <;> decide

/-- No inline blank ends a line. -/
theorem not_isLineBreak_of_isInlineBlank {c : Char} (h : isInlineBlank c = true) :
    isLineBreak c = false := by
  simp only [isInlineBlank, Bool.or_eq_true, Bool.and_eq_true, beq_iff_eq] at h
  rcases h with (((((rfl | rfl) | rfl) | rfl) | rfl) | rfl) | h
  all_goals first | decide | simpa using h.1.2

end Text
end Countersign
