/-
# Line numbers

A line map turns character offsets into line and column numbers. A line ends with a line feed, a
carriage return, both in that pair's usual order, a line separator or a paragraph separator; the
pair counts once. The line of an offset is looked up among the line starts by halving. Offsets are
32-bit words, so a text has fewer characters than there are such words; an offset may also lie behind
the end of its text. Columns are 32-bit words too.

Key definitions: `LineMap.ofText`, `LineMap.search`, `LineMap.lineNumber`, `LineMap.column`.
-/
import Countersign.Text.Blank

namespace Countersign

/-- The offsets at which the lines of a text begin. The first line begins at offset zero, so only
the later ones are kept. -/
structure LineMap where
  later : List Nat
  deriving Repr, DecidableEq

namespace LineMap

/-- The line starts in `text`, whose first character stands at offset `i`. -/
def startsFrom (i : Nat) : List Char → List Nat
  | [] => []
  | '\r' :: '\n' :: rest => (i + 2) :: startsFrom (i + 2) rest
  | c :: rest =>
    if Text.isLineBreak c then (i + 1) :: startsFrom (i + 1) rest else startsFrom (i + 1) rest

/-- The line map of a text. -/
def ofText (text : String) : LineMap := ⟨startsFrom 0 text.toList⟩

/-- The offsets of the first character of each line, in order. -/
def starts (m : LineMap) : List Nat := 0 :: m.later

/-- Where a number stands among ascending ones: at an index, or, if it is not there, at which index
it would have to be inserted. -/
inductive Slot where
  | found (index : Nat)
  | absent (index : Nat)
  deriving Repr, DecidableEq

/-- The index of the last number not above `pos` in the stretch of `size` ascending numbers that
begins at index `base`; the first index if there is none. The stretch is halved until one number is
left, at most `limit` times. -/
def narrow (numbers : List Nat) (pos : Nat) : Nat → Nat → Nat → Nat
  | 0, base, _ => base
  | limit + 1, base, size =>
    if size ≤ 1 then base
    else
      let middle := base + size / 2
      narrow numbers pos limit (if pos < numbers.getD middle 0 then base else middle)
        (size - size / 2)

/-- Looks for `pos` among ascending numbers. Each halving shortens the stretch, so their number is
enough. -/
def search (numbers : List Nat) (pos : Nat) : Slot :=
  if numbers.isEmpty then .absent 0
  else
    let i := narrow numbers pos numbers.length 0 numbers.length
    let n := numbers.getD i 0
    if n = pos then .found i else if n < pos then .absent (i + 1) else .absent i

/-- The number of whole lines before the line that holds offset `pos`. -/
def lineIndex (m : LineMap) (pos : Nat) : Nat :=
  match search m.starts pos with
  | .found i => i
  | .absent i => i - 1

/-- The line that holds offset `pos`, counted from one. -/
def lineNumber (m : LineMap) (pos : Nat) : Nat := m.lineIndex pos + 1

/-- The offset at which the line of `pos` begins. -/
def lineStart (m : LineMap) (pos : Nat) : Nat := m.starts.getD (m.lineIndex pos) 0

/-- The column of offset `pos` in its line, counted from one. Columns are 32-bit words. -/
def column (m : LineMap) (pos : Nat) : Nat := (pos - m.lineStart pos + 1) % 4294967296

end LineMap
end Countersign
