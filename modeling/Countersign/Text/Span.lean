/-
# Spans of text

A span names a stretch of text by the offset where it begins and the offset just past its end,
both counted in characters.

Key definitions: `Span`, `Span.cover`, `Span.contains`, `Span.render`.
-/

namespace Countersign

/-- The half-open stretch of text from `pos` up to, and without, `stop`. -/
structure Span where
  pos : Nat
  stop : Nat
  deriving Repr, DecidableEq, Inhabited

namespace Span

/-- The empty span at `pos`. -/
def empty (pos : Nat) : Span := ⟨pos, pos⟩

/-- The number of characters in the span. -/
def length (s : Span) : Nat := s.stop - s.pos

/-- A span is empty when it ends where it begins. -/
def isEmpty (s : Span) : Bool := s.pos == s.stop

/-- Whether the character at offset `p` lies in the span. -/
def contains (s : Span) (p : Nat) : Bool := s.pos ≤ p && p < s.stop

/-- The smallest span that covers both. -/
def cover (s t : Span) : Span := ⟨min s.pos t.pos, max s.stop t.stop⟩

/-- The text `pos..stop`. -/
def render (s : Span) : String := s!"{s.pos}..{s.stop}"

end Span
end Countersign
