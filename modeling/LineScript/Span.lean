/-!
# Spans

A span is a range of byte offsets into a source text.
-/

namespace LineScript

/-- The bytes from `start` up to, and not including, `stop`. -/
structure Span where
  /-- The offset of the first byte. -/
  start : Nat
  /-- The offset after the last byte. -/
  stop : Nat
deriving DecidableEq, Repr, Inhabited

namespace Span

/-- The span of the one byte at `position`. -/
def single (position : Nat) : Span :=
  ⟨position, position + 1⟩

/-- The least span that covers both. -/
def cover (left right : Span) : Span :=
  ⟨min left.start right.start, max left.stop right.stop⟩

/-- A span in a text that starts `offset` bytes into another one, as a span of that one. -/
def shift (span : Span) (offset : Nat) : Span :=
  ⟨offset + span.start, offset + span.stop⟩

end Span

end LineScript
