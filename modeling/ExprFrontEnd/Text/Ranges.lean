/-!
# `ExprFrontEnd.Text.Ranges`: sets of code points as ranges

A property of characters that a standard gives as a table is kept as closed ranges of code points.
-/

set_option autoImplicit false

namespace ExprFrontEnd.Text

/-- Whether a code point lies in one of the closed ranges. -/
def inRanges (ranges : Array (Nat × Nat)) (n : Nat) : Bool :=
  ranges.any fun r => decide (r.1 ≤ n) && decide (n ≤ r.2)

end ExprFrontEnd.Text
