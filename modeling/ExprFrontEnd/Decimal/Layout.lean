import ExprFrontEnd.Decimal.Shortest

/-!
# `ExprFrontEnd.Decimal.Layout`: numbers as text

A `Layout` says how the chosen digits of a number are set out: where positional notation ends,
whether an integral value keeps a `.0`, and which way ties between equally short decimals go.
`Binary64.render` sets a number by a layout. The two layouts in use are `Layout.message`, always
positional, and `Layout.document`, which turns to an exponent outside of `-5 ≤ e ≤ 15`.
-/

set_option autoImplicit false

namespace ExprFrontEnd

/-- The decisions of a number format. -/
structure Layout where
  /-- The least and the greatest exponent of the first digit for positional notation. -/
  positional : Option (Int × Int)
  /-- Whether an integral value in positional notation ends in `.0`. -/
  pointZero : Bool
  tie : Tie

namespace Layout

/-- Numbers inside of messages are always positional, and integral ones have no point. -/
def message : Layout := ⟨none, false, .up⟩

/-- Numbers in documents keep a point, and very small and large ones have an exponent. -/
def document : Layout := ⟨some (-5, 15), true, .toEven⟩

/-- Whether a decimal with this exponent of its first digit is written positionally. -/
def isPositional (l : Layout) (lead : Int) : Bool :=
  match l.positional with
  | none => true
  | some (least, greatest) => decide (least ≤ lead) && decide (lead ≤ greatest)

/-- Positional notation: zeros fill the places between the digits and the point. -/
def setPositional (l : Layout) (d : Decimal) : List Char :=
  let digits := d.digitChars
  if 0 ≤ d.exponent then
    digits ++ List.replicate d.exponent.toNat '0' ++ if l.pointZero then ['.', '0'] else []
  else
    let lead := d.leadingExponent
    if 0 ≤ lead then
      digits.take (lead.toNat + 1) ++ '.' :: digits.drop (lead.toNat + 1)
    else
      ['0', '.'] ++ List.replicate ((-lead).toNat - 1) '0' ++ digits

/-- Scientific notation: one digit, the others after a point if there are any, and a signed
exponent. -/
def setScientific (d : Decimal) : List Char :=
  let lead := d.leadingExponent
  let rest := d.digitChars.drop 1
  d.digitChars.take 1 ++ (if rest.isEmpty then [] else '.' :: rest)
    ++ ['e', if 0 ≤ lead then '+' else '-'] ++ Nat.toDigits 10 lead.natAbs

/-- A decimal by a layout. -/
def set (l : Layout) (d : Decimal) : List Char :=
  if l.isPositional d.leadingExponent then l.setPositional d else setScientific d

end Layout

/-- The text of a number: its sign, then its shortest digits. -/
def Binary64.render (l : Layout) (x : Binary64) : String :=
  let sign := if x.isNegative then ['-'] else []
  let body := if x.isInfinite then ['i', 'n', 'f'] else l.set (x.shortest l.tie)
  String.ofList (sign ++ body)

end ExprFrontEnd
