import ExprFrontEnd.Decimal.Binary64

/-!
# `ExprFrontEnd.Decimal.Shortest`: the fewest digits that read back

`Binary64.shortest` gives the decimal with the fewest digits among those that round to a number, and
of these the nearest to it. The search tries one digit, two digits and so on: on each decimal grid
only the two neighbours of the exact value can qualify. All comparisons are exact, between natural
numbers over a common unit (`Grid`).
-/

set_option autoImplicit false

namespace ExprFrontEnd

/-- `digits * 10 ^ exponent`. -/
structure Decimal where
  digits : Nat
  exponent : Int
  deriving DecidableEq, Repr

/-- What to do when two decimals of the least length are equally near. -/
inductive Tie where
  | toEven
  | up
  deriving DecidableEq, Repr

namespace Decimal

/-- Moves the trailing zeros of the digits into the exponent; `fuel` bounds their number. -/
def dropZeros : Nat → Decimal → Decimal
  | 0, d => d
  | fuel + 1, d =>
    if d.digits ≠ 0 ∧ d.digits % 10 = 0 then dropZeros fuel ⟨d.digits / 10, d.exponent + 1⟩ else d

/-- The decimal digits, most significant first. -/
def digitChars (d : Decimal) : List Char := Nat.toDigits 10 d.digits

/-- The exponent of the first digit. -/
def leadingExponent (d : Decimal) : Int := (d.digitChars.length : Int) - 1 + d.exponent

end Decimal

namespace Binary64

/-- A number, the ends of the interval that rounds to it, and the step of a decimal grid, as
multiples of one unit. -/
structure Grid where
  value : Nat
  low : Nat
  high : Nat
  step : Nat
  /-- The ends themselves round to the number. -/
  closed : Bool
  deriving Repr

/-- The grid of the multiples of `10 ^ place` around a number. The unit is a quarter of the number's
last binary place, or a fraction of it when the grid is finer. -/
def Scaled.grid (x : Scaled) (place : Int) : Grid :=
  let up := Nat.pow 2 (x.exponent - 2).toNat * Nat.pow 10 (-place).toNat
  let below := if x.narrowBelow then 1 else 2
  ⟨4 * x.significand * up, (4 * x.significand - below) * up, (4 * x.significand + 2) * up,
    Nat.pow 2 (2 - x.exponent).toNat * Nat.pow 10 place.toNat, x.significand % 2 == 0⟩

/-- Whether a multiple of the step rounds to the number. -/
def Grid.readsBack (g : Grid) (n : Nat) : Bool :=
  let point := n * g.step
  if g.closed then decide (g.low ≤ point) && decide (point ≤ g.high)
  else decide (g.low < point) && decide (point < g.high)

/-- The nearer of the two neighbours of the number on the grid. -/
def Grid.nearer (g : Grid) (tie : Tie) : Nat :=
  let n := g.value / g.step
  let middle := (2 * n + 1) * g.step
  if 2 * g.value < middle then n
  else if middle < 2 * g.value then n + 1
  else match tie with
    | .up => n + 1
    | .toEven => n + n % 2

/-- The neighbour on the grid that rounds to the number, the nearer if both do. -/
def Grid.pick (g : Grid) (tie : Tie) : Option Nat :=
  let n := g.value / g.step
  match g.readsBack n, g.readsBack (n + 1) with
  | true, true => some (g.nearer tie)
  | true, false => some n
  | false, true => some (n + 1)
  | false, false => none

/-- The decimal exponent of the first digit of a positive number. -/
def Scaled.leadingExponent (x : Scaled) : Int :=
  let g := x.grid 0
  if g.step ≤ g.value then ((Nat.toDigits 10 (g.value / g.step)).length : Int) - 1
  else
    -- The least power of ten that lifts the value to one: it is one less than the digits of the
    -- inverse, or exactly their number.
    let k := (Nat.toDigits 10 (g.step / g.value)).length
    if g.step ≤ g.value * Nat.pow 10 (k - 1) then -((k : Int) - 1) else -(k : Int)

/-- The first decimal grid, from the coarsest on, with a point that rounds to the number; seventeen
digits are enough for every number. -/
def Scaled.search (x : Scaled) (tie : Tie) : Decimal :=
  let lead := x.leadingExponent
  let found := (List.range 17).findSome? fun (n : Nat) =>
    let place := lead - n
    ((x.grid place).pick tie).map fun digits => (⟨digits, place⟩ : Decimal)
  found.getD ⟨(x.grid (lead - 16)).nearer tie, lead - 16⟩

/-- The decimal with the fewest digits that rounds to a finite number, without its sign. -/
def shortest (x : Binary64) (tie : Tie) : Decimal :=
  let s := x.scaled
  if s.significand = 0 then ⟨0, 0⟩ else (s.search tie).dropZeros 17

end Binary64

end ExprFrontEnd
