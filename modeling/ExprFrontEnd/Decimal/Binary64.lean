/-!
# `ExprFrontEnd.Decimal.Binary64`: numbers in 64 bits

A `Binary64` is the bit pattern of a number in the binary interchange format of width 64. It is kept
as bits, so that two numbers are equal when they are the same number and zero keeps its sign. No
machine arithmetic is used: `Binary64.ofDecimal` rounds an exact decimal fraction to the nearest
number by natural-number arithmetic, a tie going to the even significand, and an overflow giving
infinity.
-/

set_option autoImplicit false

namespace ExprFrontEnd

/-- A number of the 64-bit binary format, as its bit pattern. -/
structure Binary64 where
  bits : UInt64
  deriving DecidableEq, Repr

namespace Binary64

/-- The place value of the sign bit, `2 ^ 63`. -/
def signBit : Nat := 0x8000000000000000

/-- The place value of the lowest bit of the exponent field, `2 ^ 52`. It is also that of the
leading bit of a significand, which is not stored. -/
def leadingBit : Nat := 0x10000000000000

/-- The bits without the sign. They grow with the absolute value. -/
def magnitude (x : Binary64) : Nat := x.bits.toNat % signBit

/-- Whether the sign bit is set; also zero can be negative. -/
def isNegative (x : Binary64) : Bool := decide (signBit ≤ x.bits.toNat)

/-- The magnitude of infinity: all exponent bits set, no significand. -/
def infiniteMagnitude : Nat := 2047 * leadingBit

/-- Whether a number is an infinity. -/
def isInfinite (x : Binary64) : Bool := x.magnitude == infiniteMagnitude

/-- A number from its sign and its magnitude bits. -/
def ofMagnitude (negative : Bool) (magnitude : Nat) : Binary64 :=
  ⟨UInt64.ofNat (magnitude + if negative then signBit else 0)⟩

/-- The quotient rounded to the nearest natural number, a tie going to the even one. -/
def divNearestEven (num den : Nat) : Nat :=
  let q := num / den
  let r := num % den
  if 2 * r < den then q
  else if den < 2 * r then q + 1
  else q + q % 2

/-- The exponent of the last place that the quotient's rounding may keep: the one that leaves 53
binary digits, but never less than that of the smallest positive number. -/
def lastPlace (num den : Nat) : Int :=
  let guess : Int := (Nat.log2 num : Int) - Nat.log2 den - 52
  let short : Bool :=
    decide (num * Nat.pow 2 (-guess).toNat < leadingBit * (den * Nat.pow 2 guess.toNat))
  max (if short then guess - 1 else guess) (-1074)

/-- The magnitude bits of the number nearest to a quotient. The exponent field and the significand
add up, so that a significand rounded up to the next power of two carries into the exponent. -/
def magnitudeOfRatio (num den : Nat) : Nat :=
  if num = 0 then 0
  else
    let place := lastPlace num den
    let significand :=
      divNearestEven (num * Nat.pow 2 (-place).toNat) (den * Nat.pow 2 place.toNat)
    min ((place + 1074).toNat * leadingBit + significand) infiniteMagnitude

/-- The number nearest to `digits * 10 ^ exponent`, with a sign. -/
def ofDecimal (negative : Bool) (digits : Nat) (exponent : Int) : Binary64 :=
  ofMagnitude negative
    (magnitudeOfRatio (digits * Nat.pow 10 exponent.toNat) (Nat.pow 10 (-exponent).toNat))

/-- The number that a row of digits denotes. -/
def natOfDigits (digits : List Char) : Nat :=
  digits.foldl (fun n c => 10 * n + (c.toNat - '0'.toNat)) 0

/-- The number nearest to a numeral with the given digits before and after its point. -/
def ofNumeral (whole fraction : List Char) : Binary64 :=
  ofDecimal false (natOfDigits (whole ++ fraction)) (-(fraction.length : Int))

/-- A finite number is `significand * 2 ^ exponent`, up to its sign. -/
structure Scaled where
  significand : Nat
  exponent : Int
  /-- The number below is only half as far away as the number above. -/
  narrowBelow : Bool
  deriving DecidableEq, Repr

/-- The significand and exponent of a finite number. -/
def scaled (x : Binary64) : Scaled :=
  let field : Nat := x.magnitude / leadingBit
  let fraction : Nat := x.magnitude % leadingBit
  if field = 0 then ⟨fraction, -1074, false⟩
  else ⟨leadingBit + fraction, (field : Int) - 1075, fraction == 0 && decide (1 < field)⟩

end Binary64

end ExprFrontEnd
