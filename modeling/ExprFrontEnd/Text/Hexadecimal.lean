/-!
# `ExprFrontEnd.Text.Hexadecimal`: numbers of base sixteen

Escapes write a character as its code point with a fixed number of hexadecimal digits.
-/

set_option autoImplicit false

namespace ExprFrontEnd.Text

/-- The number that digits of base sixteen denote. -/
def hexNumber? (digits : List Char) : Option Nat :=
  digits.foldlM (fun n c =>
    if c.isDigit then some (16 * n + (c.toNat - '0'.toNat))
    else if 'a' ≤ c ∧ c ≤ 'f' then some (16 * n + (c.toNat - 'a'.toNat + 10))
    else if 'A' ≤ c ∧ c ≤ 'F' then some (16 * n + (c.toNat - 'A'.toNat + 10))
    else none) 0

/-- Takes the character of a code point with a fixed number of digits. -/
def codePoint (width : Nat) (cs : List Char) : Option (Char × List Char) :=
  if (cs.take width).length < width then none
  else do
    let n ← hexNumber? (cs.take width)
    if n.isValidChar then return (Char.ofNat n, cs.drop width) else none

end ExprFrontEnd.Text
