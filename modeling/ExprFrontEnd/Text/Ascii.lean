/-!
# `ExprFrontEnd.Text.Ascii`: texts up to ASCII case

Names of levels and formats are compared without regard to case, but only as far as the case is that
of ASCII letters.
-/

set_option autoImplicit false

namespace ExprFrontEnd.Text

/-- A text in lower case, as far as it is ASCII. -/
def asciiLower (cs : List Char) : List Char := cs.map Char.toLower

end ExprFrontEnd.Text
