import ExprFrontEnd.Text.Printable

/-!
# `ExprFrontEnd.Text.Quoted`: texts in double quotes, for messages

`quoted` shows a text on one line and without ambiguity: the quote and the backslash are escaped,
line breaks, tabs and NUL have their two-character forms, and every other character that is not
printable or would attach itself to its neighbour is written as its code point in base sixteen.
-/

set_option autoImplicit false

namespace ExprFrontEnd.Text

/-- The digits of a number in base sixteen, lower case and without padding. -/
def hexDigits (n : Nat) : List Char := Nat.toDigits 16 n

/-- The form of one character inside a quoted text. -/
def escaped (c : Char) : List Char :=
  match c with
  | '"' => ['\\', '"']
  | '\\' => ['\\', '\\']
  | '\n' => ['\\', 'n']
  | '\r' => ['\\', 'r']
  | '\t' => ['\\', 't']
  | '\x00' => ['\\', '0']
  | c =>
    if extendsCluster c || !isPrintable c then ['\\', 'u', '\x7b'] ++ hexDigits c.toNat ++ ['\x7d']
    else [c]

/-- A text in double quotes. -/
def quoted (s : String) : String :=
  String.ofList ('"' :: s.toList.flatMap escaped ++ ['"'])

end ExprFrontEnd.Text
