import ExprFrontEnd.Token

/-!
# `ExprFrontEnd.Problem`: what can be wrong with a source text

A `Problem` is a cause: what was found, or what was missing. `Problem.code` and `Problem.message`
put it into words. An `Issue` is a problem at its place, and `Issue.toDiagnostic` makes it a
`Diagnostic`: the form in which problems are reported, rendered and listed.
-/

set_option autoImplicit false

namespace ExprFrontEnd

/-- The places where a name is required. -/
inductive NamePlace where
  /-- After `val` or `var`. -/
  | binding
  /-- After `fn`. -/
  | function
  /-- In a list of parameters. -/
  | parameter
  deriving DecidableEq, Repr

/-- Everything that can be wrong with a source text. -/
inductive Problem where
  /-- A character that starts no token. -/
  | unexpectedCharacter (char : Char)
  /-- A string literal without its closing quote. -/
  | unterminatedString
  /-- A numeral that runs straight into a name. -/
  | invalidNumber (text : String)
  /-- A token that cannot start an operand. -/
  | operandExpected (found : TokenKind)
  /-- A token that neither joins operands nor ends the expression. -/
  | operatorExpected (found : TokenKind)
  /-- No name after `.`, or after `?.` if optional. -/
  | memberExpected (optional : Bool)
  /-- No name where a declaration requires one. -/
  | nameExpected (place : NamePlace) (found : TokenKind)
  /-- No `=` after the name of a variable that is not just declared. -/
  | equalsExpected (found : TokenKind)
  /-- A token that starts no statement. -/
  | statementExpected (found : TokenKind)
  /-- No `,` or `)` after a parameter. -/
  | delimiterExpected (found : TokenKind)
  deriving DecidableEq, Repr

namespace Problem

/-- The code that identifies a kind of problem. -/
def code : Problem → String
  | unexpectedCharacter _ => "E1000"
  | unterminatedString => "E1001"
  | invalidNumber _ => "E1002"
  | operandExpected _ => "E2001"
  | operatorExpected _ => "E2002"
  | memberExpected _ => "E2003"
  | nameExpected _ _ => "E2101"
  | equalsExpected _ => "E2102"
  | statementExpected _ => "E2103"
  | delimiterExpected _ => "E2104"

/-- A problem in words. -/
def message : Problem → String
  | unexpectedCharacter char => "unexpected character '" ++ char.toString ++ "'"
  | unterminatedString => "unterminated string literal"
  | invalidNumber text => "invalid number literal `" ++ text ++ "`"
  | operandExpected found => "unexpected " ++ found.describe ++ " where an operand was expected"
  | operatorExpected found => "unexpected " ++ found.describe ++ " after an operand"
  | memberExpected optional =>
    "expected an identifier after " ++ if optional then "?." else "."
  | nameExpected .binding found =>
    "expected a name after the binding keyword, found " ++ found.describe
  | nameExpected .function found => "expected a function name after `fn`, found " ++ found.describe
  | nameExpected .parameter found => "expected a parameter name, found " ++ found.describe
  | equalsExpected found => "expected `=` but found " ++ found.describe
  | statementExpected found =>
    "unexpected " ++ found.describe ++ " at the start of a statement"
  | delimiterExpected found =>
    "expected `,` or `)` in a parameter list, found " ++ found.describe

end Problem

/-! ### Diagnostics -/

/-- A remark on a place that belongs to a diagnostic. -/
structure Label where
  message : String
  span : Span
  deriving DecidableEq, Repr

/-- A reported problem. Every diagnostic is an error: there are no lesser severities. -/
structure Diagnostic where
  code : String
  message : String
  span : Span
  labels : List Label
  deriving DecidableEq, Repr

/-- A problem and its place. -/
structure Issue where
  problem : Problem
  span : Span
  deriving DecidableEq, Repr

namespace Issue

/-- The remarks on an issue: where an unclosed string literal starts. -/
def labels (i : Issue) : List Label :=
  match i.problem with
  | .unterminatedString =>
    [⟨"string literal started here", ⟨i.span.start, i.span.start + 1⟩⟩]
  | _ => []

/-- The report of an issue. -/
def toDiagnostic (i : Issue) : Diagnostic :=
  ⟨i.problem.code, i.problem.message, i.span, i.labels⟩

/-- The same issue further to the right. -/
def shift (distance : Nat) (i : Issue) : Issue := ⟨i.problem, i.span.shift distance⟩

end Issue

/-- The issues of two stages as one list in the order of the source: by start, and at one start the
earlier stage first. -/
def mergeIssues (earlier later : List Issue) : List Issue :=
  (earlier ++ later).mergeSort fun a b => decide (a.span.start ≤ b.span.start)

end ExprFrontEnd
