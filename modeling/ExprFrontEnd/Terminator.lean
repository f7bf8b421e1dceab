import ExprFrontEnd.Token

/-!
# `ExprFrontEnd.Terminator`: the tokens that end an expression

An expression runs up to the first comma, closing delimiter or end of input behind a complete
operand. Which of them it is matters only to the construct around it.
-/

set_option autoImplicit false

namespace ExprFrontEnd

/-- The kinds of tokens that end an expression. -/
inductive TerminatorKind where
  | comma
  | closeParen
  | closeBracket
  | closeBrace
  | eof
  deriving DecidableEq, Repr

namespace TerminatorKind

/-- The kind of terminator that a token is, if it is one. -/
def ofKind? : TokenKind → Option TerminatorKind
  | .symbol .comma => some comma
  | .symbol .closeParen => some closeParen
  | .symbol .closeBracket => some closeBracket
  | .symbol .closeBrace => some closeBrace
  | .eof => some eof
  | _ => none

/-- The name of a kind of terminator in documents. -/
def label : TerminatorKind → String
  | comma => "Comma"
  | closeParen => "CloseParen"
  | closeBracket => "CloseBracket"
  | closeBrace => "CloseBrace"
  | eof => "Eof"

end TerminatorKind

/-- The token that ended an expression. -/
structure Terminator where
  kind : TerminatorKind
  token : Token
  deriving DecidableEq, Repr

namespace Terminator

/-- The place of a terminator. -/
def span (t : Terminator) : Span := t.token.span

end Terminator

end ExprFrontEnd
