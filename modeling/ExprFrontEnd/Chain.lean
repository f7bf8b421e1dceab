import ExprFrontEnd.Operator
import ExprFrontEnd.Terminator

/-!
# `ExprFrontEnd.Chain`: an expression as it was read

A `Chain` keeps everything that reading an expression found, in the order of the source: operands,
operators, accessors, the tokens that were out of place and skipped, and the terminator. It says
nothing yet about how operators group. The tree of the expression, its issues and the trace of its
reading are all views of its chain.

```text
Chain     = Operand Links
Links     = terminator | stray Links | operator Operand Links
Operand   = sign Operand | Primary
Primary   = stray Primary | Atom Accessors
Atom      = number | string | name | "(" Chain | "[" Items | missing
Accessors = nothing | "(" Items Accessors | "[" Chain Accessors | "." name Accessors
Items     = Chain | Chain Items
```

Closing delimiters are not matched with opening ones: each of them ends the innermost chain.
-/

set_option autoImplicit false

namespace ExprFrontEnd

mutual

/-- Operands joined by operators, up to a terminator. -/
inductive Chain where
  | mk (first : Operand) (links : Links)

/-- What follows an operand. -/
inductive Links where
  /-- The end of the chain. -/
  | done (terminator : Terminator)
  /-- A token that neither joins operands nor ends the chain. -/
  | stray (token : Token) (rest : Links)
  /-- An operator and its right operand. -/
  | link (op : BinaryOp) (token : Token) (operand : Operand) (rest : Links)

/-- What stands between two operators. -/
inductive Operand where
  /-- A sign in front of an operand. -/
  | signed (op : UnaryOp) (token : Token) (operand : Operand)
  | bare (primary : Primary)

/-- An operand without signs. -/
inductive Primary where
  /-- A token that cannot start an operand. -/
  | stray (token : Token) (rest : Primary)
  | atom (atom : Atom) (accessors : Accessors)

/-- An operand without accessors. -/
inductive Atom where
  | number (value : Binary64) (span : Span)
  | string (value : String) (span : Span)
  | name (name : String) (span : Span)
  | group (opening : Token) (inner : Chain)
  | array (opening : Token) (elems : Items)
  /-- A token that closes something, where an operand should be. -/
  | missing (found : Token)

/-- The calls, indexes and members behind an atom, from left to right. -/
inductive Accessors where
  | none
  | call (optional : Bool) (opening : Token) (args : Items) (rest : Accessors)
  | index (optional : Bool) (opening : Token) (inner : Chain) (rest : Accessors)
  /-- A dot and the token behind it, which should be a name. -/
  | member (optional : Bool) (dot : Token) (found : Token) (rest : Accessors)

/-- Chains of which all but the last end in a comma. -/
inductive Items where
  | last (item : Chain)
  | more (item : Chain) (rest : Items)

end

mutual

/-- The token that ends a chain. -/
def Chain.terminator : Chain → Terminator
  | .mk _ links => links.terminator

/-- The token that ends the chain. -/
def Links.terminator : Links → Terminator
  | .done terminator => terminator
  | .stray _ rest => rest.terminator
  | .link _ _ _ rest => rest.terminator

end

namespace Items

/-- The token that ends a list. -/
def terminator : Items → Terminator
  | last item => item.terminator
  | more _ rest => rest.terminator

end Items

/-! ### What tokens mean in an operand -/

/-- Whether a token starts an atom. -/
def TokenKind.opensOperand : TokenKind → Bool
  | .number _ | .string _ | .identifier _ => true
  | .symbol .openParen | .symbol .openBracket => true
  | _ => false

/-- Whether a token may only close something, so that an operand in front of it is missing. A
closing bracket does not count: it is skipped like any other token. -/
def TokenKind.closesOperand : TokenKind → Bool
  | .symbol .closeBrace | .symbol .comma | .symbol .closeParen | .eof => true
  | _ => false

/-- The kinds of accessors. -/
inductive AccessorKind where
  | call
  | index
  | member
  deriving DecidableEq, Repr

/-- The accessor that a token starts, and whether it is optional. -/
def TokenKind.accessor? : TokenKind → Option (AccessorKind × Bool)
  | .symbol .openParen => some (.call, false)
  | .symbol .questionOpenParen => some (.call, true)
  | .symbol .openBracket => some (.index, false)
  | .symbol .questionOpenBracket => some (.index, true)
  | .symbol .dot => some (.member, false)
  | .symbol .questionDot => some (.member, true)
  | _ => none

end ExprFrontEnd
