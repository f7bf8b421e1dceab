import ExprFrontEnd.Grouping

/-!
# `ExprFrontEnd.Expr`: expressions

The tree of an expression. Every node has a span; the parentheses of a group leave no trace. A tree
may stand for a text with faults: `Expr.ignore` takes the place of a missing operand, and a missing
member name is the empty name.
-/

set_option autoImplicit false

namespace ExprFrontEnd

/-- A name at its place. The name is empty where one is missing. -/
structure Identifier where
  name : String
  span : Span
  deriving DecidableEq, Repr

/-- An expression. -/
inductive Expr where
  | number (value : Binary64) (span : Span)
  | string (value : String) (span : Span)
  | identifier (name : Identifier)
  | unary (op : UnaryOp) (arg : Expr) (span : Span)
  | binary (left : Expr) (op : BinaryOp) (right : Expr) (span : Span)
  | call (callee : Expr) (args : List Expr) (optional : Bool) (span : Span)
  | index (object : Expr) (index : Expr) (optional : Bool) (span : Span)
  | member (object : Expr) (prop : Identifier) (optional : Bool) (span : Span)
  | array (elems : List Expr) (span : Span)
  /-- Stands for a missing operand; `token` is what was found in its place. -/
  | ignore (token : Token) (span : Span)
  deriving Repr

namespace Expr

/-- The part of the source that an expression covers. -/
def span : Expr → Span
  | number _ span => span
  | string _ span => span
  | identifier name => name.span
  | unary _ _ span => span
  | binary _ _ _ span => span
  | call _ _ _ span => span
  | index _ _ _ span => span
  | member _ _ _ span => span
  | array _ span => span
  | ignore _ span => span

end Expr

/-- The expression of a tree of operators. A node reaches over both of its operands. -/
def Grouping.toExpr : Grouping Expr → Expr
  | .operand e => e
  | .joined left op right =>
    .binary left.toExpr op right.toExpr (left.toExpr.span.merge right.toExpr.span)

end ExprFrontEnd
