import ExprFrontEnd.Chain
import ExprFrontEnd.Expr

/-!
# `ExprFrontEnd.Chain.Tree`: the tree of a chain

`Chain.toExpr` groups the operators of a chain, and of the chains inside of it, by a mode of
reduction. This is the only place where the mode has a say: what is read, and what is wrong with
it, is settled before.

The span of a node covers its parts; that of a call, an index or an array ends with its
terminator. The parentheses of a group are not part of any span.
-/

set_option autoImplicit false

namespace ExprFrontEnd

/-- The name behind a dot. If there is none, it is empty and right behind the dot. -/
def memberName (dot found : Token) : Identifier :=
  match found.kind with
  | .identifier name => ⟨name, found.span⟩
  | _ => ⟨"", .empty dot.span.stop⟩

mutual

/-- The tree of a chain. -/
def Chain.toExpr (mode : Reduction) : Chain → Expr
  | .mk first links => (group mode (first.toExpr mode) (links.toPairs mode)).toExpr

/-- The operators behind an operand, each with its right operand. -/
def Links.toPairs (mode : Reduction) : Links → List (BinaryOp × Expr)
  | .done _ => []
  | .stray _ rest => rest.toPairs mode
  | .link op _ operand rest => (op, operand.toExpr mode) :: rest.toPairs mode

/-- The tree of an operand with its signs. -/
def Operand.toExpr (mode : Reduction) : Operand → Expr
  | .signed op token operand =>
    let arg := operand.toExpr mode
    .unary op arg (token.span.merge arg.span)
  | .bare primary => primary.toExpr mode

/-- The tree of an operand without signs. -/
def Primary.toExpr (mode : Reduction) : Primary → Expr
  | .stray _ rest => rest.toExpr mode
  | .atom atom accessors => accessors.apply mode (atom.toExpr mode)

/-- The tree of an atom. -/
def Atom.toExpr (mode : Reduction) : Atom → Expr
  | .number value span => .number value span
  | .string value span => .string value span
  | .name name span => .identifier ⟨name, span⟩
  | .group _ inner => inner.toExpr mode
  | .array opening elems => .array (elems.toExprs mode) (opening.span.merge elems.terminator.span)
  | .missing found => .ignore found found.span

/-- The tree of an expression with accessors behind it. -/
def Accessors.apply (mode : Reduction) (e : Expr) : Accessors → Expr
  | .none => e
  | .call optional _ args rest =>
    rest.apply mode
      (.call e (args.toExprs mode) optional (e.span.merge args.terminator.span))
  | .index optional _ inner rest =>
    rest.apply mode (.index e (inner.toExpr mode) optional (e.span.merge inner.terminator.span))
  | .member optional dot found rest =>
    let name := memberName dot found
    rest.apply mode (.member e name optional (e.span.merge name.span))

/-- The trees of a list. -/
def Items.toExprs (mode : Reduction) : Items → List Expr
  | .last item => [item.toExpr mode]
  | .more item rest => item.toExpr mode :: rest.toExprs mode

end

end ExprFrontEnd
