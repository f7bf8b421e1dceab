import ExprFrontEnd.Chain
import ExprFrontEnd.Grouping
import ExprFrontEnd.Log.Event

/-!
# `ExprFrontEnd.Chain.Trace`: the trace of reading a chain

What the log shows of reading a chain, in the order in which it happens: tokens that are skipped,
and operators that are folded. An operator is folded as soon as an operator behind it makes it due,
hence before the operand of the latter is read; the operators that are left are folded at the end of
the chain, the last one first.
-/

set_option autoImplicit false

namespace ExprFrontEnd

mutual

/-- The trace of a chain. -/
def Chain.trace (mode : Reduction) : Chain → List Event
  | .mk first links => first.trace mode ++ links.trace mode []

/-- The trace behind an operand, with the operators that wait, the last one first. -/
def Links.trace (mode : Reduction) (waiting : List BinaryOp) : Links → List Event
  | .done _ => waiting.map .folding
  | .stray token rest => .skippedAfterOperand token.kind :: rest.trace mode waiting
  | .link op _ operand rest =>
    let n := due mode waiting op
    (waiting.take n).map .folding
      ++ (operand.trace mode ++ rest.trace mode (op :: waiting.drop n))

/-- The trace of an operand. -/
def Operand.trace (mode : Reduction) : Operand → List Event
  | .signed _ _ operand => operand.trace mode
  | .bare primary => primary.trace mode

/-- The trace of an operand without signs. -/
def Primary.trace (mode : Reduction) : Primary → List Event
  | .stray token rest => .skippedInOperand token.kind :: rest.trace mode
  | .atom atom accessors => atom.trace mode ++ accessors.trace mode

/-- The trace of an atom. -/
def Atom.trace (mode : Reduction) : Atom → List Event
  | .number _ _ | .string _ _ | .name _ _ | .missing _ => []
  | .group _ inner => inner.trace mode
  | .array _ elems => elems.trace mode

/-- The trace of the accessors behind an atom. -/
def Accessors.trace (mode : Reduction) : Accessors → List Event
  | .none => []
  | .call _ _ args rest => args.trace mode ++ rest.trace mode
  | .index _ _ inner rest => inner.trace mode ++ rest.trace mode
  | .member _ _ _ rest => rest.trace mode

/-- The trace of a list. -/
def Items.trace (mode : Reduction) : Items → List Event
  | .last item => item.trace mode
  | .more item rest => item.trace mode ++ rest.trace mode

end

end ExprFrontEnd
