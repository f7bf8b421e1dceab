import ExprFrontEnd.Chain
import ExprFrontEnd.Problem

/-!
# `ExprFrontEnd.Chain.Issues`: what is wrong with a chain

`Chain.issues` lists the issues of a chain in the order of the source. There are three kinds: tokens
that were skipped, operands that are missing, and dots without a name behind them.
-/

set_option autoImplicit false

namespace ExprFrontEnd

/-- The issue of a dot: there is one unless a name follows. It is reported at the dot. -/
def memberIssues (optional : Bool) (dot found : Token) : List Issue :=
  match found.kind with
  | .identifier _ => []
  | _ => [⟨.memberExpected optional, dot.span⟩]

mutual

/-- The issues of a chain. -/
def Chain.issues : Chain → List Issue
  | .mk first links => first.issues ++ links.issues

/-- The issues behind an operand. -/
def Links.issues : Links → List Issue
  | .done _ => []
  | .stray token rest => ⟨.operatorExpected token.kind, token.span⟩ :: rest.issues
  | .link _ _ operand rest => operand.issues ++ rest.issues

/-- The issues of an operand. -/
def Operand.issues : Operand → List Issue
  | .signed _ _ operand => operand.issues
  | .bare primary => primary.issues

/-- The issues of an operand without signs. -/
def Primary.issues : Primary → List Issue
  | .stray token rest => ⟨.operandExpected token.kind, token.span⟩ :: rest.issues
  | .atom atom accessors => atom.issues ++ accessors.issues

/-- The issues of an atom. -/
def Atom.issues : Atom → List Issue
  | .number _ _ | .string _ _ | .name _ _ => []
  | .group _ inner => inner.issues
  | .array _ elems => elems.issues
  | .missing found => [⟨.operandExpected found.kind, found.span⟩]

/-- The issues of the accessors behind an atom. -/
def Accessors.issues : Accessors → List Issue
  | .none => []
  | .call _ _ args rest => args.issues ++ rest.issues
  | .index _ _ inner rest => inner.issues ++ rest.issues
  | .member optional dot found rest => memberIssues optional dot found ++ rest.issues

/-- The issues of a list. -/
def Items.issues : Items → List Issue
  | .last item => item.issues
  | .more item rest => item.issues ++ rest.issues

end

end ExprFrontEnd
