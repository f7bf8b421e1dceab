import ExprFrontEnd.Token

/-!
# `ExprFrontEnd.Operator`: unary and binary operators

The operators of expressions, the symbols that write them and, for the binary ones, how tightly they
bind. There are six levels of precedence.
-/

set_option autoImplicit false

namespace ExprFrontEnd

/-- The operators in front of an operand. -/
inductive UnaryOp where
  | plus
  | minus
  deriving DecidableEq, Repr

namespace UnaryOp

/-- The name of an operator in documents. -/
def label : UnaryOp → String
  | plus => "UnaryPlus"
  | minus => "UnaryMinus"

/-- The symbol that writes an operator. -/
def symbol : UnaryOp → Symbol
  | plus => .plus
  | minus => .minus

/-- The operator that a token writes in front of an operand. -/
def ofKind? : TokenKind → Option UnaryOp
  | .symbol .plus => some plus
  | .symbol .minus => some minus
  | _ => none

/-- A sign is a token of its symbol, and nothing else is. -/
theorem ofKind?_eq_some_iff {kind : TokenKind} {op : UnaryOp} :
    ofKind? kind = some op ↔ kind = .symbol op.symbol := by
  unfold ofKind?
  cases op <;> split <;> simp_all [symbol]

end UnaryOp

/-- The operators between two operands. -/
inductive BinaryOp where
  | times
  | divide
  | modulo
  | plus
  | minus
  | lessThan
  | lessThanEqual
  | greaterThan
  | greaterThanEqual
  | equal
  | notEqual
  | logicalAnd
  | logicalOr
  | nullishCoalescing
  deriving DecidableEq, Repr

namespace BinaryOp

/-- How tightly an operator binds: the higher, the tighter. -/
def precedence : BinaryOp → Nat
  | times | divide | modulo => 12
  | plus | minus => 11
  | lessThan | lessThanEqual | greaterThan | greaterThanEqual => 9
  | equal | notEqual => 8
  | logicalAnd => 4
  | logicalOr | nullishCoalescing => 3

/-- The name of an operator in documents. -/
def label : BinaryOp → String
  | times => "Times"
  | divide => "Divide"
  | modulo => "Modulo"
  | plus => "Plus"
  | minus => "Minus"
  | lessThan => "LessThan"
  | lessThanEqual => "LessThanEqual"
  | greaterThan => "GreaterThan"
  | greaterThanEqual => "GreaterThanEqual"
  | equal => "Equal"
  | notEqual => "NotEqual"
  | logicalAnd => "LogicalAnd"
  | logicalOr => "LogicalOr"
  | nullishCoalescing => "NullishCoalescing"

/-- The symbol that writes an operator. -/
def symbol : BinaryOp → Symbol
  | times => .asterisk
  | divide => .slash
  | modulo => .percent
  | plus => .plus
  | minus => .minus
  | lessThan => .less
  | lessThanEqual => .lessEqual
  | greaterThan => .greater
  | greaterThanEqual => .greaterEqual
  | equal => .equalEqual
  | notEqual => .bangEqual
  | logicalAnd => .ampAmp
  | logicalOr => .pipePipe
  | nullishCoalescing => .questionQuestion

/-- The operator that a symbol writes between two operands. -/
def ofSymbol? : Symbol → Option BinaryOp
  | .asterisk => some times
  | .slash => some divide
  | .percent => some modulo
  | .plus => some plus
  | .minus => some minus
  | .less => some lessThan
  | .lessEqual => some lessThanEqual
  | .greater => some greaterThan
  | .greaterEqual => some greaterThanEqual
  | .equalEqual => some equal
  | .bangEqual => some notEqual
  | .ampAmp => some logicalAnd
  | .pipePipe => some logicalOr
  | .questionQuestion => some nullishCoalescing
  | _ => none

/-- The operator that a token writes between two operands. -/
def ofKind? : TokenKind → Option BinaryOp
  | .symbol s => ofSymbol? s
  | _ => none

/-- Only the symbol of an operator stands for it. -/
theorem ofSymbol?_eq_some_iff {s : Symbol} {op : BinaryOp} :
    ofSymbol? s = some op ↔ s = op.symbol := by
  cases op <;> cases s <;> decide

/-- A binary operator is a token of its symbol, and nothing else is. -/
theorem ofKind?_eq_some_iff {kind : TokenKind} {op : BinaryOp} :
    ofKind? kind = some op ↔ kind = .symbol op.symbol := by
  unfold ofKind?
  split <;> simp_all [ofSymbol?_eq_some_iff]

end BinaryOp

end ExprFrontEnd
