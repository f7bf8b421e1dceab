import ExprFrontEnd.Operator
import ExprFrontEnd.Terminator

/-!
# `ExprFrontEnd.Log.Event`: what can be logged

An `Event` is something worth logging. Its level and its target decide whether a filter lets it
through; its message and its fields are what is written.
-/

set_option autoImplicit false

namespace ExprFrontEnd

/-- How much detail an event belongs to, from the most to the least. -/
inductive Level where
  | trace
  | debug
  | info
  | warn
  | error
  deriving DecidableEq, Repr

namespace Level

/-- A number that grows with the detail. -/
def detail : Level → Nat
  | error => 1
  | warn => 2
  | info => 3
  | debug => 4
  | trace => 5

/-- The name of a level in log lines. -/
def label : Level → String
  | trace => "TRACE"
  | debug => "DEBUG"
  | info => "INFO"
  | warn => "WARN"
  | error => "ERROR"

end Level

/-- Something worth logging. -/
inductive Event where
  /-- Options are read from a file. -/
  | loadingOptions (config : String)
  /-- A target was expanded to so many files. -/
  | parsingTarget (target : String) (files : Nat)
  /-- An expression was read up to a terminator. -/
  | parsedExpression (terminator : TerminatorKind) (issues : Nat)
  /-- A program was read. -/
  | parsedProgram (statements : Nat) (issues : Nat)
  /-- A binary operator got its operands. -/
  | folding (op : BinaryOp)
  /-- A token was skipped that neither joins operands nor ends an expression. -/
  | skippedAfterOperand (token : TokenKind)
  /-- A token was skipped that cannot start an operand. -/
  | skippedInOperand (token : TokenKind)
  /-- So many tokens were skipped behind a failed statement. -/
  | recovered (skipped : Nat)
  deriving DecidableEq, Repr

/-- The value of a field of an event. -/
inductive FieldValue where
  | text (value : String)
  | count (value : Nat)
  deriving DecidableEq, Repr

namespace Event

/-- The level of an event. -/
def level : Event → Level
  | loadingOptions _ | parsingTarget _ _ | parsedExpression _ _ | parsedProgram _ _ => .debug
  | folding _ | skippedAfterOperand _ | skippedInOperand _ | recovered _ => .trace

/-- The part of the program that an event belongs to. -/
def target : Event → String
  | loadingOptions _ => "esc::config"
  | parsingTarget _ _ => "esc"
  | parsedExpression _ _ | parsedProgram _ _ => "esc::surface::parser"
  | folding _ | skippedAfterOperand _ => "esc::surface::parser::expressions"
  | skippedInOperand _ => "esc::surface::parser::primary"
  | recovered _ => "esc::surface::parser::tokens"

/-- The message of an event. -/
def message : Event → String
  | loadingOptions _ => "loading parser options"
  | parsingTarget _ _ => "parsing target"
  | parsedExpression _ _ => "parsed expression"
  | parsedProgram _ _ => "parsed program"
  | folding _ => "folding binary operator"
  | skippedAfterOperand _ => "skipping token after operand"
  | skippedInOperand _ => "skipping token in operand position"
  | recovered _ => "recovered to statement boundary"

/-- The fields of an event, in the order in which they are written. -/
def fields : Event → List (String × FieldValue)
  | loadingOptions config => [("config", .text config)]
  | parsingTarget target files => [("target", .text target), ("files", .count files)]
  | parsedExpression terminator issues =>
    [("terminator", .text terminator.label), ("diagnostics", .count issues)]
  | parsedProgram statements issues =>
    [("statements", .count statements), ("diagnostics", .count issues)]
  | folding op => [("op", .text op.symbol.spelling)]
  | skippedAfterOperand token | skippedInOperand token => [("token", .text token.describe)]
  | recovered skipped => [("skipped", .count skipped)]

/-- The names of the fields of an event, of which the message is one. -/
def fieldNames (e : Event) : List String := "message" :: e.fields.map (·.1)

end Event

end ExprFrontEnd
