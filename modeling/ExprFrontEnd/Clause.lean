import ExprFrontEnd.Chain.Issues
import ExprFrontEnd.Chain.Trace
import ExprFrontEnd.Chain.Tree
import ExprFrontEnd.Stmt

/-!
# `ExprFrontEnd.Clause`: a program as it was read

A `Clause` is a statement whose expressions are still chains. A program is read in attempts: each of
them gives a clause, or fails with one issue and skips ahead to the next reserved word. Statements,
issues and trace are views of the attempts, and only the first and the last of them depend on the
mode of reduction.
-/

set_option autoImplicit false

namespace ExprFrontEnd

/-- What stands in front of a declaration's own reserved word. -/
structure DeclHead where
  /-- The place of the first token of the declaration. -/
  start : Span
  exported : Bool
  declared : Bool
  deriving DecidableEq, Repr

/-- A declaration as it was read. -/
inductive DeclClause where
  | binding (head : DeclHead) (binding : Binding) (name : Identifier) (init : Option Chain)
  /-- A function; `close` is the place of the parenthesis that closes its parameters, if any. -/
  | function (head : DeclHead) (name : Identifier) (params : List Identifier) (close : Option Span)

namespace DeclClause

/-- The tree of a declaration. It ends with its initializer, with its closing parenthesis or else
with its name. -/
def toDecl (mode : Reduction) : DeclClause → Decl
  | binding head b name init =>
    let init := init.map (Chain.toExpr mode)
    let stop := init.elim name.span Expr.span
    ⟨.binding b name init, head.exported, head.declared, head.start.merge stop⟩
  | function head name params close =>
    ⟨.function name params, head.exported, head.declared,
      head.start.merge (close.getD name.span)⟩

/-- The issues of a declaration. -/
def issues : DeclClause → List Issue
  | binding _ _ _ init => init.elim [] Chain.issues
  | function _ _ _ _ => []

/-- The trace of reading a declaration. -/
def trace (mode : Reduction) : DeclClause → List Event
  | binding _ _ _ init => init.elim [] (Chain.trace mode)
  | function _ _ _ _ => []

end DeclClause

/-- A statement as it was read. -/
inductive Clause where
  | decl (decl : DeclClause)
  | ret (keyword : Token) (arg : Option Chain)

namespace Clause

/-- The tree of a statement. -/
def toStmt (mode : Reduction) : Clause → Stmt
  | decl d =>
    let tree := d.toDecl mode
    .decl tree tree.span
  | ret keyword arg =>
    let arg := arg.map (Chain.toExpr mode)
    .ret arg (arg.elim keyword.span fun e => keyword.span.merge e.span)

/-- The issues of a statement. -/
def issues : Clause → List Issue
  | decl d => d.issues
  | ret _ arg => arg.elim [] Chain.issues

/-- The trace of reading a statement. -/
def trace (mode : Reduction) : Clause → List Event
  | decl d => d.trace mode
  | ret _ arg => arg.elim [] (Chain.trace mode)

end Clause

/-- An attempt to read a statement. -/
inductive Attempt where
  | read (clause : Clause)
  /-- A failed attempt: its issue, and the number of tokens skipped behind it. -/
  | failed (issue : Issue) (skipped : Nat)

namespace Attempt

/-- The statement of an attempt, unless it failed. -/
def toStmt? (mode : Reduction) : Attempt → Option Stmt
  | read clause => some (clause.toStmt mode)
  | failed _ _ => none

/-- The issues of an attempt. A failed attempt has exactly one. -/
def issues : Attempt → List Issue
  | read clause => clause.issues
  | failed issue _ => [issue]

/-- The trace of an attempt. Skipping nothing leaves no trace. -/
def trace (mode : Reduction) : Attempt → List Event
  | read clause => clause.trace mode
  | failed _ skipped => if skipped = 0 then [] else [.recovered skipped]

end Attempt

end ExprFrontEnd
