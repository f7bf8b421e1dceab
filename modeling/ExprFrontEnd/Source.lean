import ExprFrontEnd.Clause.Read
import ExprFrontEnd.Lexed

/-!
# `ExprFrontEnd.Source`: parsing a source text

`parseExpression` and `parseProgram` take a source text through all stages: tokens, chains, trees.
The issues of the lexer and of the reader are merged in the order of the source.
-/

set_option autoImplicit false

namespace ExprFrontEnd

/-- A source text read as one expression. What stands behind its terminator is not read. -/
structure ParsedExpression where
  expr : Expr
  terminator : Terminator
  issues : List Issue
  trace : List Event

namespace ParsedExpression

/-- The reports of the issues. -/
def diagnostics (p : ParsedExpression) : List Diagnostic := p.issues.map Issue.toDiagnostic

end ParsedExpression

/-- Reads a source text as one expression. -/
def parseExpression (mode : Reduction) (source : String) : ParsedExpression :=
  let lexed := lex source
  let chain := (Chain.read .stream (.ofTokens lexed.tokens)).1
  { expr := chain.toExpr mode
    terminator := chain.terminator
    issues := mergeIssues lexed.issues chain.issues
    trace := chain.trace mode
      ++ [.parsedExpression chain.terminator.kind chain.issues.length] }

/-- A source text read as a program. -/
structure ParsedProgram where
  statements : List Stmt
  issues : List Issue
  trace : List Event

namespace ParsedProgram

/-- The reports of the issues. -/
def diagnostics (p : ParsedProgram) : List Diagnostic := p.issues.map Issue.toDiagnostic

end ParsedProgram

/-- Reads a source text as statements up to its end. -/
def parseProgram (mode : Reduction) (source : String) : ParsedProgram :=
  let lexed := lex source
  let attempts := (Attempt.readAll (.ofTokens lexed.tokens)).1
  let statements := attempts.filterMap (Attempt.toStmt? mode)
  let issues := attempts.flatMap Attempt.issues
  { statements := statements
    issues := mergeIssues lexed.issues issues
    trace := attempts.flatMap (Attempt.trace mode)
      ++ [.parsedProgram statements.length issues.length] }

end ExprFrontEnd
