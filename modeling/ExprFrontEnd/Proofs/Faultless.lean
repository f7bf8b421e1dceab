import ExprFrontEnd.Proofs.LexInPlace
import ExprFrontEnd.Proofs.StatementsInPlace

/-!
# `ExprFrontEnd.Proofs.Faultless`: no operation is out of its domain

The readers of this library take lists apart and cannot fail. This module says the same
of those that work in place, where every partial operation is checked:

* looking up a character by its index, cutting a slice out of the text, and making a
  span of two offsets (`CharVector.lex?_ofText`);
* taking one from the length of a vector of tokens, and looking up a token by its index
  (`Session.answerAll?_vector`);
* taking an operator and two operands from the stacks, and the one expression that is
  left when the operators are used up (`Stacks.group?_eq`, `Chain.run?_session`).

One check that failed would make a whole reader give `none`. The depth of calls and the
number of turns are bounded as well. The bounds are always enough, so a reader comes to
an end.
-/

set_option autoImplicit false

namespace ExprFrontEnd

/-- At a session all readers in place do what is done at a cursor, and leave a session of
the same vector. -/
structure Faultless (mode : Reduction) (m : Session) (c : Cursor) : Prop where
  /-- Behind any row of calls the index is inside the vector. -/
  calls : ∀ calls : List (Scope × Cursor.Call),
    ∃ (answers : List (Option Token)) (j : Fin m.tokens.size),
      Session.answerAll? calls m = some (answers, { m with index := j })
  /-- Whatever is folded is on the stacks, and they come to one expression. -/
  expression : ∀ s : Scope, Chain.run? mode s m
    = some ((Chain.outcome mode (Chain.read s c)).inSession m.tokens m.issues)
  declaration : DeclClause.run? mode m
    = some ((DeclClause.outcome mode (DeclClause.read c)).inSession m.tokens m.issues)
  statement : Clause.run? mode m
    = some ((Clause.outcome mode (Clause.read c)).inSession m.tokens m.issues)
  skipping : m.recover? = some (c.recover.2.session m.tokens m.issues)
  program : Attempt.run? mode m
    = some ((Attempt.readAll c).1.filterMap (Attempt.toStmt? mode),
        (Attempt.readAll c).2.session m.tokens
          (m.issues ++ (Attempt.readAll c).1.flatMap Attempt.issues))

/-- **No input makes an operation fail.** Every source text is lexed in place. The stacks
of every row of operands have what is folded, and come to one expression. Every list of
tokens, and be it empty, is closed to a vector that is not, and from every index into it
all calls and readers come to an end, in both modes and scopes, whatever was recorded
before. -/
theorem faultless (mode : Reduction) (source : String) (tokens : List Token) :
    (CharVector.ofText source).lex?
        = some ((lex source).tokens, (lex source).issues.map Issue.toDiagnostic) ∧
      (∀ (e : Expr) (links : List (BinaryOp × Expr)),
        Stacks.group? mode e links = some (group mode e links).toExpr) ∧
      0 < (Token.vector tokens).size ∧
      ∀ (i : Fin (Token.vector tokens).size) (recorded : List Issue),
        Faultless mode ⟨Token.vector tokens, i, recorded⟩ ((Cursor.ofTokens tokens).skip i) := by
  refine ⟨CharVector.lex?_ofText source, Stacks.group?_eq mode, Token.size_vector_pos tokens,
    fun i recorded => ?_⟩
  -- Each field is one run in place, at the cursor that the index stands for.
  obtain ⟨hin, -⟩ := Cursor.in_vector tokens i
  have hm := Cursor.session_vector tokens i recorded
  exact {
    calls := Session.answerAll?_vector tokens i recorded
    expression := fun s => by
      rw [hm, Chain.run?_session mode s hin, Chain.parse_eq]
      rfl
    declaration := by
      rw [hm, DeclClause.run?_session mode hin, DeclClause.parse_eq]
      rfl
    statement := by
      rw [hm, Clause.run?_session mode hin, Clause.parse_eq]
      rfl
    skipping := by
      rw [hm, hin.recover?_session]
      rfl
    program := by
      rw [hm, Attempt.run?_session mode hin]
      rfl }

end ExprFrontEnd
