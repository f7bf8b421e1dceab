import ExprFrontEnd.Proofs.Placeholders
import ExprFrontEnd.Proofs.StatementsInPlace

/-!
# `ExprFrontEnd.Proofs.ReportedOnce`: a statement that fails is reported once

A reader of a declaration can leave early at many places: no name, no `=`, a wrong
delimiter. Each of them records one issue and calls no further reader. A reader
that goes on to an expression does not fail any more, so the issues of expressions
and those of failures are never recorded in one call.

* `ReportedOnce`: what a call may add to the list of issues. A failed one adds
  exactly one issue, with the code of a failed statement. One that gives a value
  adds issues of its expression only.
* `countP_isOfStatement`: so in a row of attempts such codes count those that failed.
* `reportedOnce_vector`: in place, from every index into the vector of every list of
  tokens, and whatever was recorded before.
-/

set_option autoImplicit false

namespace ExprFrontEnd

/-! ### Codes -/

/-- The codes of statements that failed. -/
def statementCodes : List String := ["E2101", "E2102", "E2103", "E2104"]

/-- The codes of what is wrong with an expression that was read. -/
def expressionCodes : List String := ["E2001", "E2002", "E2003"]

/-- Whether an issue has a code that starts with `E21`. -/
def Issue.isOfStatement (i : Issue) : Bool := "E21".toList.isPrefixOf i.toDiagnostic.code.toList

/-- Problems of statements are those that make an attempt fail, and they have the codes from
`E2101` on. -/
theorem Problem.code_mem_statementCodes {p : Problem} (h : p.isOfStatement = true) :
    p.code ∈ statementCodes := by
  cases p with
  | nameExpected | equalsExpected | statementExpected | delimiterExpected =>
    simp [code, statementCodes]
  | _ => cases h

/-- Problems of expressions leave a tree behind, and have the codes from `E2001` to `E2003`. -/
theorem Problem.code_mem_expressionCodes {p : Problem} (h : p.isOfExpression = true) :
    p.code ∈ expressionCodes := by
  cases p with
  | operandExpected | operatorExpected | memberExpected => simp [code, expressionCodes]
  | _ => cases h

/-- The two lists of codes have nothing in common, so a code tells what its problem is of. -/
theorem Issue.isOfStatement_of_mem {i : Issue} (h : i.toDiagnostic.code ∈ statementCodes) :
    i.isOfStatement = true := by
  have hcodes : ∀ code ∈ statementCodes, "E21".toList.isPrefixOf code.toList = true := by
    decide +kernel
  exact hcodes _ h

/-- The other half: no code of an expression comes from a statement. -/
theorem Issue.isOfStatement_eq_false_of_mem {i : Issue}
    (h : i.toDiagnostic.code ∈ expressionCodes) : i.isOfStatement = false := by
  have hcodes : ∀ code ∈ expressionCodes, "E21".toList.isPrefixOf code.toList = false := by
    decide +kernel
  exact hcodes _ h

/-! ### What a call adds -/

/-- What a call has given, and the issues that it has added: one with the code of a
failed statement if it gave nothing, and else only those of its expression. -/
def ReportedOnce {α : Type} (value : Option α) (added : List Issue) : Prop :=
  match value with
  | none => ∃ issue, added = [issue] ∧ issue.toDiagnostic.code ∈ statementCodes
  | some _ => ∀ issue ∈ added, issue.toDiagnostic.code ∈ expressionCodes

section
variable {α : Type}

/-- A reader that gave nothing has one issue. -/
theorem ReportedOnce.none {issue : Issue} (h : issue.problem.isOfStatement = true) :
    ReportedOnce (α := α) none [issue] :=
  ⟨issue, rfl, Problem.code_mem_statementCodes h⟩

/-- A reader that gave something has issues of its expression only. -/
theorem ReportedOnce.some (a : α) {issues : List Issue}
    (h : ∀ i ∈ issues, i.problem.isOfExpression = true) : ReportedOnce (some a) issues :=
  fun i hi => Problem.code_mem_expressionCodes (h i hi)

/-- So the issues with such codes count the calls that failed. -/
theorem countP_isOfStatement {attempts : List (Option α × List Issue)}
    (h : ∀ a ∈ attempts, ReportedOnce a.1 a.2) :
    (attempts.flatMap Prod.snd).countP Issue.isOfStatement
      = attempts.countP fun a => a.1.isNone := by
  induction attempts with
  | nil => rfl
  | cons a attempts ih =>
    obtain ⟨ha, hrest⟩ := List.forall_mem_cons.mp h
    rw [List.flatMap_cons, List.countP_append, ih hrest, List.countP_cons, Nat.add_comm]
    obtain ⟨_ | value, added⟩ := a
    · obtain ⟨issue, rfl, hissue⟩ := ha
      simp [Issue.isOfStatement_of_mem hissue]
    · -- No issue of an expression has the code of a failed statement.
      have hzero : added.countP Issue.isOfStatement = 0 := by
        rw [List.countP_eq_zero]
        intro i hi
        rw [Issue.isOfStatement_eq_false_of_mem (ha i hi)]
        exact Bool.false_ne_true
      simp [hzero]

end

/-- A declaration is reported once. -/
theorem DeclClause.reportedOnce_outcome (mode : Reduction) (c : Cursor) :
    ReportedOnce (outcome mode (read c)).value (outcome mode (read c)).issues := by
  rcases hread : read c with ⟨issue | r, d⟩
  · exact .none (isOfStatement_read hread)
  · exact .some (r.toDecl mode) (Clause.decl r).isOfExpression_issues

/-- So is a statement. -/
theorem Clause.reportedOnce_outcome (mode : Reduction) (c : Cursor) :
    ReportedOnce (outcome mode (read c)).value (outcome mode (read c)).issues := by
  rcases hread : read c with ⟨issue | r, d⟩
  · exact .none (isOfStatement_read hread)
  · exact .some (r.toStmt mode) r.isOfExpression_issues

/-- An attempt fails with the one issue of its reader; recovery adds none. -/
theorem Attempt.reportedOnce_readOne (mode : Reduction) (c : Cursor) :
    ReportedOnce ((readOne c).1.toStmt? mode) (readOne c).1.issues := by
  have hclause := Clause.reportedOnce_outcome mode c
  rcases hone : readOne c with ⟨attempt, d⟩
  cases readsOne hone with
  | read h | failed h =>
    rw [h] at hclause
    exact hclause

/-! ### Programs -/

namespace Attempt

variable (mode : Reduction)

/-- So every attempt of a program reports once, as each is made at some cursor. -/
theorem reportedOnce_readUpTo (fuel : Nat) (c : Cursor) :
    ∀ a ∈ (readUpTo fuel c).1, ReportedOnce (a.toStmt? mode) a.issues := by
  intro a ha
  obtain ⟨d, -, rfl⟩ := exists_readOne_eq fuel c a ha
  exact reportedOnce_readOne mode d

end Attempt

/-- **A statement that fails is reported exactly once.** From every index into the
vector of a list of tokens, reading a declaration or a statement keeps what was
recorded before. It adds one issue with the code of a failed statement if it gives
nothing, and else only issues of an expression. Skipping to the next statement adds
nothing. A program is read in attempts: each of them adds its own issues, those of
failed statements are as many as the attempts that failed, and the statements are
those of the others, in order. -/
theorem reportedOnce_vector (mode : Reduction) (tokens : List Token)
    (i : Fin (Token.vector tokens).size) (recorded : List Issue) :
    let m : Session := ⟨Token.vector tokens, i, recorded⟩
    let c := (Cursor.ofTokens tokens).skip i
    let behind (d : Cursor) (added : List Issue) : Session :=
      ⟨Token.vector tokens, d.position, recorded ++ added⟩
    let decl := DeclClause.outcome mode (DeclClause.read c)
    let stmt := Clause.outcome mode (Clause.read c)
    let attempts := (Attempt.readAll c).1.map (Attempt.result mode)
    let added := attempts.flatMap Prod.snd
    let e := behind (Attempt.readAll c).2 added
    (DeclClause.run? mode m = some (decl.value, behind decl.cursor decl.issues) ∧
      ReportedOnce decl.value decl.issues) ∧
    (Clause.run? mode m = some (stmt.value, behind stmt.cursor stmt.issues) ∧
      ReportedOnce stmt.value stmt.issues) ∧
    m.recover? = some { m with index := c.recover.2.position } ∧
    Attempt.run? mode m = some (attempts.filterMap Prod.fst, e) ∧ Attempts mode m attempts e ∧
    (∀ a ∈ attempts, ReportedOnce a.1 a.2) ∧
    added.countP Issue.isOfStatement = attempts.countP fun a => a.1.isNone := by
  intro m c behind decl stmt attempts added e
  obtain ⟨hin, -⟩ := Cursor.in_vector tokens i
  have hm : m = c.session (Token.vector tokens) recorded :=
    Cursor.session_vector tokens i recorded
  -- The results of attempts are views of what the readers give.
  have hadded : added = (Attempt.readAll c).1.flatMap Attempt.issues := List.flatMap_map ..
  have hstmts : attempts.filterMap Prod.fst
      = (Attempt.readAll c).1.filterMap (Attempt.toStmt? mode) := List.filterMap_map ..
  have hattempts : ∀ a ∈ attempts, ReportedOnce a.1 a.2 :=
    List.forall_mem_map.mpr (Attempt.reportedOnce_readUpTo mode c.remaining c)
  have hdecl : DeclClause.run? mode m = some (decl.value, behind decl.cursor decl.issues) := by
    rw [hm, DeclClause.run?_session mode hin, DeclClause.parse_eq]
    rfl
  have hstmt : Clause.run? mode m = some (stmt.value, behind stmt.cursor stmt.issues) := by
    rw [hm, Clause.run?_session mode hin, Clause.parse_eq]
    rfl
  have hskip : m.recover? = some { m with index := c.recover.2.position } := by
    rw [hm, hin.recover?_session]
    rfl
  have hprogram : Attempt.run? mode m = some (attempts.filterMap Prod.fst, e) := by
    rw [hm, Attempt.run?_session mode hin, hstmts, ← hadded]
    rfl
  have hcalls : Attempts mode m attempts e := by
    rw [hm, show e = _ from congrArg (behind _) hadded]
    exact (Attempt.attempts_readUpTo mode c.remaining (Nat.le_refl _) hin recorded).1
  exact ⟨⟨hdecl, DeclClause.reportedOnce_outcome mode c⟩,
    ⟨hstmt, Clause.reportedOnce_outcome mode c⟩, hskip, hprogram, hcalls, hattempts,
    countP_isOfStatement hattempts⟩

end ExprFrontEnd
