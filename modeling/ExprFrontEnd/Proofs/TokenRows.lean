import ExprFrontEnd.Proofs.PlainRow
import ExprFrontEnd.Proofs.TwoLevels

/-!
# `ExprFrontEnd.Proofs.TokenRows`: the two modes on rows of tokens

What is proved about the row of a chain, said of the tokens that it is read from. A plain
row of tokens (`Row.StandsAt`) is read as it stands, so the row of the chain is the row of
the tokens with its atoms as operands, and each theorem carries over.

* `toExpr_singleStep_of_standsAt`: the closed form of the mode `singleStep`.
* `toExpr_eq_iff_of_standsAt`: where the two modes read one expression.
* `toExpr_eq_iff_of_standsAt_onTwoLevels`: the same with two levels of precedence.

The modes can also differ inside of an operand, which only a group can bring about
(`Atom.toExpr_eq_of_isToken`). Where every operand is one token the operators decide alone
(`toExpr_eq_iff_of_tokens`).
-/

set_option autoImplicit false

namespace ExprFrontEnd

/-- Atoms that are one token. -/
def Atom.isToken : Atom → Bool
  | .number _ _ | .string _ _ | .name _ _ => true
  | .group _ _ | .array _ _ | .missing _ => false

/-- A mode has nothing to decide inside of one token. -/
theorem Atom.toExpr_eq_of_isToken {x : Atom} (h : x.isToken = true) (m n : Reduction) :
    x.toExpr m = x.toExpr n := by
  cases x with
  | number value span | string value span | name name span => simp only [toExpr]
  | group opening inner | array opening elems | missing found => cases h

section
variable {s : Scope} {r : Row Atom} {c : Cursor} {t : Terminator} {e : Cursor}

/-- **The mode `singleStep` on a plain row of tokens.** The row is read to its terminator
`t`, without issues of its own. It is cut exactly at the deferred operators, the runs group
from the left, and they are joined from the right. -/
theorem toExpr_singleStep_of_standsAt (h : r.StandsAt s c t e) :
    let chain := (Chain.read s c).1
    let row := r.map (Atom.toExpr .singleStep)
    (Chain.read s c).2 = e ∧ chain.terminator = t ∧
      chain.issues = r.operands.flatMap Atom.issues ∧
      row.cut.flatten = row ∧ row.cut.joints = deferrals r.operators ∧
      chain.toExpr .singleStep
        = (row.cut.map fun run => (run.map Grouping.operand).joinLeft).joinRight.toExpr := by
  intro chain row
  obtain ⟨he, ht, hi, -⟩ := h.read
  have hjoints : row.cut.joints = deferrals r.operators := by
    rw [Row.joints_cut, Row.operators_map]
  refine ⟨he, ht, hi, Row.flatten_cut row, hjoints, ?_⟩
  rw [← Row.group_singleStep]
  exact h.toExpr_read .singleStep

/-- Two modes read one expression from a plain row if and only if they group its operators
in the same way, and read the same inside of its operands. -/
theorem toExpr_eq_iff_of_standsAt (h : r.StandsAt s c t e) :
    let chain := (Chain.read s c).1
    (chain.toExpr .singleStep = chain.toExpr .cascading ↔
        WellDeferred r.operators ∧
          ∀ x ∈ r.operands, x.toExpr .singleStep = x.toExpr .cascading) ∧
      (r.FoldsAtMostOnce ↔ WellDeferred r.operators) := by
  intro chain
  have hrow : chain.row = r.map Atom.toOperand := h.read.2.2.2
  refine ⟨?_, r.foldsAtMostOnce_iff⟩
  rw [Chain.toExpr_eq_toExpr_iff, hrow, Row.group_eq_group_iff, Row.operators_map,
    Row.operands_map, List.forall_mem_map]
  simp only [Atom.toExpr_toOperand]

/-- Where every operand is one token, the operators decide alone. -/
theorem toExpr_eq_iff_of_tokens (h : r.StandsAt s c t e)
    (htokens : ∀ x ∈ r.operands, x.isToken = true) :
    (Chain.read s c).1.toExpr .singleStep = (Chain.read s c).1.toExpr .cascading ↔
      WellDeferred r.operators := by
  rw [(toExpr_eq_iff_of_standsAt h).1]
  exact and_iff_left fun x hx => Atom.toExpr_eq_of_isToken (htokens x hx) _ _

/-- On two levels of precedence the modes read one expression from a plain row if and only
if no operator stands between two that bind less tightly, and they read the same inside of
its operands. -/
theorem toExpr_eq_iff_of_standsAt_onTwoLevels (h : r.StandsAt s c t e)
    (hlevels : OnTwoLevels r.operators) :
    (Chain.read s c).1.toExpr .singleStep = (Chain.read s c).1.toExpr .cascading ↔
      NoPeak r.operators ∧
        ∀ x ∈ r.operands, x.toExpr .singleStep = x.toExpr .cascading := by
  rw [(toExpr_eq_iff_of_standsAt h).1, wellDeferred_iff_noPeak hlevels]

end

end ExprFrontEnd
