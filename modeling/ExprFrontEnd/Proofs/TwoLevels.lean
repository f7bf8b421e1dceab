import ExprFrontEnd.Proofs.Agreement
import ExprFrontEnd.Source

/-!
# `ExprFrontEnd.Proofs.TwoLevels`: rows with two levels of precedence

Rows whose operators fall into two levels of precedence are the shortest way
down from the row to the cases where the two modes part. They do part:
`a + b * c + d` is `a + ((b * c) + d)` in the mode `singleStep`, where the
second `+` folds the `*` and then waits behind the first `+`
(`parseExpression_ne_of_peak`).

This is the only way. The modes agree on a row with two levels as long as no
operator stands between two that bind less tightly than it does, whether it
is right next to them or not (`NoPeak`).

* `wellDeferred_iff_noPeak`: with two levels, this is what the condition
  `WellDeferred` comes to.
* `toExpr_read_twoLevels`: so it says where the modes agree, on the tree of
  what is read at a cursor and on its expression.
-/

set_option autoImplicit false

namespace ExprFrontEnd

/-- The operators are on at most two levels of precedence. -/
def OnTwoLevels (ops : List BinaryOp) : Prop :=
  ∃ low high, ∀ o ∈ ops, o.precedence = low ∨ o.precedence = high

/-- No operator stands between two that bind less tightly. -/
def NoPeak (ops : List BinaryOp) : Prop :=
  ∀ a b c, [a, b, c].Sublist ops → a.precedence < b.precedence → b.precedence ≤ c.precedence

/-- The condition on what stands behind the first operator, and that on the
others. -/
theorem noPeak_cons {op : BinaryOp} {ops : List BinaryOp} :
    NoPeak (op :: ops) ↔
      (∀ b c, [b, c].Sublist ops → op.precedence < b.precedence → b.precedence ≤ c.precedence) ∧
        NoPeak ops := by
  constructor
  · intro h
    exact ⟨fun b c hbc => h op b c (hbc.cons_cons op), fun a b c habc => h a b c (habc.cons op)⟩
  · rintro ⟨hfirst, hothers⟩ a b c habc
    cases habc with
    | cons _ h => exact hothers a b c h
    | cons_cons _ h => exact hfirst b c h

/-- On two levels, an operator that the next one outbinds is outbound by all
behind it if and only if no operator stands between two that bind less
tightly. -/
theorem wellDeferred_iff_noPeak {ops : List BinaryOp} (h : OnTwoLevels ops) :
    WellDeferred ops ↔ NoPeak ops := by
  obtain ⟨low, high, hlevels⟩ := h
  induction ops with
  | nil =>
    refine iff_of_true (fun i hi => absurd hi (Nat.not_lt_zero _)) fun a b c habc => ?_
    cases habc
  | cons op ops ih =>
    obtain ⟨hop, hops⟩ := List.forall_mem_cons.mp hlevels
    rw [wellDeferred_cons, noPeak_cons, ih hops]
    refine and_congr_left fun hnopeak => ?_
    cases ops with
    | nil =>
      refine iff_of_true (fun _ o ho => absurd ho List.not_mem_nil) fun b c hbc => ?_
      cases hbc
    | cons next ops =>
      obtain ⟨hnext, -⟩ := List.forall_mem_cons.mp hops
      constructor
      · intro hdeferred b c hbc hlt
        have hb := hops b (hbc.subset List.mem_cons_self)
        have hc := hops c (hbc.subset (List.mem_cons_of_mem _ List.mem_cons_self))
        by_cases hd : op.precedence < next.precedence
        · -- The next operator outbinds the first one, so all behind it are on the upper level.
          have hup := hdeferred (by simpa [BinaryOp.isDeferred] using hd) c
            (hbc.subset (List.mem_cons_of_mem _ List.mem_cons_self))
          omega
        · -- The next operator is on the lower level, so the others are behind it.
          have hbehind : [b, c].Sublist ops := by
            cases hbc with
            | cons _ h => exact h
            | cons_cons _ h => exact absurd hlt hd
          exact hnopeak next b c (hbehind.cons_cons next) (by omega)
      · intro hbetween hd o ho
        have hlt : op.precedence < next.precedence := by simpa [BinaryOp.isDeferred] using hd
        rcases List.mem_cons.mp ho with rfl | ho
        · exact hlt
        · have hle := hbetween next o
            ((List.singleton_sublist.mpr ho).cons_cons next) hlt
          omega

/-! ### Chains -/

/-- **Where the modes agree on two levels of precedence**, for what is read at
a cursor: exactly where no operator stands between two that bind less
tightly. Its operands set aside, that decides whether the trees are equal; the
expressions are equal if besides the operands are. -/
theorem toExpr_read_twoLevels (s : Scope) (c : Cursor)
    (h : OnTwoLevels (Chain.read s c).1.row.operators) :
    let chain := (Chain.read s c).1
    (chain.row.group .singleStep = chain.row.group .cascading ↔ NoPeak chain.row.operators) ∧
      (chain.toExpr .singleStep = chain.toExpr .cascading ↔
        NoPeak chain.row.operators ∧
          ∀ x ∈ chain.row.operands, x.toExpr .singleStep = x.toExpr .cascading) := by
  intro chain
  have htrees : chain.row.group .singleStep = chain.row.group .cascading
      ↔ NoPeak chain.row.operators :=
    chain.row.group_eq_group_iff.trans (wellDeferred_iff_noPeak h)
  exact ⟨htrees, by rw [Chain.toExpr_eq_toExpr_iff, htrees]⟩

/-- Two products at the ends of a sum: the lower level is between the others,
and not around them. -/
theorem toExpr_read_twoLevels_products :
    let chain := (Chain.read .stream (.ofTokens (lex "a * b + c - d * e").tokens)).1
    OnTwoLevels chain.row.operators ∧
      (chain.row.group .singleStep = chain.row.group .cascading ↔ NoPeak chain.row.operators) ∧
      (chain.toExpr .singleStep = chain.toExpr .cascading ↔
        NoPeak chain.row.operators ∧
          ∀ x ∈ chain.row.operands, x.toExpr .singleStep = x.toExpr .cascading) := by
  intro chain
  have hlevels : OnTwoLevels chain.row.operators := ⟨11, 12, by decide +kernel⟩
  exact ⟨hlevels, toExpr_read_twoLevels .stream _ hlevels⟩

/-- A product within a sum: there are two levels of precedence, and the modes
do not agree. -/
theorem parseExpression_ne_of_peak :
    let chain := (Chain.read .stream (.ofTokens (lex "a + b * c + d").tokens)).1
    OnTwoLevels chain.row.operators ∧
      chain.row.group .singleStep ≠ chain.row.group .cascading ∧
      (parseExpression .singleStep "a + b * c + d").expr
        ≠ (parseExpression .cascading "a + b * c + d").expr := by
  intro chain
  have hops : chain.row.operators = [.plus, .times, .plus] := by decide +kernel
  have hlevels : OnTwoLevels chain.row.operators := ⟨11, 12, by rw [hops]; decide⟩
  -- The tighter operator has a looser one on each side.
  have hpeak : ¬NoPeak chain.row.operators := by
    intro h
    exact absurd (h .plus .times .plus (hops ▸ List.Sublist.refl _) (by decide)) (by decide)
  have hgroup : chain.row.group .singleStep ≠ chain.row.group .cascading := by
    rwa [Ne, chain.row.group_eq_group_iff, wellDeferred_iff_noPeak hlevels]
  refine ⟨hlevels, hgroup, fun he => hgroup ?_⟩
  exact ((Chain.toExpr_eq_toExpr_iff .singleStep .cascading chain).mp he).1

end ExprFrontEnd
