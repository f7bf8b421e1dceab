import ExprFrontEnd.Expr
import ExprFrontEnd.Proofs.Row
import Mathlib.Data.List.TakeWhile

/-!
# `ExprFrontEnd.Proofs.Stacks`: grouping with two stacks

`Pending` keeps every waiting operator together with what stands to its left, so
it cannot have too few operands. A reader that works in place has one stack of
operands and one of operators, and folding takes two operands and an operator
from them. Whether they are there has to be checked: `Stacks.fold?` gives `none`
if they are not, and so does `Stacks.drain?` if anything but one expression is
left in the end.

* `Pending.onStacks`: the two stacks of a row that is read in part. There is one
  operand more than there are operators. This is the invariant of both loops.
* `Pending.fold?_onStacks`: with an operator waiting, the operands are there.
* `Pending.reduce?_onStacks`, `Pending.drain?_onStacks`: so the loops never fail, and
  fold what `Pending.foldTimes` and `Pending.drain` do.
* `Stacks.group?_eq`: hence the stacks of each row come to its tree.
-/

set_option autoImplicit false

namespace ExprFrontEnd

/-- The stacks of a reader of expressions, with their tops in front. -/
structure Stacks where
  operands : List Expr
  operators : List BinaryOp
  deriving Repr

namespace Stacks

/-- A row of one operand. -/
def start (e : Expr) : Stacks := ⟨[e], []⟩

/-- Folds the operator on top with the two operands on top. -/
def fold? (st : Stacks) : Option Stacks :=
  match st.operators, st.operands with
  | op :: operators, right :: left :: operands =>
    some ⟨.binary left op right (left.span.merge right.span) :: operands, operators⟩
  | _, _ => none

/-- A fold takes one operator, which is why folding ends. -/
theorem length_operators_of_fold? {st st' : Stacks} (h : st.fold? = some st') :
    st'.operators.length < st.operators.length := by
  obtain ⟨operands, operators⟩ := st
  unfold fold? at h
  split at h
  · rename_i hoperators _
    cases h
    simp only at hoperators
    simp [hoperators]
  · cases h

/-- Folds for as long as the operator on top binds. -/
def foldWhile? (binds : BinaryOp → Bool) (st : Stacks) : Option Stacks :=
  match st.operators with
  | [] => some st
  | op :: _ =>
    if binds op then
      match _h : st.fold? with
      | none => none
      | some st' => foldWhile? binds st'
    else some st
termination_by st.operators.length
decreasing_by exact length_operators_of_fold? _h

/-- Without operators there is nothing to fold. -/
theorem foldWhile?_nil (binds : BinaryOp → Bool) (operands : List Expr) :
    foldWhile? binds ⟨operands, []⟩ = some ⟨operands, []⟩ := by
  rw [foldWhile?]

/-- One turn of the loop. -/
theorem foldWhile?_cons (binds : BinaryOp → Bool) (operands : List Expr) (op : BinaryOp)
    (operators : List BinaryOp) :
    foldWhile? binds ⟨operands, op :: operators⟩
      = if binds op then (fold? ⟨operands, op :: operators⟩).bind (foldWhile? binds)
        else some ⟨operands, op :: operators⟩ := by
  rw [foldWhile?]
  simp only
  split
  · split
    · rename_i h
      rw [h, Option.bind_none]
    · rename_i st h
      rw [h, Option.bind_some]
  · rfl

/-- Folds what an incoming operator makes due. -/
def reduce? (mode : Reduction) (incoming : BinaryOp) (st : Stacks) : Option Stacks :=
  let binds := fun op : BinaryOp => decide (incoming.precedence ≤ op.precedence)
  match mode with
  | .singleStep =>
    match st.operators with
    | [] => some st
    | op :: _ => if binds op then st.fold? else some st
  | .cascading => st.foldWhile? binds

/-- Puts an operator and its right operand on top. -/
def push (st : Stacks) (op : BinaryOp) (e : Expr) : Stacks :=
  ⟨e :: st.operands, op :: st.operators⟩

/-- Folds all operators, and takes the one expression that is left. -/
def drain? (st : Stacks) : Option Expr := do
  let st ← st.foldWhile? fun _ => true
  match st.operands with
  | [e] => some e
  | _ => none

/-- The stacks with one more operator and operand. -/
def step? (mode : Reduction) (st : Stacks) (link : BinaryOp × Expr) : Option Stacks := do
  let st ← st.reduce? mode link.1
  return st.push link.1 link.2

/-- The expression of a row. -/
def group? (mode : Reduction) (e : Expr) (links : List (BinaryOp × Expr)) : Option Expr := do
  let st ← links.foldlM (step? mode) (start e)
  st.drain?

end Stacks

namespace Pending

variable {p : Pending Expr}

/-- The stacks of a row that is read in part. -/
def onStacks (p : Pending Expr) : Stacks :=
  ⟨p.current.toExpr :: p.waiting.map fun w => w.1.toExpr, p.ops⟩

/-- An operator that waits has an operand on both sides. -/
theorem fold?_onStacks (left : Grouping Expr) (op : BinaryOp)
    (waiting : List (Grouping Expr × BinaryOp)) (current : Grouping Expr) :
    (Pending.mk ((left, op) :: waiting) current).onStacks.fold?
      = some (Pending.mk waiting (.joined left op current)).onStacks := rfl

/-- The loop folds the operators in front of the first one that does not bind. -/
theorem foldWhile?_onStacks (binds : BinaryOp → Bool) (p : Pending Expr) :
    p.onStacks.foldWhile? binds
      = some (p.foldTimes (p.ops.takeWhile binds).length).onStacks := by
  obtain ⟨waiting, current⟩ := p
  induction waiting generalizing current with
  | nil => exact Stacks.foldWhile?_nil binds [current.toExpr]
  | cons w waiting ih =>
    obtain ⟨left, op⟩ := w
    have hturn : (Pending.mk ((left, op) :: waiting) current).onStacks.foldWhile? binds
        = if binds op then
            (Pending.mk ((left, op) :: waiting) current).onStacks.fold?.bind
              (Stacks.foldWhile? binds)
          else some (Pending.mk ((left, op) :: waiting) current).onStacks :=
      Stacks.foldWhile?_cons _ _ _ _
    -- What is folded stands on top for the operators that are left.
    rw [hturn, fold?_onStacks, Option.bind_some, ih]
    by_cases hbinds : binds op = true
    · simp [ops, hbinds, foldTimes, foldOnce]
    · simp [ops, hbinds, foldTimes]

/-- The loops fold as many operators as are due. -/
theorem reduce?_onStacks (mode : Reduction) (incoming : BinaryOp) (p : Pending Expr) :
    p.onStacks.reduce? mode incoming = some (p.foldTimes (due mode p.ops incoming)).onStacks := by
  cases mode with
  | cascading => exact foldWhile?_onStacks _ p
  | singleStep =>
    obtain ⟨waiting, current⟩ := p
    cases waiting with
    | nil => rfl
    | cons w waiting =>
      obtain ⟨left, op⟩ := w
      have hfold := fold?_onStacks left op waiting current
      show (if _ then (Pending.mk ((left, op) :: waiting) current).onStacks.fold? else _) = _
      -- At most the last operator that waits is folded.
      by_cases hbinds : incoming.precedence ≤ op.precedence
      · rw [if_pos (by simpa using hbinds), hfold]
        simp [due, ops, hbinds, foldTimes, foldOnce]
      · rw [if_neg (by simpa using hbinds)]
        simp [due, ops, hbinds, foldTimes]

/-- When all operators are folded, one operand is left. -/
theorem drain?_onStacks (p : Pending Expr) : p.onStacks.drain? = some p.drain.toExpr := by
  have hall : (p.ops.takeWhile fun _ => true).length = p.waiting.length := by
    rw [List.takeWhile_eq_self_iff.mpr fun _ _ => rfl, ops, List.length_map]
  -- As many folds as there are operators leave none.
  have hnone : ∀ q : Pending Expr, (q.foldTimes q.waiting.length).waiting = [] := by
    rintro ⟨waiting, current⟩
    induction waiting generalizing current with
    | nil => rfl
    | cons w waiting ih => exact ih _
  have hdrain := p.drain_foldTimes p.waiting.length
  rw [Stacks.drain?, foldWhile?_onStacks, hall, ← hdrain]
  have hwaiting := hnone p
  generalize p.foldTimes p.waiting.length = q at hwaiting
  obtain ⟨waiting, current⟩ := q
  subst hwaiting
  rfl

end Pending

/-- **Folding never lacks an operator or an operand**, in both modes and whatever
the row is, and exactly one expression is left in the end. It is the tree of the
row. -/
theorem Stacks.group?_eq (mode : Reduction) (e : Expr) (links : List (BinaryOp × Expr)) :
    group? mode e links = some (group mode e links).toExpr := by
  have hloop : ∀ p : Pending Expr,
      links.foldlM (step? mode) p.onStacks = some (links.foldl (Pending.step mode) p).onStacks := by
    induction links with
    | nil => intro p; rfl
    | cons link links ih =>
      intro p
      have hstep : step? mode p.onStacks link = some (p.step mode link).onStacks := by
        rw [step?, p.reduce?_onStacks]
        rfl
      rw [List.foldlM_cons, hstep]
      exact ih _
  have hrow := hloop (Pending.start e)
  show (links.foldlM (step? mode) (Pending.start e).onStacks).bind drain? = _
  rw [hrow, Option.bind_some, Pending.drain?_onStacks]
  rfl

end ExprFrontEnd
