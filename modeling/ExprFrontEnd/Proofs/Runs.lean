import ExprFrontEnd.Chain.Read
import ExprFrontEnd.Proofs.Row

/-!
# `ExprFrontEnd.Proofs.Runs`: the closed form of the mode `singleStep`

The mode `singleStep` folds at most one operator when another one comes in,
so waiting operators need not be in any order, and no rule of precedence
describes its trees. They have a closed form all the same. Call an operator
*deferred* if the next one binds more tightly or if there is none, and
*eager* otherwise. Cut the row at its deferred operators into runs
(`Row.cut`). Each run groups from the left, and the runs are joined from the
right.

* `flatten_cut`, `joints_cut`: the cut is made at the deferred operators and
  nowhere else.
* `group_singleStep`: the closed form for rows.
* `toExpr_read_singleStep`: the same for what is read at a cursor.

An operator is folded early just in case it is eager, and then at once: when
the next operator comes in, it is the last one that waits. So the operators
below the last one are the deferred ones, each with the run to its left.
`Grouping.settle` is the row read with this in mind, in one pass and without
a stack.
-/

set_option autoImplicit false

namespace ExprFrontEnd

/-- An operator is deferred if the next one binds more tightly, or if there
is none. -/
def BinaryOp.isDeferred (op : BinaryOp) (next : Option BinaryOp) : Bool :=
  next.all fun o => decide (op.precedence < o.precedence)

/-- Which operators of a row are deferred. -/
def deferrals : List BinaryOp → List Bool
  | [] => []
  | op :: ops => op.isDeferred ops.head? :: deferrals ops

namespace Row

variable {α : Type}

/-- The trees of a row joined from the left. -/
def joinLeft (r : Row (Grouping α)) : Grouping α :=
  r.links.foldl (fun left l => .joined left l.1 l.2) r.first

/-- The trees of a row joined from the right. -/
def joinRight (r : Row (Grouping α)) : Grouping α :=
  go r.first r.links
where
  go (left : Grouping α) : List (BinaryOp × Grouping α) → Grouping α
    | [] => left
    | (op, right) :: links => .joined left op (go right links)

/-- A row of rows as one row. -/
def flatten (r : Row (Row α)) : Row α :=
  ⟨r.first.first, r.first.links ++ r.links.flatMap fun l => (l.1, l.2.first) :: l.2.links⟩

/-- Which operators of a flattened row stand between two of its rows. -/
def joints (r : Row (Row α)) : List Bool :=
  r.first.links.map (fun _ => false)
    ++ r.links.flatMap fun l => true :: l.2.links.map fun _ => false

/-- A row cut into runs: at its deferred operators. -/
def cut (r : Row α) : Row (Row α) :=
  go r.first r.links
where
  go (x : α) : List (BinaryOp × α) → Row (Row α)
    | [] => ⟨⟨x, []⟩, []⟩
    | (op, y) :: links =>
      let behind := go y links
      if op.isDeferred (links.map Prod.fst).head? then
        ⟨⟨x, []⟩, (op, behind.first) :: behind.links⟩
      else ⟨⟨x, (op, behind.first.first) :: behind.first.links⟩, behind.links⟩

/-- Cutting does not move the first operand. -/
theorem first_first_cut (x : α) (links : List (BinaryOp × α)) :
    (cut.go x links).first.first = x := by
  cases links with
  | nil => rfl
  | cons link links =>
    obtain ⟨op, y⟩ := link
    rw [cut.go]
    split <;> rfl

/-- Cutting loses nothing. -/
theorem flatten_cut (r : Row α) : r.cut.flatten = r := by
  obtain ⟨x, links⟩ := r
  show (cut.go x links).flatten = ⟨x, links⟩
  induction links generalizing x with
  | nil => rfl
  | cons link links ih =>
    obtain ⟨op, y⟩ := link
    have hy := first_first_cut y links
    have hlinks : (cut.go y links).first.links
        ++ (cut.go y links).links.flatMap (fun l => (l.1, l.2.first) :: l.2.links) = links :=
      congrArg Row.links (ih y)
    rw [cut.go]
    -- Either the operator stands between two runs, or it is the first of its run.
    split
    · simp only [flatten, List.flatMap_cons, List.nil_append, List.cons_append, hy, hlinks]
    · simp only [flatten, List.cons_append, hy, hlinks]

/-- The cuts are at the deferred operators. -/
theorem joints_cut (r : Row α) : r.cut.joints = deferrals r.operators := by
  obtain ⟨x, links⟩ := r
  show (cut.go x links).joints = deferrals (links.map Prod.fst)
  induction links generalizing x with
  | nil => rfl
  | cons link links ih =>
    obtain ⟨op, y⟩ := link
    -- A deferred operator starts a new run, and an eager one goes on with the run.
    rw [List.map_cons, deferrals, ← ih y, cut.go]
    split
    · rename_i hd
      rw [hd]
      rfl
    · rename_i hd
      rw [Bool.not_eq_true] at hd
      rw [hd]
      rfl

end Row

/-! ### The row in one pass -/

namespace Grouping

variable {α : Type}

/-- The tree of a row behind a run that is read already: an eager operator
prolongs the run, a deferred one ends it. -/
def settle (run : Grouping α) : List (BinaryOp × α) → Grouping α
  | [] => run
  | (op, x) :: links =>
    if op.isDeferred (links.map Prod.fst).head? then
      .joined run op (settle (.operand x) links)
    else settle (.joined run op (.operand x)) links

/-- One pass gives the runs joined from the right. The first run is the one
that is read already, prolonged by the eager operators behind it. -/
theorem settle_eq (run : Grouping α) (x : α) (links : List (BinaryOp × α)) :
    settle run links
      = Row.joinRight.go
        (Row.joinLeft ⟨run, (Row.cut.go x links).first.links.map fun l => (l.1, .operand l.2)⟩)
        ((Row.cut.go x links).links.map fun l => (l.1, (l.2.map .operand).joinLeft)) := by
  induction links generalizing run x with
  | nil => rfl
  | cons link links ih =>
    obtain ⟨op, y⟩ := link
    have hy := Row.first_first_cut y links
    rw [settle, Row.cut.go]
    split
    · -- The run ends here, and the next one starts with `y`.
      rw [ih (.operand y) y]
      simp only [List.map_nil, List.map_cons, Row.joinRight.go, Row.map, hy]
      rfl
    · -- The run goes on with `y`.
      rw [ih (.joined run op (.operand y)) y]
      simp only [List.map_cons, Row.joinLeft, List.foldl_cons, hy]

end Grouping

namespace Pending

variable {α : Type}

/-- The last waiting operator is folded when the next one comes in, or never
before the end of the row. -/
theorem step_singleStep (run : Grouping α) (op : BinaryOp) (x : α)
    (waiting : List (Grouping α × BinaryOp)) (link : BinaryOp × α) :
    step .singleStep ⟨(run, op) :: waiting, .operand x⟩ link
      = if op.isDeferred (some link.1) then
          ⟨(.operand x, link.1) :: (run, op) :: waiting, .operand link.2⟩
        else ⟨(.joined run op (.operand x), link.1) :: waiting, .operand link.2⟩ := by
  by_cases h : link.1.precedence ≤ op.precedence
  · -- Not deferred, so it is folded now, and it alone.
    have hd : op.isDeferred (some link.1) = false := by
      simp [BinaryOp.isDeferred, h]
    have hdue : due .singleStep (ops ⟨(run, op) :: waiting, .operand x⟩) link.1 = 1 := by
      simp [due, ops, h]
    rw [step, hdue, hd]
    rfl
  · -- Deferred, so it goes on waiting below the incoming one.
    have hd : op.isDeferred (some link.1) = true := by
      simpa [BinaryOp.isDeferred] using h
    have hdue : due .singleStep (ops ⟨(run, op) :: waiting, .operand x⟩) link.1 = 0 := by
      simp [due, ops, h]
    rw [step, hdue, hd]
    rfl

/-- The invariant of the mode `singleStep`: the operators below the last one
have their final left side and wait for the rest of the row. -/
theorem drain_foldl_singleStep (links : List (BinaryOp × α)) (run : Grouping α) (op : BinaryOp)
    (x : α) (waiting : List (Grouping α × BinaryOp)) :
    (links.foldl (step .singleStep) ⟨(run, op) :: waiting, .operand x⟩).drain
      = drain ⟨waiting, run.settle ((op, x) :: links)⟩ := by
  induction links generalizing run op x waiting with
  | nil => rfl
  | cons link links ih =>
    rw [List.foldl_cons, step_singleStep, Grouping.settle]
    -- Step and closed form ask the same question of the last waiting operator.
    show (links.foldl (step .singleStep) (if op.isDeferred (some link.1) then _ else _)).drain
      = drain ⟨waiting, if op.isDeferred (some link.1) then _ else _⟩
    split
    · rw [ih]
      rfl
    · rw [ih]

end Pending

/-- The mode `singleStep` reads a row in one pass. -/
theorem Row.group_eq_settle {α : Type} (r : Row α) :
    r.group .singleStep = Grouping.settle (.operand r.first) r.links := by
  obtain ⟨x, links⟩ := r
  cases links with
  | nil => rfl
  | cons link links => exact Pending.drain_foldl_singleStep links (.operand x) link.1 link.2 []

/-! ### The closed form -/

/-- **The closed form of the mode `singleStep`**: cut the row at its deferred
operators, group every run from the left and join the runs from the right. -/
theorem Row.group_singleStep {α : Type} (r : Row α) :
    r.group .singleStep
      = (r.cut.map fun run => (run.map Grouping.operand).joinLeft).joinRight := by
  rw [group_eq_settle, Grouping.settle_eq _ r.first]
  simp only [joinRight, cut, map, first_first_cut]

/-- What is read at a cursor in the mode `singleStep`: its row is cut exactly
at the deferred operators, the runs group from the left, and they are joined
from the right. -/
theorem toExpr_read_singleStep (s : Scope) (c : Cursor) :
    let chain := (Chain.read s c).1
    let row := chain.row.map (Operand.toExpr .singleStep)
    row.cut.flatten = row ∧ row.cut.joints = deferrals row.operators ∧
      chain.toExpr .singleStep
        = (row.cut.map fun run => (run.map Grouping.operand).joinLeft).joinRight.toExpr := by
  intro chain row
  refine ⟨Row.flatten_cut row, Row.joints_cut row, ?_⟩
  rw [Chain.toExpr_eq_group, Row.group_singleStep]

end ExprFrontEnd
