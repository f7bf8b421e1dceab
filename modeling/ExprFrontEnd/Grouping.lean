import ExprFrontEnd.Operator

/-!
# `ExprFrontEnd.Grouping`: how a row of operands falls into a tree

A row `x₀ o₁ x₁ ... oₙ xₙ` of operands and binary operators is read from left to right. Operators
wait, each with what stands to the left of it, until they are folded; `Pending` holds those that
wait, so there is always one operand more than there are operators. When an operator comes in, some
of the waiting operators that bind at least as tightly are folded: in the mode `singleStep` at most
the last one, in the mode `cascading` as many as there are at the end of the row. At the end of the
row all that still wait are folded, the last one first.

Operands are opaque: `Grouping` distinguishes the nodes of the row from what its operands are made
of.

### Main definitions

* `Reduction`: the two modes;
* `group`: the tree of a row;
* `Grouping.operands`, `Grouping.operators`: the row of a tree.
-/

set_option autoImplicit false

namespace ExprFrontEnd

/-- How many waiting operators an incoming operator folds. -/
inductive Reduction where
  /-- At most the last one. Where an operator should fold two of them, the lower one goes on waiting
  to the end of the row: `a + b * c + d` becomes `a + ((b * c) + d)`. Levels of precedence that only
  rise, or only fall, group as in the mode `cascading`. -/
  | singleStep
  /-- All at the end of the row that bind at least as tightly. -/
  | cascading
  deriving DecidableEq, Repr

namespace Reduction

/-- The name of a mode in options. -/
def name : Reduction → String
  | singleStep => "single-step"
  | cascading => "cascading"

/-- The mode with a name. -/
def ofName? (name : String) : Option Reduction :=
  if name = "single-step" then some singleStep
  else if name = "cascading" then some cascading
  else none

/-- Only the names of the modes stand for a mode. -/
theorem ofName?_eq_some_iff {text : String} {mode : Reduction} :
    ofName? text = some mode ↔ text = mode.name := by
  unfold ofName?
  cases mode <;> simp only [name] <;> split <;> (try split) <;> simp_all

end Reduction

/-- A tree of binary operators over opaque operands. -/
inductive Grouping (α : Type) where
  | operand (x : α)
  | joined (left : Grouping α) (op : BinaryOp) (right : Grouping α)
  deriving DecidableEq, Repr

namespace Grouping

variable {α : Type}

/-- The operands of a tree from left to right. -/
def operands : Grouping α → List α
  | operand x => [x]
  | joined left _ right => left.operands ++ right.operands

/-- The operators of a tree from left to right. -/
def operators : Grouping α → List BinaryOp
  | operand _ => []
  | joined left op right => left.operators ++ op :: right.operators

end Grouping

/-- A row that is read in part: the operators that wait, the last one first, each with the tree to
its left, and the tree behind the last of them. -/
structure Pending (α : Type) where
  waiting : List (Grouping α × BinaryOp)
  current : Grouping α
  deriving Repr

namespace Pending

variable {α : Type}

/-- A row of one operand. -/
def start (x : α) : Pending α := ⟨[], .operand x⟩

/-- The waiting operators, the last one first. -/
def ops (p : Pending α) : List BinaryOp := p.waiting.map Prod.snd

/-- Folds the last waiting operator. -/
def foldOnce (p : Pending α) : Pending α :=
  match p.waiting with
  | [] => p
  | (left, op) :: waiting => ⟨waiting, .joined left op p.current⟩

/-- Folds some of the waiting operators. -/
def foldTimes : Nat → Pending α → Pending α
  | 0, p => p
  | n + 1, p => foldTimes n p.foldOnce

/-- Folds all waiting operators. -/
def drain (p : Pending α) : Grouping α :=
  p.waiting.foldl (fun right w => .joined w.1 w.2 right) p.current

/-- Puts an operator and its right operand at the end of the row, without folding. -/
def push (p : Pending α) (op : BinaryOp) (x : α) : Pending α :=
  ⟨(p.current, op) :: p.waiting, .operand x⟩

end Pending

/-- How many of the waiting operators an incoming operator folds. -/
def due (mode : Reduction) (ops : List BinaryOp) (incoming : BinaryOp) : Nat :=
  let binding := ops.takeWhile fun op => decide (incoming.precedence ≤ op.precedence)
  match mode with
  | .singleStep => min 1 binding.length
  | .cascading => binding.length

/-- The row with one more operator and operand. -/
def Pending.step {α : Type} (mode : Reduction) (p : Pending α) (link : BinaryOp × α) : Pending α :=
  (p.foldTimes (due mode p.ops link.1)).push link.1 link.2

/-- The tree of a row. -/
def group {α : Type} (mode : Reduction) (x : α) (links : List (BinaryOp × α)) : Grouping α :=
  (links.foldl (Pending.step mode) (Pending.start x)).drain

end ExprFrontEnd
