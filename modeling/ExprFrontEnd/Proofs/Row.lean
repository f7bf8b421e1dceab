import ExprFrontEnd.Chain.Tree

/-!
# `ExprFrontEnd.Proofs.Row`: rows and the trees over them

A `Row` is what grouping starts from: an operand, and operators with an
operand behind each of them. A tree is *over* a row (`Grouping.Over`) when
its operands and its operators, read from left to right, are those of the
row.

* `over_group`: in both modes the tree of a row is over that row, so
  grouping neither drops nor repeats nor moves anything.
* `group_map`: grouping does not look at the operands. Replacing them
  before or after gives the same tree.
* `Chain.toExpr_eq_group`: the tree of a chain is that of its row, with the
  trees of the operands in their places. Every theorem on rows is therefore
  one on chains.

Both facts about `group` go through `Pending`, the state between two
operators. `drain` does not see how many operators were folded already
(`drain_foldTimes`), so one step changes the tree that would come out only
by what it pushes.
-/

set_option autoImplicit false

namespace ExprFrontEnd

/-- A row of operands with an operator between every two of them. -/
structure Row (α : Type) where
  first : α
  links : List (BinaryOp × α)

namespace Row

variable {α β : Type}

/-- The operands of a row. -/
def operands (r : Row α) : List α := r.first :: r.links.map Prod.snd

/-- The operators of a row. -/
def operators (r : Row α) : List BinaryOp := r.links.map Prod.fst

/-- A row with other operands. -/
def map (f : α → β) (r : Row α) : Row β :=
  ⟨f r.first, r.links.map fun l => (l.1, f l.2)⟩

/-- The tree of a row. -/
def group (mode : Reduction) (r : Row α) : Grouping α :=
  ExprFrontEnd.group mode r.first r.links

/-- Changing operands is done in place. -/
@[simp] theorem operands_map (f : α → β) (r : Row α) :
    (r.map f).operands = r.operands.map f := by
  simp [operands, map, Function.comp_def]

/-- Operators are left as they are. -/
@[simp] theorem operators_map (f : α → β) (r : Row α) :
    (r.map f).operators = r.operators := by
  simp [operators, map, Function.comp_def]

end Row

namespace Grouping

variable {α β : Type}

/-- A tree with other operands. -/
def map (f : α → β) : Grouping α → Grouping β
  | operand x => operand (f x)
  | joined left op right => joined (left.map f) op (right.map f)

/-- A tree is over a row if it has the operands and the operators of the
row, in the same order. -/
structure Over (g : Grouping α) (r : Row α) : Prop where
  operands : g.operands = r.operands
  operators : g.operators = r.operators

/-- There is one operand more than there are operators. -/
theorem length_operands (g : Grouping α) : g.operands.length = g.operators.length + 1 := by
  induction g with
  | operand x => rfl
  | joined left op right hl hr =>
    simp only [operands, operators, List.length_append, List.length_cons, hl, hr]
    omega

/-- Operators of a tree are left as they are. -/
@[simp] theorem operators_map (f : α → β) (g : Grouping α) :
    (g.map f).operators = g.operators := by
  induction g with
  | operand x => rfl
  | joined left op right hl hr => simp only [map, operators, hl, hr]

/-- The operands of a tree are changed in place. -/
@[simp] theorem operands_map (f : α → β) (g : Grouping α) :
    (g.map f).operands = g.operands.map f := by
  induction g with
  | operand x => rfl
  | joined left op right hl hr => simp only [map, operands, hl, hr, List.map_append]

end Grouping

/-! ### What a step of grouping keeps -/

namespace Pending

variable {α β : Type}

/-- A fold puts off nothing that draining would not do first. -/
theorem drain_foldOnce (p : Pending α) : p.foldOnce.drain = p.drain := by
  obtain ⟨waiting, current⟩ := p
  -- Draining starts with the very fold, unless nothing waits.
  cases waiting with
  | nil => rfl
  | cons w waiting => rfl

/-- Folding early does not change the tree that comes out in the end. -/
theorem drain_foldTimes (n : Nat) (p : Pending α) : (p.foldTimes n).drain = p.drain := by
  induction n generalizing p with
  | zero => rfl
  | succ n ih =>
    show (p.foldOnce.foldTimes n).drain = p.drain
    rw [ih, drain_foldOnce]

/-- The operands and operators of a row that is read in part: those on the
left of each waiting operator, the first one first, and the current ones. -/
theorem operands_drain (p : Pending α) :
    p.drain.operands
      = (p.waiting.reverse.flatMap fun w => w.1.operands) ++ p.current.operands := by
  obtain ⟨waiting, current⟩ := p
  -- On the waiting operators. Each fold changes the current tree, hence any current tree.
  induction waiting generalizing current with
  | nil => rfl
  | cons w waiting ih =>
    show (drain ⟨waiting, .joined w.1 w.2 current⟩).operands = _
    rw [ih]
    simp [Grouping.operands]

/-- The operators are those between the trees that wait, and those within them. -/
theorem operators_drain (p : Pending α) :
    p.drain.operators
      = (p.waiting.reverse.flatMap fun w => w.1.operators ++ [w.2]) ++ p.current.operators := by
  obtain ⟨waiting, current⟩ := p
  induction waiting generalizing current with
  | nil => rfl
  | cons w waiting ih =>
    show (drain ⟨waiting, .joined w.1 w.2 current⟩).operators = _
    rw [ih]
    simp [Grouping.operators]

/-- A step puts its operand behind the others. -/
theorem operands_drain_step (mode : Reduction) (p : Pending α) (link : BinaryOp × α) :
    (p.step mode link).drain.operands = p.drain.operands ++ [link.2] := by
  -- The folds of the step change nothing, and behind them it only pushes.
  rw [← drain_foldTimes (due mode p.ops link.1) p, operands_drain, operands_drain, step, push]
  simp [Grouping.operands]

/-- A step puts its operator behind the others. -/
theorem operators_drain_step (mode : Reduction) (p : Pending α) (link : BinaryOp × α) :
    (p.step mode link).drain.operators = p.drain.operators ++ [link.1] := by
  rw [← drain_foldTimes (due mode p.ops link.1) p, operators_drain, operators_drain, step, push]
  simp [Grouping.operators]

/-- The rows that are read in part, with other operands. -/
def map (f : α → β) (p : Pending α) : Pending β :=
  ⟨p.waiting.map fun w => (w.1.map f, w.2), p.current.map f⟩

/-- What waits keeps its operators, so steps are due at the same time. -/
@[simp] theorem ops_map (f : α → β) (p : Pending α) : (p.map f).ops = p.ops := by
  simp [ops, map, Function.comp_def]

/-- A fold joins trees whatever their operands are. -/
theorem foldOnce_map (f : α → β) (p : Pending α) : (p.map f).foldOnce = p.foldOnce.map f := by
  obtain ⟨waiting, current⟩ := p
  cases waiting with
  | nil => rfl
  | cons w waiting => rfl

/-- A number of folds is one fold after the other. -/
theorem foldTimes_map (f : α → β) (n : Nat) (p : Pending α) :
    (p.map f).foldTimes n = (p.foldTimes n).map f := by
  induction n generalizing p with
  | zero => rfl
  | succ n ih =>
    show (p.map f).foldOnce.foldTimes n = (p.foldOnce.foldTimes n).map f
    rw [foldOnce_map, ih]

/-- A step folds by the operators and then pushes its operand. -/
theorem step_map (f : α → β) (mode : Reduction) (p : Pending α) (link : BinaryOp × α) :
    (p.map f).step mode (link.1, f link.2) = (p.step mode link).map f := by
  simp only [step, ops_map, foldTimes_map]
  rfl

/-- Draining joins trees whatever their operands are. -/
theorem drain_map (f : α → β) (p : Pending α) : (p.map f).drain = p.drain.map f := by
  obtain ⟨waiting, current⟩ := p
  induction waiting generalizing current with
  | nil => rfl
  | cons w waiting ih => exact ih (.joined w.1 w.2 current)

end Pending

namespace Row

variable {α β : Type}

/-- **The tree of a row is over the row**, in both modes. -/
theorem over_group (mode : Reduction) (r : Row α) : (r.group mode).Over r := by
  obtain ⟨x, links⟩ := r
  -- The invariant: what is pending, drained at any time, is over the part read so far.
  have key : ∀ (links : List (BinaryOp × α)) (p : Pending α),
      (links.foldl (Pending.step mode) p).drain.operands
          = p.drain.operands ++ links.map Prod.snd ∧
        (links.foldl (Pending.step mode) p).drain.operators
          = p.drain.operators ++ links.map Prod.fst := by
    intro links
    induction links with
    | nil => intro p; simp
    | cons link links ih =>
      intro p
      obtain ⟨h₁, h₂⟩ := ih (p.step mode link)
      rw [List.foldl_cons, h₁, h₂, Pending.operands_drain_step, Pending.operators_drain_step]
      simp
  obtain ⟨h₁, h₂⟩ := key links (.start x)
  exact ⟨h₁, h₂⟩

/-- Grouping does not look at operands. -/
theorem group_map (f : α → β) (mode : Reduction) (r : Row α) :
    (r.map f).group mode = (r.group mode).map f := by
  obtain ⟨x, links⟩ := r
  -- Folds depend on the operators alone, so both runs fold in step.
  have key : ∀ (links : List (BinaryOp × α)) (p : Pending α),
      ((links.map fun l => (l.1, f l.2)).foldl (Pending.step mode) (p.map f))
        = (links.foldl (Pending.step mode) p).map f := by
    intro links
    induction links with
    | nil => intro p; rfl
    | cons link links ih =>
      intro p
      rw [List.map_cons, List.foldl_cons, List.foldl_cons, Pending.step_map, ih]
  show ((links.map fun l => (l.1, f l.2)).foldl (Pending.step mode)
      ((Pending.start x).map f)).drain = _
  rw [key, Pending.drain_map]
  rfl

end Row

/-! ### The row of a chain -/

/-- The operators behind an operand, each with its right operand. -/
def Links.toLinks : Links → List (BinaryOp × Operand)
  | .done _ => []
  | .stray _ rest => rest.toLinks
  | .link op _ operand rest => (op, operand) :: rest.toLinks

/-- The operands and operators of a chain, without the tokens that were
skipped between them. -/
def Chain.row : Chain → Row Operand
  | .mk first links => ⟨first, links.toLinks⟩

/-- The tree of a row does not depend on strays, which are left out of it. -/
theorem Links.toPairs_eq (mode : Reduction) : (links : Links) →
    links.toPairs mode = links.toLinks.map fun l => (l.1, l.2.toExpr mode)
  | .done _ => by simp only [Links.toPairs, Links.toLinks, List.map_nil]
  | .stray _ rest => by
    rw [Links.toPairs, Links.toLinks]
    exact Links.toPairs_eq mode rest
  | .link op _ operand rest => by
    rw [Links.toPairs, Links.toLinks, List.map_cons, Links.toPairs_eq mode rest]

/-- The tree of a chain is that of its row. -/
theorem Chain.toExpr_eq_group (mode : Reduction) (chain : Chain) :
    chain.toExpr mode = ((chain.row.map (Operand.toExpr mode)).group mode).toExpr := by
  obtain ⟨first, links⟩ := chain
  rw [Chain.toExpr, Links.toPairs_eq]
  rfl

end ExprFrontEnd
