import ExprFrontEnd.Proofs.Row

/-!
# `ExprFrontEnd.Proofs.Canonical`: the canonical tree of a row

In a canonical tree tighter operators sit lower and operators of one
precedence associate to the left. `Grouping.Canonical` says so node by
node: the left child of a node binds at least as tightly as the node, the
right child binds more tightly.

* `Canonical.eq_of_over`: a row has at most one canonical tree. The root is
  forced, because it is the last of the operators that bind least tightly
  (`Canonical.le_of_mem_left`, `Canonical.lt_of_mem_right`).
* `canonical_group_cascading`: the mode `cascading` finds it.
* `eq_group_cascading_iff`: both together.

The invariant of the run is that the tree is canonical if the row ends here,
`p.drain.Canonical`. It holds the order of the waiting operators, since each
of them is the right child of the one below it when all are folded.
-/

set_option autoImplicit false

namespace ExprFrontEnd

namespace Grouping

variable {α : Type}

/-- The operator at the root of a tree. A single operand has none. -/
def root? : Grouping α → Option BinaryOp
  | operand _ => none
  | joined _ op _ => some op

/-- At each operator, an operator that is its left child binds at least as
tightly, and one that is its right child binds more tightly. -/
def Canonical : Grouping α → Prop
  | operand _ => True
  | joined left op right =>
    (∀ o ∈ left.root?, op.precedence ≤ o.precedence) ∧
      (∀ o ∈ right.root?, op.precedence < o.precedence) ∧ left.Canonical ∧ right.Canonical

/-- Whatever is asked of the root of an operand holds. -/
theorem forall_root?_operand (x : α) (P : BinaryOp → Prop) :
    ∀ o ∈ (operand x).root?, P o := by
  intro o ho
  cases ho

/-- The root of a tree is one of its operators. -/
theorem root?_mem_operators {g : Grouping α} {o : BinaryOp} (h : o ∈ g.root?) :
    o ∈ g.operators := by
  cases g with
  | operand x => cases h
  | joined left op right =>
    obtain rfl : op = o := Option.some.inj h
    exact List.mem_append_right _ List.mem_cons_self

namespace Canonical

/-- A canonical tree may be the left operand of an operator that binds no
more tightly than its root. -/
theorem join_operand {g : Grouping α} (hg : g.Canonical) {op : BinaryOp}
    (h : ∀ o ∈ g.root?, op.precedence ≤ o.precedence) (x : α) :
    (joined g op (operand x)).Canonical :=
  ⟨h, forall_root?_operand x _, hg, trivial⟩

/-- A bound on the root of a canonical tree is one on all of its operators. -/
theorem le_of_le_root {g : Grouping α} (hg : g.Canonical) {n : Nat}
    (h : ∀ o ∈ g.root?, n ≤ o.precedence) : ∀ o ∈ g.operators, n ≤ o.precedence := by
  induction g generalizing n with
  | operand x => intro o ho; cases ho
  | joined left op right ihl ihr =>
    obtain ⟨hl, hr, hcl, hcr⟩ := hg
    have hop : n ≤ op.precedence := h op rfl
    intro o ho
    rcases List.mem_append.mp ho with ho | ho
    · exact ihl hcl (fun l hl' => Nat.le_trans hop (hl l hl')) o ho
    · rcases List.mem_cons.mp ho with rfl | ho
      · exact hop
      · exact ihr hcr (fun r hr' => Nat.le_trans hop (Nat.le_of_lt (hr r hr'))) o ho

/-- In a canonical tree no operator on the left binds less tightly than the root. -/
theorem le_of_mem_left {left right : Grouping α} {op : BinaryOp}
    (h : (joined left op right).Canonical) : ∀ o ∈ left.operators, op.precedence ≤ o.precedence :=
  le_of_le_root h.2.2.1 h.1

/-- In a canonical tree all operators on the right bind more tightly than the root. -/
theorem lt_of_mem_right {left right : Grouping α} {op : BinaryOp}
    (h : (joined left op right).Canonical) : ∀ o ∈ right.operators, op.precedence < o.precedence :=
  le_of_le_root h.2.2.2 h.2.1

end Canonical

/-- If a list is split at two places, the entry at the first one is left of
the second one, and the entry at the second one is right of the first. -/
theorem mem_of_split_lt {β : Type} {l₁ r₁ l₂ r₂ : List β} {a b : β}
    (h : l₁ ++ a :: r₁ = l₂ ++ b :: r₂) (hlt : l₁.length < l₂.length) : a ∈ l₂ ∧ b ∈ r₁ := by
  -- One start prolongs the other by some `m`, and it is the second that is longer.
  rcases List.append_eq_append_iff.mp h with ⟨m, rfl, hm⟩ | ⟨m, rfl, -⟩
  · cases m with
    | nil => simp at hlt
    | cons c m =>
      obtain ⟨rfl, rfl⟩ := List.cons.inj hm
      exact ⟨by simp, by simp⟩
  · rw [List.length_append] at hlt
    omega

/-- **A row has at most one canonical tree.** -/
theorem Canonical.eq_of_over {r : Row α} {g h : Grouping α} (hg : g.Canonical) (hh : h.Canonical)
    (hgr : g.Over r) (hhr : h.Over r) : g = h := by
  -- The induction is on one of the trees, so the row has to go.
  have hx : g.operands = h.operands := hgr.operands.trans hhr.operands.symm
  have ho : g.operators = h.operators := hgr.operators.trans hhr.operators.symm
  clear hgr hhr
  induction g generalizing h with
  | operand x =>
    cases h with
    | operand y => rw [List.singleton_inj.mp hx]
    | joined left op right => simp [operators] at ho
  | joined left op right ihl ihr =>
    cases h with
    | operand y => simp [operators] at ho
    | joined left' op' right' =>
      simp only [operators, operands] at ho hx
      -- Both roots are the last of the loosest operators, so they are at one place.
      have hlen : left.operators.length = left'.operators.length := by
        rcases Nat.lt_trichotomy left.operators.length left'.operators.length with hlt | heq | hgt
        · -- `op` is left of `op'` in `h`, and `op'` right of `op` in `g`.
          obtain ⟨h₁, h₂⟩ := mem_of_split_lt ho hlt
          have := hh.le_of_mem_left op h₁
          have := hg.lt_of_mem_right op' h₂
          omega
        · exact heq
        · obtain ⟨h₁, h₂⟩ := mem_of_split_lt ho.symm hgt
          have := hg.le_of_mem_left op' h₁
          have := hh.lt_of_mem_right op h₂
          omega
      obtain ⟨hol, htail⟩ := List.append_inj ho hlen
      obtain ⟨rfl, hor⟩ := List.cons.inj htail
      have hlen' : left.operands.length = left'.operands.length := by
        rw [length_operands, length_operands, hlen]
      obtain ⟨hxl, hxr⟩ := List.append_inj hx hlen'
      rw [ihl hg.2.2.1 hh.2.2.1 hxl hol, ihr hg.2.2.2 hh.2.2.2 hxr hor]

end Grouping

/-! ### The mode `cascading` -/

namespace Pending

variable {α : Type}

/-- The current tree is a part of the tree that comes out. -/
theorem canonical_current {p : Pending α} (h : p.drain.Canonical) : p.current.Canonical := by
  obtain ⟨waiting, current⟩ := p
  induction waiting generalizing current with
  | nil => exact h
  | cons w waiting ih => exact (ih (.joined w.1 w.2 current) h).2.2.2

/-- The last waiting operator binds less tightly than what stands behind it. -/
theorem last_lt_root {p : Pending α} (h : p.drain.Canonical) :
    ∀ w ∈ p.waiting.head?, ∀ o ∈ p.current.root?, w.2.precedence < o.precedence := by
  obtain ⟨waiting, current⟩ := p
  cases waiting with
  | nil => intro w hw; cases hw
  | cons w waiting =>
    intro v hv
    obtain rfl : w = v := Option.some.inj hv
    have hj : (Grouping.joined w.1 w.2 current).Canonical :=
      canonical_current (p := ⟨waiting, .joined w.1 w.2 current⟩) h
    exact hj.2.1

/-- The current tree may be replaced by another one that binds more tightly
than the last waiting operator. -/
theorem canonical_replace {waiting : List (Grouping α × BinaryOp)} {t u : Grouping α}
    (ht : (drain ⟨waiting, t⟩).Canonical) (hu : u.Canonical)
    (hlt : ∀ w ∈ waiting.head?, ∀ o ∈ u.root?, w.2.precedence < o.precedence) :
    (drain ⟨waiting, u⟩).Canonical := by
  induction waiting generalizing t u with
  | nil => exact hu
  | cons w waiting ih =>
    have hj : (Grouping.joined w.1 w.2 t).Canonical :=
      canonical_current (p := ⟨waiting, .joined w.1 w.2 t⟩) ht
    -- The joined trees take the place of the current ones, and have the same root.
    show (drain ⟨waiting, .joined w.1 w.2 u⟩).Canonical
    refine ih (t := .joined w.1 w.2 t) ht ⟨hj.1, hlt w rfl, hj.2.2.1, hu⟩ ?_
    exact last_lt_root (p := ⟨waiting, .joined w.1 w.2 t⟩) ht

/-- Behind the folds that are due, the last operator that still waits binds
less tightly than the incoming one, and the current tree at least as
tightly. -/
theorem foldTimes_due (p : Pending α) (op : BinaryOp)
    (h : ∀ o ∈ p.current.root?, op.precedence ≤ o.precedence) :
    (∀ w ∈ (p.foldTimes (due .cascading p.ops op)).waiting.head?,
        w.2.precedence < op.precedence) ∧
      ∀ o ∈ (p.foldTimes (due .cascading p.ops op)).current.root?,
        op.precedence ≤ o.precedence := by
  obtain ⟨waiting, current⟩ := p
  induction waiting generalizing current with
  | nil => exact ⟨nofun, h⟩
  | cons w waiting ih =>
    by_cases hw : op.precedence ≤ w.2.precedence
    · -- This fold is due, so `w.2` becomes the root of the current tree.
      have hdue : due .cascading (ops ⟨w :: waiting, current⟩) op
          = due .cascading (ops ⟨waiting, .joined w.1 w.2 current⟩) op + 1 := by
        simp [due, ops, hw]
      rw [hdue]
      refine ih (.joined w.1 w.2 current) ?_
      intro o ho
      obtain rfl : w.2 = o := Option.some.inj ho
      exact hw
    · -- Nothing is due, and `w.2` is the last that waits.
      have hdue : due .cascading (ops ⟨w :: waiting, current⟩) op = 0 := by
        simp [due, ops, hw]
      rw [hdue]
      refine ⟨fun v hv => ?_, h⟩
      obtain rfl : w = v := Option.some.inj hv
      exact Nat.lt_of_not_le hw

/-- A step of the mode `cascading` keeps the invariant. Between two steps
the current tree is a single operand, so all operators are waiting. -/
theorem canonical_drain_step {p : Pending α} (link : BinaryOp × α) (hp : p.drain.Canonical)
    (hc : p.current.root? = none) : (p.step .cascading link).drain.Canonical := by
  -- Let `q` be what is pending behind the folds: it drains to the same tree as `p`.
  have hq := drain_foldTimes (due .cascading p.ops link.1) p
  obtain ⟨hlast, hroot⟩ := foldTimes_due p link.1 (by intro o ho; rw [hc] at ho; cases ho)
  rw [step, push]
  generalize p.foldTimes (due .cascading p.ops link.1) = q at hq hlast hroot
  rw [← hq] at hp
  -- The incoming operator takes the current tree of `q` as its left operand.
  show (drain ⟨q.waiting, .joined q.current link.1 (.operand link.2)⟩).Canonical
  refine canonical_replace hp ((canonical_current hp).join_operand hroot link.2) ?_
  intro w hw o ho
  obtain rfl : link.1 = o := Option.some.inj ho
  exact hlast w hw

end Pending

namespace Row

variable {α : Type}

/-- **The mode `cascading` yields a canonical tree.** -/
theorem canonical_group_cascading (r : Row α) : (r.group .cascading).Canonical := by
  obtain ⟨x, links⟩ := r
  have key : ∀ (links : List (BinaryOp × α)) (p : Pending α), p.drain.Canonical →
      p.current.root? = none → (links.foldl (Pending.step .cascading) p).drain.Canonical := by
    intro links
    induction links with
    | nil => intro p hp _; exact hp
    | cons link links ih =>
      intro p hp hc
      exact ih (p.step .cascading link) (Pending.canonical_drain_step link hp hc) rfl
  exact key links (.start x) trivial rfl

/-- The tree of the mode `cascading` is the one canonical tree of the row. -/
theorem eq_group_cascading_iff {r : Row α} {g : Grouping α} :
    g = r.group .cascading ↔ g.Over r ∧ g.Canonical := by
  constructor
  · rintro rfl
    exact ⟨over_group _ r, canonical_group_cascading r⟩
  · rintro ⟨ho, hc⟩
    exact hc.eq_of_over (canonical_group_cascading r) ho (over_group _ r)

end Row

end ExprFrontEnd
