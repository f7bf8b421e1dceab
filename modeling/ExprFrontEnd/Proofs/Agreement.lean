import ExprFrontEnd.Proofs.Canonical
import ExprFrontEnd.Proofs.Runs

/-!
# `ExprFrontEnd.Proofs.Agreement`: where the two modes agree

The two modes give a row the same tree just in case every operator that the
next one outbinds is outbound by all operators behind it
(`WellDeferred`). One direction of this needs a lock-step argument and the
other an argument that the trees never become equal again. Both are avoided:
`cascading` gives the only canonical tree of the row, so the modes agree iff
the closed form of `singleStep` is canonical, and that is read off the
closed form by one induction (`canonical_settle_iff`).

* `group_eq_group_iff`: the two modes agree on a row iff its operators are
  `WellDeferred`.
* `foldsAtMostOnce_iff`: iff the mode `cascading` never folds two operators
  when one comes in.
* `toExpr_read_eq_iff`: iff they agree on what is read at a cursor, its
  operands set aside.

The last one compares expressions instead of trees over opaque operands. An
operand can be an operator node itself, in a group, so that two trees over
one row might be one expression. They are not: the number of leaves of an
expression tells how many operands it takes up (`leaves_toExpr`).
-/

set_option autoImplicit false

namespace ExprFrontEnd

/-- An operator that the next one outbinds is outbound by every operator
behind it. -/
def WellDeferred (ops : List BinaryOp) : Prop :=
  ∀ i (h : i + 1 < ops.length), ops[i + 1].precedence ≤ ops[i].precedence ∨
    ∀ j (hj : j < ops.length), i < j → ops[i].precedence < ops[j].precedence

/-- The condition on the first operator, and that on the others. -/
theorem wellDeferred_cons {op : BinaryOp} {ops : List BinaryOp} :
    WellDeferred (op :: ops) ↔
      (op.isDeferred ops.head? = true → ∀ o ∈ ops, op.precedence < o.precedence) ∧
        WellDeferred ops := by
  constructor
  · intro h
    refine ⟨fun hd => ?_, fun i hi => ?_⟩
    · -- The next operator binds more tightly, which rules out the first case of `h`.
      cases ops with
      | nil => intro o ho; cases ho
      | cons next ops =>
        have hd : op.precedence < next.precedence := by
          simpa [BinaryOp.isDeferred] using hd
        rcases h 0 (by simp) with hle | hlt
        · exact absurd hle (Nat.not_le_of_lt hd)
        · intro o ho
          obtain ⟨j, hj, rfl⟩ := List.mem_iff_getElem.mp ho
          exact hlt (j + 1) (by simpa using hj) (Nat.succ_pos j)
    · rcases h (i + 1) (by simpa using hi) with hle | hlt
      · exact Or.inl hle
      · exact Or.inr fun j hj hij => hlt (j + 1) (by simpa using hj) (Nat.succ_lt_succ hij)
  · rintro ⟨hop, hops⟩ i hi
    cases i with
    | zero =>
      cases ops with
      | nil => simp at hi
      | cons next ops =>
        by_cases hle : next.precedence ≤ op.precedence
        · exact Or.inl hle
        · have hlt := hop (by simpa [BinaryOp.isDeferred] using hle)
          refine Or.inr fun j hj hij => ?_
          obtain ⟨j, rfl⟩ : ∃ k, j = k + 1 := ⟨j - 1, by omega⟩
          exact hlt _ (List.getElem_mem (by simpa using hj))
    | succ i =>
      rcases hops i (by simpa using hi) with hle | hlt
      · exact Or.inl hle
      · refine Or.inr fun j hj hij => ?_
        obtain ⟨j, rfl⟩ : ∃ k, j = k + 1 := ⟨j - 1, by omega⟩
        exact hlt j (by simpa using hj) (by omega)

/-! ### The closed form and the canonical tree -/

namespace Grouping

variable {α : Type}

/-- The closed form has the operators of the row. -/
theorem operators_settle (x : α) (links : List (BinaryOp × α)) :
    (settle (.operand x) links).operators = links.map Prod.fst := by
  rw [← Row.group_eq_settle ⟨x, links⟩, (Row.over_group .singleStep ⟨x, links⟩).operators]
  rfl

/-- The closed form of `singleStep` is canonical iff the operators are
`WellDeferred`. The run is what stands to the left already; it binds at
least as tightly as the operator behind it. -/
theorem canonical_settle_iff {run : Grouping α} (links : List (BinaryOp × α))
    (hrun : run.Canonical)
    (hroot : ∀ o ∈ (links.map Prod.fst).head?, ∀ r ∈ run.root?, o.precedence ≤ r.precedence) :
    (run.settle links).Canonical ↔ WellDeferred (links.map Prod.fst) := by
  induction links generalizing run with
  | nil => exact iff_of_true hrun (fun i hi => absurd hi (Nat.not_lt_zero _))
  | cons link links ih =>
    obtain ⟨op, x⟩ := link
    have hop : ∀ r ∈ run.root?, op.precedence ≤ r.precedence := hroot op rfl
    rw [settle, List.map_cons, wellDeferred_cons]
    by_cases hd : op.isDeferred (links.map Prod.fst).head? = true
    · -- The rest becomes the right child, so all of it has to bind more tightly.
      rw [if_pos hd]
      have hrest := @ih (.operand x) trivial (fun _ _ => forall_root?_operand x _)
      have hbound : (settle (.operand x) links).Canonical →
          ((∀ o ∈ (settle (.operand x) links).root?, op.precedence < o.precedence) ↔
            ∀ o ∈ links.map Prod.fst, op.precedence < o.precedence) := by
        intro hc
        rw [← operators_settle x links]
        exact ⟨fun h => hc.le_of_le_root h, fun h o ho => h o (root?_mem_operators ho)⟩
      constructor
      · rintro ⟨-, hr, -, hc⟩
        exact ⟨fun _ => (hbound hc).mp hr, hrest.mp hc⟩
      · rintro ⟨hlt, hw⟩
        have hc := hrest.mpr hw
        exact ⟨hop, (hbound hc).mpr (hlt hd), hrun, hc⟩
    · -- The run is prolonged, and its new root is the operator.
      rw [if_neg hd]
      have hnext : ∀ o ∈ (links.map Prod.fst).head?, o.precedence ≤ op.precedence := by
        intro o ho
        rw [Option.mem_def] at ho
        simpa [BinaryOp.isDeferred, ho] using hd
      have hjoin : (joined run op (.operand x)).Canonical := hrun.join_operand hop x
      rw [ih hjoin fun o ho r hr => by
        obtain rfl : op = r := Option.some.inj hr
        exact hnext o ho]
      exact ⟨fun h => ⟨fun h' => absurd h' hd, h⟩, fun h => h.2⟩

end Grouping

namespace Row

variable {α : Type}

/-- **The two modes agree on a row iff its operators are `WellDeferred`.** -/
theorem group_eq_group_iff (r : Row α) :
    r.group .singleStep = r.group .cascading ↔ WellDeferred r.operators := by
  rw [eq_group_cascading_iff, and_iff_right (over_group .singleStep r), group_eq_settle]
  exact Grouping.canonical_settle_iff r.links trivial fun _ _ =>
    Grouping.forall_root?_operand r.first _

end Row

/-! ### The run of the mode `cascading` -/

namespace Row

variable {α : Type}

/-- In the mode `cascading` no operator of the row folds two others when it
comes in. -/
def FoldsAtMostOnce (r : Row α) : Prop :=
  ∀ before link behind, r.links = before ++ link :: behind →
    due .cascading (before.foldl (Pending.step .cascading) (.start r.first)).ops link.1 ≤ 1

/-- As long as no operator folds two others, the two modes run in step. -/
theorem foldl_step_eq (links : List (BinaryOp × α)) (p : Pending α)
    (h : ∀ before link behind, links = before ++ link :: behind →
      due .cascading (before.foldl (Pending.step .cascading) p).ops link.1 ≤ 1) :
    links.foldl (Pending.step .singleStep) p = links.foldl (Pending.step .cascading) p := by
  induction links generalizing p with
  | nil => rfl
  | cons link links ih =>
    have hdue : due .singleStep p.ops link.1 = due .cascading p.ops link.1 :=
      Nat.min_eq_right (h [] link links rfl)
    have hstep : p.step .singleStep link = p.step .cascading link := by
      rw [Pending.step, Pending.step, hdue]
    rw [List.foldl_cons, List.foldl_cons, hstep]
    refine ih (p.step .cascading link) fun before l behind hl => ?_
    exact h (link :: before) l behind (by rw [hl]; rfl)

/-- What holds between two operators of a run that never folds twice: the
rest of the row is `WellDeferred`, also behind the last waiting operator, and
the operators below that one bind less tightly than the rest of the row. -/
structure RunsLow (p : Pending α) (links : List (BinaryOp × α)) : Prop where
  rest : WellDeferred (links.map Prod.fst)
  last : ∀ op ∈ p.ops.head?, WellDeferred (op :: links.map Prod.fst)
  below : ∀ op ∈ p.ops.tail, ∀ o ∈ links.map Prod.fst, op.precedence < o.precedence

/-- One step of such a run. -/
theorem RunsLow.step {p : Pending α} {link : BinaryOp × α} {links : List (BinaryOp × α)}
    (h : RunsLow p (link :: links)) :
    due .cascading p.ops link.1 ≤ 1 ∧ RunsLow (p.step .cascading link) links := by
  obtain ⟨waiting, current⟩ := p
  obtain ⟨hrest, hlast, hbelow⟩ := h
  have htail := (wellDeferred_cons.mp hrest).2
  cases waiting with
  | nil =>
    -- The first operator of the row: it becomes the last waiting one.
    refine ⟨Nat.zero_le _, htail, ?_, nofun⟩
    intro op hop
    obtain rfl : link.1 = op := Option.some.inj hop
    exact hrest
  | cons w waiting =>
    -- Below the last one nothing is due, since the whole rest binds more tightly.
    have hnext : ∀ op ∈ waiting.map Prod.snd, op.precedence < link.1.precedence :=
      fun op hop => hbelow op hop link.1 List.mem_cons_self
    have hstop : due .cascading (waiting.map Prod.snd) link.1 = 0 := by
      cases waiting with
      | nil => rfl
      | cons v waiting =>
        have hv := hnext v.2 List.mem_cons_self
        simp [due, hv]
    by_cases hle : link.1.precedence ≤ w.2.precedence
    · -- The last waiting operator is folded, and those below it are not.
      have hdue : due .cascading (Pending.ops ⟨w :: waiting, current⟩) link.1 = 1 := by
        have : due .cascading (Pending.ops ⟨w :: waiting, current⟩) link.1
            = due .cascading (waiting.map Prod.snd) link.1 + 1 := by
          simp [due, Pending.ops, hle]
        rw [this, hstop]
      refine ⟨Nat.le_of_eq hdue, htail, ?_, ?_⟩
      · rw [Pending.step, hdue]
        intro op hop
        obtain rfl : link.1 = op := Option.some.inj hop
        exact hrest
      · rw [Pending.step, hdue]
        intro op hop o ho
        exact hbelow op hop o (List.mem_cons_of_mem _ ho)
    · -- Nothing is folded, and the last waiting operator joins those below.
      have hdue : due .cascading (Pending.ops ⟨w :: waiting, current⟩) link.1 = 0 := by
        simp [due, Pending.ops, hle]
      have hlow : ∀ o ∈ link.1 :: links.map Prod.fst, w.2.precedence < o.precedence :=
        (wellDeferred_cons.mp (hlast w.2 rfl)).1 (by simpa [BinaryOp.isDeferred] using hle)
      refine ⟨by rw [hdue]; exact Nat.zero_le 1, htail, ?_, ?_⟩
      · rw [Pending.step, hdue]
        intro op hop
        obtain rfl : link.1 = op := Option.some.inj hop
        exact hrest
      · rw [Pending.step, hdue]
        intro op hop o ho
        rcases List.mem_cons.mp hop with rfl | hop
        · exact hlow o (List.mem_cons_of_mem _ ho)
        · exact hbelow op hop o (List.mem_cons_of_mem _ ho)

/-- The whole run. -/
theorem RunsLow.due_le_one {p : Pending α} {links : List (BinaryOp × α)} (h : RunsLow p links)
    (before : List (BinaryOp × α)) (link : BinaryOp × α) (behind : List (BinaryOp × α))
    (hl : links = before ++ link :: behind) :
    due .cascading (before.foldl (Pending.step .cascading) p).ops link.1 ≤ 1 := by
  induction before generalizing p links with
  | nil =>
    subst hl
    exact h.step.1
  | cons first before ih =>
    subst hl
    exact ih h.step.2 rfl

/-- The condition on the operators says that the mode `cascading` folds at
most one operator at a time. -/
theorem foldsAtMostOnce_iff (r : Row α) : r.FoldsAtMostOnce ↔ WellDeferred r.operators := by
  constructor
  · intro h
    rw [← group_eq_group_iff]
    exact congrArg Pending.drain (foldl_step_eq r.links (.start r.first) h)
  · intro h
    have hstart : RunsLow (.start r.first) r.links := ⟨h, nofun, nofun⟩
    exact hstart.due_le_one

end Row

/-! ### From trees to expressions -/

/-- The operands of the operator nodes at the top of an expression. -/
def Expr.leaves : Expr → List Expr
  | .binary left _ right _ => left.leaves ++ right.leaves
  | e => [e]

/-- Every expression has a leaf: itself, if it is no operator node. -/
theorem Expr.leaves_ne_nil (e : Expr) : e.leaves ≠ [] := by
  induction e using Expr.leaves.induct with
  | case1 left op right span ihl ihr =>
    rw [Expr.leaves]
    exact fun h => ihl (List.append_eq_nil_iff.mp h).1
  | case2 e he =>
    rw [Expr.leaves]
    · exact List.cons_ne_nil _ _
    · exact he

/-- The leaves of a tree's expression are those of its operands. -/
theorem Grouping.leaves_toExpr (g : Grouping Expr) :
    g.toExpr.leaves = g.operands.flatMap Expr.leaves := by
  induction g with
  | operand e => simp [Grouping.toExpr, Grouping.operands]
  | joined left op right ihl ihr =>
    rw [Grouping.toExpr, Expr.leaves, ihl, ihr, Grouping.operands, List.flatMap_append]

/-- In both modes the leaves of a row are those of its operands, in order. -/
theorem Row.leaves_group (mode : Reduction) (r : Row Expr) :
    (r.group mode).toExpr.leaves = r.operands.flatMap Expr.leaves := by
  rw [Grouping.leaves_toExpr, (Row.over_group mode r).operands]

/-- Accessors leave one leaf, and none of them leaves what there was. -/
theorem Accessors.length_leaves_apply (m n : Reduction) : (accessors : Accessors) → {e f : Expr} →
    e.leaves.length = f.leaves.length →
      (accessors.apply m e).leaves.length = (accessors.apply n f).leaves.length
  | .none, _, _, h => h
  | .call _ _ _ rest, _, _, _ => by
    rw [Accessors.apply, Accessors.apply]
    exact Accessors.length_leaves_apply m n rest rfl
  | .index _ _ _ rest, _, _, _ => by
    rw [Accessors.apply, Accessors.apply]
    exact Accessors.length_leaves_apply m n rest rfl
  | .member _ _ _ rest, _, _, _ => by
    rw [Accessors.apply, Accessors.apply]
    exact Accessors.length_leaves_apply m n rest rfl

/-! The number of leaves does not depend on the mode. This goes along the
nest of groups only: what stands in calls, indexes and arrays is no leaf. -/

mutual

/-- A chain has the leaves of its operands, and each of these has equally many in both modes. -/
theorem Chain.length_leaves (m n : Reduction) : (chain : Chain) →
    (chain.toExpr m).leaves.length = (chain.toExpr n).leaves.length
  | .mk first links => by
    have h₁ := Operand.length_leaves m n first
    have h₂ := Links.length_leaves m n links
    -- In each mode the leaves are those of the operands, one behind the other.
    have key : ∀ k : Reduction, ((Chain.mk first links).toExpr k).leaves
        = (first.toExpr k).leaves ++ (links.toPairs k).flatMap fun l => l.2.leaves := by
      intro k
      rw [Chain.toExpr]
      refine (Row.leaves_group k ⟨first.toExpr k, links.toPairs k⟩).trans ?_
      simp [Row.operands, List.flatMap_map]
    rw [key m, key n, List.length_append, List.length_append, h₁, h₂]

/-- Behind an operator there are the leaves of its operand. -/
theorem Links.length_leaves (m n : Reduction) : (links : Links) →
    ((links.toPairs m).flatMap fun l => l.2.leaves).length
      = ((links.toPairs n).flatMap fun l => l.2.leaves).length
  | .done _ => rfl
  | .stray _ rest => by
    rw [Links.toPairs, Links.toPairs]
    exact Links.length_leaves m n rest
  | .link _ _ operand rest => by
    rw [Links.toPairs, Links.toPairs, List.flatMap_cons, List.flatMap_cons, List.length_append,
      List.length_append, Links.length_leaves m n rest]
    exact congrArg (· + _) (Operand.length_leaves m n operand)

/-- A sign makes one leaf of what it stands in front of. -/
theorem Operand.length_leaves (m n : Reduction) : (operand : Operand) →
    (operand.toExpr m).leaves.length = (operand.toExpr n).leaves.length
  | .signed _ _ _ => rfl
  | .bare primary => by
    rw [Operand.toExpr, Operand.toExpr]
    exact Primary.length_leaves m n primary

/-- Tokens that were skipped leave nothing in the tree. -/
theorem Primary.length_leaves (m n : Reduction) : (primary : Primary) →
    (primary.toExpr m).leaves.length = (primary.toExpr n).leaves.length
  | .stray _ rest => by
    rw [Primary.toExpr, Primary.toExpr]
    exact Primary.length_leaves m n rest
  | .atom atom accessors => by
    rw [Primary.toExpr, Primary.toExpr]
    exact Accessors.length_leaves_apply m n accessors (Atom.length_leaves m n atom)

/-- A group has the leaves of what is inside. All else is one leaf. -/
theorem Atom.length_leaves (m n : Reduction) : (atom : Atom) →
    (atom.toExpr m).leaves.length = (atom.toExpr n).leaves.length
  | .number _ _ => rfl
  | .string _ _ => rfl
  | .name _ _ => rfl
  | .group _ inner => by
    rw [Atom.toExpr, Atom.toExpr]
    exact Chain.length_leaves m n inner
  | .array _ _ => rfl
  | .missing _ => rfl

end

/-- Of the starts of one list, only one yields a given number of entries. -/
theorem eq_of_append_eq_append {α β : Type} {w : α → List β} (hw : ∀ x, w x ≠ [])
    {a b c d : List α} (h : a ++ b = c ++ d)
    (hlen : (a.flatMap w).length = (c.flatMap w).length) : a = c := by
  -- What one start has more than the other yields nothing, so there is nothing more.
  have hnil : ∀ m : List α, (m.flatMap w).length = 0 → m = [] := by
    intro m hm
    cases m with
    | nil => rfl
    | cons x m =>
      rw [List.length_eq_zero_iff, List.flatMap_cons] at hm
      exact absurd (List.append_eq_nil_iff.mp hm).1 (hw x)
  rcases List.append_eq_append_iff.mp h with ⟨m, rfl, -⟩ | ⟨m, rfl, -⟩
  · rw [List.flatMap_append, List.length_append] at hlen
    rw [hnil m (by omega), List.append_nil]
  · rw [List.flatMap_append, List.length_append] at hlen
    rw [hnil m (by omega), List.append_nil]

/-- Two trees over one row whose expressions are equal are the same tree with
equal operands. The operands may be made into expressions in two ways, as
long as both give them the same number of leaves. -/
theorem Grouping.eq_of_toExpr_eq {α : Type} {f h : α → Expr}
    (hlen : ∀ x, (f x).leaves.length = (h x).leaves.length) {s t : Grouping α}
    (hx : s.operands = t.operands) (ho : s.operators = t.operators)
    (he : (s.map f).toExpr = (t.map h).toExpr) : s = t ∧ ∀ x ∈ s.operands, f x = h x := by
  induction s generalizing t with
  | operand x =>
    cases t with
    | operand y =>
      obtain rfl := List.singleton_inj.mp hx
      exact ⟨rfl, fun z hz => by rw [List.mem_singleton.mp hz]; exact he⟩
    | joined left op right => simp [operators] at ho
  | joined left op right ihl ihr =>
    cases t with
    | operand y => simp [operators] at ho
    | joined left' op' right' =>
      simp only [operators, operands] at ho hx
      obtain ⟨hel, rfl, her, -⟩ := Expr.binary.inj he
      -- The left children take up equally many leaves, hence the same operands.
      have hsum : (left.operands.flatMap fun x => (f x).leaves).length
          = (left'.operands.flatMap fun x => (f x).leaves).length := by
        have hl := congrArg (fun e => e.leaves.length) hel
        simp only [leaves_toExpr, operands_map, List.flatMap_map] at hl
        rw [hl, List.length_flatMap, List.length_flatMap]
        simp only [hlen]
      have hxl : left.operands = left'.operands :=
        eq_of_append_eq_append (fun x => (f x).leaves_ne_nil) hx hsum
      have hxr : right.operands = right'.operands := by
        rw [hxl] at hx
        exact List.append_cancel_left hx
      -- They have equally many operators then, so the roots are at one place.
      have hcount : left.operators.length = left'.operators.length := by
        have h₁ := left.length_operands
        have h₂ := left'.length_operands
        rw [hxl] at h₁
        omega
      obtain ⟨hol, htail⟩ := List.append_inj ho hcount
      obtain ⟨rfl, hl⟩ := ihl hxl hol hel
      obtain ⟨rfl, hr⟩ := ihr hxr (List.cons.inj htail).2 her
      refine ⟨rfl, fun x hx => ?_⟩
      rcases List.mem_append.mp hx with hx | hx
      · exact hl x hx
      · exact hr x hx

/-- Equal operands give equal trees. -/
theorem Grouping.map_congr {α β : Type} {f h : α → β} {g : Grouping α}
    (hfh : ∀ x ∈ g.operands, f x = h x) : g.map f = g.map h := by
  induction g with
  | operand x => exact congrArg operand (hfh x List.mem_cons_self)
  | joined left op right ihl ihr =>
    rw [map, map, ihl fun x hx => hfh x (List.mem_append_left _ hx),
      ihr fun x hx => hfh x (List.mem_append_right _ hx)]

/-- Two modes make the same expression of a chain if and only if they group
its operators in the same way, and make the same of its operands. -/
theorem Chain.toExpr_eq_toExpr_iff (m n : Reduction) (chain : Chain) :
    chain.toExpr m = chain.toExpr n ↔
      chain.row.group m = chain.row.group n ∧
        ∀ x ∈ chain.row.operands, x.toExpr m = x.toExpr n := by
  have hm := Row.over_group m chain.row
  have hn := Row.over_group n chain.row
  rw [Chain.toExpr_eq_group, Chain.toExpr_eq_group, Row.group_map, Row.group_map]
  constructor
  -- Both trees have the operands and the operators of the row, so nothing but the grouping can
  -- differ.
  · intro he
    have hg := Grouping.eq_of_toExpr_eq (Operand.length_leaves m n)
      (hm.operands.trans hn.operands.symm) (hm.operators.trans hn.operators.symm) he
    rwa [hm.operands] at hg
  · rintro ⟨hg, hx⟩
    rw [← hn.operands] at hx
    rw [hg, Grouping.map_congr hx]

/-- **Where the modes agree** on what is read at a cursor. Its operands set
aside, they agree iff every operator that the next one outbinds is outbound
by all behind it; as expressions they agree iff besides the operands do. The
condition says that the mode `cascading` never folds more than one operator
when another one comes in. -/
theorem toExpr_read_eq_iff (s : Scope) (c : Cursor) :
    let chain := (Chain.read s c).1
    (chain.row.group .singleStep = chain.row.group .cascading
        ↔ WellDeferred chain.row.operators) ∧
      (chain.toExpr .singleStep = chain.toExpr .cascading ↔
        WellDeferred chain.row.operators ∧
          ∀ x ∈ chain.row.operands, x.toExpr .singleStep = x.toExpr .cascading) ∧
      (chain.row.FoldsAtMostOnce ↔ WellDeferred chain.row.operators) := by
  intro chain
  have htrees := chain.row.group_eq_group_iff
  exact ⟨htrees, by rw [Chain.toExpr_eq_toExpr_iff, htrees], chain.row.foldsAtMostOnce_iff⟩

end ExprFrontEnd
