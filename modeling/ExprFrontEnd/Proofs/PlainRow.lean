import ExprFrontEnd.Chain.Issues
import ExprFrontEnd.Lexed
import ExprFrontEnd.Proofs.Between
import ExprFrontEnd.Proofs.Canonical

/-!
# `ExprFrontEnd.Proofs.PlainRow`: rows of tokens

A plain row is the part of a stream that needs no accessors, no signs and no
recovery: numbers, strings, names and groups, with an operator between every
two of them and a terminator at the end. `Row.StandsAt` says that one stands
at a cursor, token by token. What a group holds is left open, since it is
read on its own.

* `Row.StandsAt.read`: a plain row is read to its terminator, as a chain
  without strays.
* `toExpr_read_cascading`: in the mode `cascading` its tree is the canonical
  one, and it has no issues but those inside of its groups.
-/

set_option autoImplicit false

namespace ExprFrontEnd

/-- A plain operand stands between two cursors: a number, a string, a name,
or a group, which is an opening parenthesis and all that is read behind it. -/
inductive PlainOperand (s : Scope) (c : Cursor) : Atom → Cursor → Prop where
  | number {value : Binary64} (h : (c.peek s).kind = .number value) :
    PlainOperand s c (.number value (c.peek s).span) (c.advance s)
  | string {value : String} (h : (c.peek s).kind = .string value) :
    PlainOperand s c (.string value (c.peek s).span) (c.advance s)
  | name {name : String} (h : (c.peek s).kind = .identifier name) :
    PlainOperand s c (.name name (c.peek s).span) (c.advance s)
  | group (h : (c.peek s).kind = .symbol .openParen) :
    PlainOperand s c (.group (c.peek s) (Chain.read s (c.advance s)).1)
      (Chain.read s (c.advance s)).2

/-- Operators with plain operands behind them, up to a terminator. -/
inductive PlainLinks (s : Scope) :
    Cursor → List (BinaryOp × Atom) → Terminator → Cursor → Prop where
  | done {c : Cursor} {kind : TerminatorKind}
    (h : TerminatorKind.ofKind? (c.peek s).kind = some kind) :
    PlainLinks s c [] ⟨kind, c.peek s⟩ (c.advance s)
  | link {c d e : Cursor} {op : BinaryOp} {x : Atom} {links : List (BinaryOp × Atom)}
    {t : Terminator} (h : BinaryOp.ofKind? (c.peek s).kind = some op)
    (hx : PlainOperand s (c.advance s) x d) (hl : PlainLinks s d links t e) :
    PlainLinks s c ((op, x) :: links) t e

/-- A plain row with its terminator stands between two cursors. -/
def Row.StandsAt (s : Scope) (r : Row Atom) (c : Cursor) (t : Terminator) (e : Cursor) : Prop :=
  ∃ d, PlainOperand s c r.first d ∧ PlainLinks s d r.links t e

/-- An atom as an operand, without signs and accessors. -/
def Atom.toOperand (x : Atom) : Operand := .bare (.atom x .none)

/-- An atom as an operand has no signs in front and no accessors behind it. -/
@[simp] theorem Atom.toExpr_toOperand (mode : Reduction) (x : Atom) :
    x.toOperand.toExpr mode = x.toExpr mode := by
  simp only [toOperand, Operand.toExpr, Primary.toExpr, Accessors.apply]

/-- So its issues are those of the atom. -/
@[simp] theorem Atom.issues_toOperand (x : Atom) : x.toOperand.issues = x.issues := by
  simp only [toOperand, Operand.issues, Primary.issues, Accessors.issues, List.append_nil]

/-! ### Reading a plain row -/

section
variable {s : Scope} {c d e : Cursor} {t : Terminator}

/-- A plain operand is read as an atom, and no sign stands in front of it. -/
theorem PlainOperand.between {x : Atom} (h : PlainOperand s c x d) :
    x.Between s c d ∧ UnaryOp.ofKind? (c.peek s).kind = none := by
  cases h with
  | number h => exact ⟨⟨by rw [← h], rfl⟩, by rw [h]; rfl⟩
  | string h => exact ⟨⟨by rw [← h], rfl⟩, by rw [h]; rfl⟩
  | name h => exact ⟨⟨by rw [← h], rfl⟩, by rw [h]; rfl⟩
  | group h => exact ⟨⟨rfl, h, Chain.between_read s (c.advance s)⟩, by rw [h]; rfl⟩

/-- In front of a token that starts no accessor it is a whole operand. -/
theorem PlainOperand.toOperand_between {x : Atom} (h : PlainOperand s c x d)
    (hd : (d.peek s).kind.accessor? = none) : x.toOperand.Between s c d :=
  ⟨h.between.2, d, h.between.1, hd, rfl⟩

/-- Neither an operator nor a terminator starts an accessor. -/
theorem PlainLinks.accessor? {links : List (BinaryOp × Atom)} (h : PlainLinks s c links t e) :
    (c.peek s).kind.accessor? = none := by
  cases h with
  | done h => exact TokenKind.accessor?_eq_none_of_terminator h
  | @link c d e op x links t h hx hl =>
    rw [BinaryOp.ofKind?_eq_some_iff.mp h, TokenKind.accessor?_symbol_binaryOp]

/-- The links of a plain row, with the tokens of their operators. -/
theorem PlainLinks.exists_links {links : List (BinaryOp × Atom)} (h : PlainLinks s c links t e) :
    ∃ l : Links, l.Between s c e ∧ l.terminator = t ∧
      l.issues = links.flatMap (fun l => l.2.issues) ∧
      l.toLinks = links.map fun l => (l.1, l.2.toOperand) := by
  induction h with
  | @done c kind h =>
    exact ⟨.done ⟨kind, c.peek s⟩, ⟨rfl, h, rfl⟩, rfl, rfl, rfl⟩
  | @link c d e op x links t h hx hl ih =>
    obtain ⟨l, hb, ht, hi, hr⟩ := ih
    -- What follows an operand is an operator or the terminator, so it ends there.
    have ho := hx.toOperand_between hl.accessor?
    refine ⟨.link op (c.peek s) x.toOperand l, ⟨rfl, h, d, ho, hb⟩, ?_, ?_, ?_⟩
    · rw [Links.terminator, ht]
    · rw [Links.issues, hi, Atom.issues_toOperand, List.flatMap_cons]
    · rw [Links.toLinks, hr, List.map_cons]

end

/-- A plain row is read up to its terminator, with nothing skipped and
nothing reported on the way, except inside of its groups. -/
theorem Row.StandsAt.read {s : Scope} {r : Row Atom} {c : Cursor} {t : Terminator} {e : Cursor}
    (h : r.StandsAt s c t e) :
    (Chain.read s c).2 = e ∧ (Chain.read s c).1.terminator = t ∧
      (Chain.read s c).1.issues = r.operands.flatMap Atom.issues ∧
      (Chain.read s c).1.row = r.map Atom.toOperand := by
  obtain ⟨d, hx, hl⟩ := h
  obtain ⟨l, hb, ht, hi, hr⟩ := hl.exists_links
  -- What stands between two cursors is what is read there.
  have hread : Chain.read s c = (.mk r.first.toOperand l, e) :=
    Chain.read_eq ⟨d, hx.toOperand_between hl.accessor?, hb⟩
  rw [hread]
  refine ⟨rfl, ?_, ?_, ?_⟩
  · rw [Chain.terminator, ht]
  · rw [Chain.issues, hi, Atom.issues_toOperand, Row.operands, List.flatMap_cons,
      List.flatMap_map]
  · rw [Chain.row, hr]
    rfl

/-- What is read of a plain row is the expression of its tree, with the expressions of the
operands in their places. -/
theorem Row.StandsAt.toExpr_read {s : Scope} {r : Row Atom} {c : Cursor} {t : Terminator}
    {e : Cursor} (h : r.StandsAt s c t e) (mode : Reduction) :
    (Chain.read s c).1.toExpr mode = ((r.map (Atom.toExpr mode)).group mode).toExpr := by
  -- The row that is read is the plain one, and its operands are bare atoms.
  have hrow : (Chain.read s c).1.row.map (Operand.toExpr mode) = r.map (Atom.toExpr mode) := by
    rw [h.read.2.2.2]
    simp [Row.map, Function.comp_def]
  rw [Chain.toExpr_eq_group, hrow]

/-- **The mode `cascading` builds the canonical tree.** A plain row is read
to its terminator `t`, without issues of its own, and its tree is the only
canonical one over the row. -/
theorem toExpr_read_cascading {s : Scope} {r : Row Atom} {c : Cursor} {t : Terminator}
    {e : Cursor} (h : r.StandsAt s c t e) :
    let chain := (Chain.read s c).1
    let row := r.map (Atom.toExpr .cascading)
    (Chain.read s c).2 = e ∧ chain.terminator = t ∧
      chain.issues = r.operands.flatMap Atom.issues ∧
      ∃ g : Grouping Expr, chain.toExpr .cascading = g.toExpr ∧
        (g.Over row ∧ g.Canonical) ∧ ∀ g' : Grouping Expr, g'.Over row ∧ g'.Canonical → g' = g := by
  intro chain row
  obtain ⟨he, ht, hi, -⟩ := h.read
  refine ⟨he, ht, hi, row.group .cascading, h.toExpr_read .cascading,
    Row.eq_group_cascading_iff.mp rfl, ?_⟩
  intro g' hg'
  exact Row.eq_group_cascading_iff.mpr hg'

/-- A row of three operators on three levels, with a group in it, that ends
at a comma. -/
theorem toExpr_read_cascading_group :
    let c := Cursor.ofTokens (lex "a - (b) * c < d, e").tokens
    ∃ (r : Row Atom) (t : Terminator) (e : Cursor),
      r.StandsAt .stream c t e ∧ r.operators = [.minus, .times, .lessThan] ∧ t.kind = .comma ∧
      (Chain.read .stream c).2 = e ∧ (Chain.read .stream c).1.terminator = t ∧
      ∃ g : Grouping Expr, (Chain.read .stream c).1.toExpr .cascading = g.toExpr ∧
        g.operators = [.minus, .times, .lessThan] ∧ g.Canonical := by
  intro c
  have ha : PlainOperand .stream c (.name "a" (c.peek .stream).span) (c.advance .stream) :=
    .name (by decide +kernel)
  -- The row is found link by link, and its terminator is the comma.
  have hl : ∃ links t e, PlainLinks .stream (c.advance .stream) links t e ∧
      links.map Prod.fst = [.minus, .times, .lessThan] ∧ t.kind = .comma :=
    ⟨_, _, _, .link (by decide +kernel) (.group (by decide +kernel))
      (.link (by decide +kernel) (@PlainOperand.name _ _ "c" (by decide +kernel))
        (.link (by decide +kernel) (@PlainOperand.name _ _ "d" (by decide +kernel))
          (.done (by decide +kernel)))),
      rfl, rfl⟩
  obtain ⟨links, t, e, hl, hops, ht⟩ := hl
  have h : Row.StandsAt .stream ⟨.name "a" (c.peek .stream).span, links⟩ c t e := ⟨_, ha, hl⟩
  obtain ⟨he, hterm, -, g, hg, ⟨hover, hcanon⟩, -⟩ := toExpr_read_cascading h
  refine ⟨_, t, e, h, hops, ht, he, hterm, g, hg, ?_, hcanon⟩
  rw [hover.operators, Row.operators_map]
  exact hops

end ExprFrontEnd
