import ExprFrontEnd.Proofs.OnePass
import ExprFrontEnd.Proofs.Row
import ExprFrontEnd.Proofs.Tokens
import Mathlib.Data.List.Forall2

/-!
# `ExprFrontEnd.Proofs.Nests`: what the mode of reduction leaves alone

The mode decides how operands are joined, and nothing else. To say so, trees
are made flat (`Expr.flatten`): a nest of binary operators becomes one node with
the operands and the operators of the whole nest in the order of the source.
This is done in every part of a tree, and all spans are kept but those of the
nodes inside of a nest.

Made flat, joining is associative (`Flat.join_assoc`), spans included. So a
tree that is joined of some operands depends on the row of them alone, and not
on the way they are joined (`Grouping.flatten_toExpr`). The rest goes along
with the recursion on chains.

* `Chain.flatten_toExpr`: a chain gives the same flat tree in both modes.
* `parse_regroups`: both modes read the same, report the same and stop at the
  same place, and what they give differs only in the grouping of its nests
  (`Expr.Regroups`, `Stmt.Regroups`).
-/

set_option autoImplicit false

namespace ExprFrontEnd

/-! ### Flat trees -/

/-- An expression with flat nests. -/
inductive Flat where
  | number (value : Binary64) (span : Span)
  | string (value : String) (span : Span)
  | identifier (name : Identifier)
  | unary (op : UnaryOp) (arg : Flat) (span : Span)
  /-- The operands of a nest, none of which is a nest, and the operators between them. -/
  | nest (operands : List Flat) (operators : List BinaryOp) (span : Span)
  | call (callee : Flat) (args : List Flat) (optional : Bool) (span : Span)
  | index (object place : Flat) (optional : Bool) (span : Span)
  | member (object : Flat) (prop : Identifier) (optional : Bool) (span : Span)
  | array (elems : List Flat) (span : Span)
  | ignore (token : Token) (span : Span)

namespace Flat

/-- The part of the source that a flat expression covers. -/
def span : Flat → Span
  | number _ span => span
  | string _ span => span
  | identifier name => name.span
  | unary _ _ span => span
  | nest _ _ span => span
  | call _ _ _ span => span
  | index _ _ _ span => span
  | member _ _ _ span => span
  | array _ span => span
  | ignore _ span => span

/-- The operands of a nest. Any other expression is its own only operand. -/
def operands : Flat → List Flat
  | nest operands _ _ => operands
  | f => [f]

/-- The operators of a nest. -/
def operators : Flat → List BinaryOp
  | nest _ operators _ => operators
  | _ => []

/-- Two flat expressions joined by an operator. -/
def join (a : Flat) (op : BinaryOp) (b : Flat) : Flat :=
  nest (a.operands ++ b.operands) (a.operators ++ op :: b.operators) (a.span.merge b.span)

/-- In a flat nest it cannot be seen which operator was folded first. -/
theorem join_assoc (a : Flat) (o : BinaryOp) (b : Flat) (p : BinaryOp) (c : Flat) :
    (a.join o b).join p c = a.join o (b.join p c) := by
  simp only [join, operands, operators, span, List.append_assoc, List.cons_append,
    Span.merge_assoc]

/-- A row of flat expressions, joined. -/
def joinAll (first : Flat) (links : List (BinaryOp × Flat)) : Flat :=
  links.foldl (fun f l => f.join l.1 l.2) first

/-- One more operand in front. -/
theorem joinAll_join (a : Flat) (op : BinaryOp) (b : Flat) (links : List (BinaryOp × Flat)) :
    joinAll (a.join op b) links = a.join op (joinAll b links) := by
  induction links generalizing b with
  | nil => rfl
  | cons l links ih =>
    show joinAll ((a.join op b).join l.1 l.2) links = a.join op (joinAll (b.join l.1 l.2) links)
    rw [join_assoc, ih]

end Flat

mutual

/-- An expression with its nests made flat. -/
def Expr.flatten : Expr → Flat
  | .number value span => .number value span
  | .string value span => .string value span
  | .identifier name => .identifier name
  | .unary op arg span => .unary op arg.flatten span
  | .binary left op right span =>
    .nest (left.flatten.operands ++ right.flatten.operands)
      (left.flatten.operators ++ op :: right.flatten.operators) span
  | .call callee args optional span => .call callee.flatten (flattenAll args) optional span
  | .index object place optional span => .index object.flatten place.flatten optional span
  | .member object prop optional span => .member object.flatten prop optional span
  | .array elems span => .array (flattenAll elems) span
  | .ignore token span => .ignore token span

/-- The expressions of a list with their nests made flat. -/
def Expr.flattenAll : List Expr → List Flat
  | [] => []
  | e :: es => e.flatten :: flattenAll es

end

/-- Making flat keeps the span of the root. -/
theorem Expr.span_flatten (e : Expr) : e.flatten.span = e.span := by
  cases e <;> simp only [flatten, Flat.span, span]

/-- A node that reaches over its operands is one link more in the flat nest. -/
theorem Expr.flatten_binary (left : Expr) (op : BinaryOp) (right : Expr) :
    (Expr.binary left op right (left.span.merge right.span)).flatten
      = left.flatten.join op right.flatten := by
  rw [flatten, Flat.join, span_flatten, span_flatten]

/-! ### Rows -/

/-- The row that a tree is over. -/
def Grouping.row {α : Type} : Grouping α → Row α
  | operand x => ⟨x, []⟩
  | joined left op right =>
    ⟨left.row.first, left.row.links ++ (op, right.row.first) :: right.row.links⟩

/-- Every tree is over the row of its own operands and operators. -/
theorem Grouping.over_row {α : Type} (g : Grouping α) : g.Over g.row := by
  induction g with
  | operand x => exact ⟨rfl, rfl⟩
  | joined left op right ihl ihr =>
    constructor
    · rw [operands, ihl.operands, ihr.operands]
      simp only [Row.operands, row, List.map_append, List.map_cons, List.cons_append]
    · rw [operators, ihl.operators, ihr.operators]
      simp only [Row.operators, row, List.map_append, List.map_cons]

/-- A tree is over one row only. -/
theorem Grouping.Over.row_eq {α : Type} {g : Grouping α} {r : Row α} (h : g.Over r) :
    g.row = r := by
  have hoperands : g.row.operands = r.operands := g.over_row.operands.symm.trans h.operands
  have hoperators : g.row.operators = r.operators := g.over_row.operators.symm.trans h.operators
  obtain ⟨first, links⟩ := r
  generalize g.row = r' at hoperands hoperators
  obtain ⟨first', links'⟩ := r'
  obtain ⟨rfl, hsnd⟩ := List.cons.inj hoperands
  -- Both lists of links consist of the same operators and the same operands.
  have hlinks : links' = links :=
    (List.zip_of_prod hoperators hsnd).trans (List.zip_of_prod rfl rfl).symm
  rw [hlinks]

/-- Made flat, a tree depends on its row alone. -/
theorem Grouping.flatten_toExpr (g : Grouping Expr) :
    g.toExpr.flatten
      = Flat.joinAll g.row.first.flatten (g.row.links.map fun l => (l.1, l.2.flatten)) := by
  induction g with
  | operand e => rfl
  | joined left op right ihl ihr =>
    rw [toExpr, Expr.flatten_binary, ihl, ihr, row, List.map_append, List.map_cons,
      ← Flat.joinAll_join]
    simp only [Flat.joinAll, List.foldl_append, List.foldl_cons]

/-- However a row is grouped, it is one flat nest: that of all its operands. -/
theorem Row.flatten_group (mode : Reduction) (r : Row Expr) :
    (r.group mode).toExpr.flatten
      = Flat.joinAll r.first.flatten (r.links.map fun l => (l.1, l.2.flatten)) := by
  rw [Grouping.flatten_toExpr, (Row.over_group mode r).row_eq]

/-! ### Chains -/

mutual

/-- A chain gives the same flat tree in both modes. -/
theorem Chain.flatten_toExpr (mode mode' : Reduction) :
    (r : Chain) → (r.toExpr mode).flatten = (r.toExpr mode').flatten
  | .mk first links => by
    have hgroup := Row.flatten_group mode ⟨first.toExpr mode, links.toPairs mode⟩
    have hgroup' := Row.flatten_group mode' ⟨first.toExpr mode', links.toPairs mode'⟩
    rw [Chain.toExpr, Chain.toExpr]
    -- The operands may be regrouped as well, so both rows are made flat.
    refine hgroup.trans (Eq.trans ?_ hgroup'.symm)
    rw [Operand.flatten_toExpr mode mode' first, Links.flatten_toPairs mode mode' links]

/-- The links of a chain have the same nests, one by one. -/
theorem Links.flatten_toPairs (mode mode' : Reduction) : (r : Links) →
    (r.toPairs mode).map (fun l => (l.1, l.2.flatten))
      = (r.toPairs mode').map fun l => (l.1, l.2.flatten)
  | .done _ => by rw [Links.toPairs, Links.toPairs]
  | .stray _ rest => by
    rw [Links.toPairs, Links.toPairs]
    exact Links.flatten_toPairs mode mode' rest
  | .link op _ operand rest => by
    rw [Links.toPairs, Links.toPairs, List.map_cons, List.map_cons,
      Operand.flatten_toExpr mode mode' operand, Links.flatten_toPairs mode mode' rest]

/-- The mode does not act on a sign, only on what stands behind it. -/
theorem Operand.flatten_toExpr (mode mode' : Reduction) :
    (r : Operand) → (r.toExpr mode).flatten = (r.toExpr mode').flatten
  | .signed op token operand => by
    have harg := Operand.flatten_toExpr mode mode' operand
    -- The span of the sign is that of its operand, which is kept.
    rw [Operand.toExpr, Operand.toExpr, Expr.flatten, Expr.flatten, ← Expr.span_flatten, harg,
      Expr.span_flatten]
  | .bare primary => by
    rw [Operand.toExpr, Operand.toExpr]
    exact Primary.flatten_toExpr mode mode' primary

/-- Skipped tokens leave nothing in the tree. -/
theorem Primary.flatten_toExpr (mode mode' : Reduction) :
    (r : Primary) → (r.toExpr mode).flatten = (r.toExpr mode').flatten
  | .stray _ rest => by
    rw [Primary.toExpr, Primary.toExpr]
    exact Primary.flatten_toExpr mode mode' rest
  | .atom atom accessors => by
    rw [Primary.toExpr, Primary.toExpr]
    exact Accessors.flatten_apply mode mode' accessors (Atom.flatten_toExpr mode mode' atom)

/-- A group is the chain inside of it. -/
theorem Atom.flatten_toExpr (mode mode' : Reduction) :
    (r : Atom) → (r.toExpr mode).flatten = (r.toExpr mode').flatten
  | .number _ _ | .string _ _ | .name _ _ | .missing _ => by rw [Atom.toExpr, Atom.toExpr]
  | .group _ inner => by
    rw [Atom.toExpr, Atom.toExpr]
    exact Chain.flatten_toExpr mode mode' inner
  | .array _ elems => by
    rw [Atom.toExpr, Atom.toExpr, Expr.flatten, Expr.flatten,
      Items.flatten_toExprs mode mode' elems]

/-- Accessors on two expressions that are the same when made flat. -/
theorem Accessors.flatten_apply (mode mode' : Reduction) : (r : Accessors) → {e e' : Expr} →
    e.flatten = e'.flatten → (r.apply mode e).flatten = (r.apply mode' e').flatten
  | .none, _, _, h => by
    rw [Accessors.apply, Accessors.apply]
    exact h
  | .call _ _ args rest, e, e', h => by
    -- The node starts where the expression in front does, and flattening keeps that span.
    have hspan : e.span = e'.span := by rw [← e.span_flatten, h, e'.span_flatten]
    rw [Accessors.apply, Accessors.apply]
    refine Accessors.flatten_apply mode mode' rest ?_
    rw [Expr.flatten, Expr.flatten, h, hspan, Items.flatten_toExprs mode mode' args]
  | .index _ _ inner rest, e, e', h => by
    have hspan : e.span = e'.span := by rw [← e.span_flatten, h, e'.span_flatten]
    rw [Accessors.apply, Accessors.apply]
    refine Accessors.flatten_apply mode mode' rest ?_
    rw [Expr.flatten, Expr.flatten, h, hspan, Chain.flatten_toExpr mode mode' inner]
  | .member _ _ _ rest, e, e', h => by
    have hspan : e.span = e'.span := by rw [← e.span_flatten, h, e'.span_flatten]
    rw [Accessors.apply, Accessors.apply]
    refine Accessors.flatten_apply mode mode' rest ?_
    rw [Expr.flatten, Expr.flatten, h, hspan]

/-- Lists of items have the same nests, one by one. -/
theorem Items.flatten_toExprs (mode mode' : Reduction) : (r : Items) →
    Expr.flattenAll (r.toExprs mode) = Expr.flattenAll (r.toExprs mode')
  | .last item => by
    simp only [Items.toExprs, Expr.flattenAll, Chain.flatten_toExpr mode mode' item]
  | .more item rest => by
    simp only [Items.toExprs, Expr.flattenAll, Chain.flatten_toExpr mode mode' item,
      Items.flatten_toExprs mode mode' rest]

end

/-! ### Trees that differ in grouping -/

/-- Two expressions have the same span and the same operands and operators in
each nest. -/
structure Expr.Regroups (e e' : Expr) : Prop where
  span : e.span = e'.span
  flatten : e.flatten = e'.flatten

/-- Two declarations of the same names differ at most in the grouping of their
initializers. -/
inductive DeclKind.Regroups : DeclKind → DeclKind → Prop where
  | binding (b : Binding) (name : Identifier) {init init' : Option Expr}
      (h : Option.Rel Expr.Regroups init init') :
      Regroups (.binding b name init) (.binding b name init')
  | function (name : Identifier) (params : List Identifier) :
      Regroups (.function name params) (.function name params)

/-- Two declarations differ at most in the grouping of their expressions. -/
structure Decl.Regroups (d d' : Decl) : Prop where
  kind : d.kind.Regroups d'.kind
  exported : d.exported = d'.exported
  declared : d.declared = d'.declared
  span : d.span = d'.span

/-- Two statements differ at most in the grouping of their expressions. -/
inductive Stmt.Regroups : Stmt → Stmt → Prop where
  | decl {d d' : Decl} (h : d.Regroups d') (span : Span) : Regroups (.decl d span) (.decl d' span)
  | ret {arg arg' : Option Expr} (h : Option.Rel Expr.Regroups arg arg') (span : Span) :
      Regroups (.ret arg span) (.ret arg' span)

/-- Two runs report the same and stop at the same place, with related values. -/
structure Outcome.Agrees {α : Type} (R : α → α → Prop) (o o' : Outcome α) : Prop where
  value : R o.value o'.value
  issues : o.issues = o'.issues
  cursor : o.cursor = o'.cursor

/-- An expression is regrouped if its nests are equal, since a flat nest keeps the span. -/
theorem Chain.regroups_toExpr (mode mode' : Reduction) (r : Chain) :
    (r.toExpr mode).Regroups (r.toExpr mode') := by
  have h := flatten_toExpr mode mode' r
  exact ⟨by rw [← Expr.span_flatten, h, Expr.span_flatten], h⟩

/-- An expression that may be absent is absent in both modes or in neither. -/
theorem Chain.regroups_map (mode mode' : Reduction) (r : Option Chain) :
    Option.Rel Expr.Regroups (r.map (toExpr mode)) (r.map (toExpr mode')) := by
  cases r with
  | none => exact .none
  | some r => exact .some (regroups_toExpr mode mode' r)

/-- The parts of a declaration do not depend on the mode, but for its initializer. -/
theorem DeclClause.regroups_toDecl (mode mode' : Reduction) (r : DeclClause) :
    (r.toDecl mode).Regroups (r.toDecl mode') := by
  cases r with
  | binding head b name init =>
    refine ⟨.binding b name (Chain.regroups_map mode mode' init), rfl, rfl, ?_⟩
    -- A declaration ends with its initializer.
    cases init with
    | none => rfl
    | some init =>
      exact congrArg head.start.merge (Chain.regroups_toExpr mode mode' init).span
  | function head name params close => exact ⟨.function name params, rfl, rfl, rfl⟩

/-- A statement is regrouped if its expression is. -/
theorem Clause.regroups_toStmt (mode mode' : Reduction) (r : Clause) :
    (r.toStmt mode).Regroups (r.toStmt mode') := by
  cases r with
  | decl d =>
    have h := d.regroups_toDecl mode mode'
    rw [toStmt, toStmt, h.span]
    exact .decl h _
  | ret keyword arg =>
    have h := Chain.regroups_map mode mode' arg
    cases arg with
    | none => exact .ret h _
    | some arg =>
      have hspan := (Chain.regroups_toExpr mode mode' arg).span
      simp only [toStmt, Option.map_some, Option.elim, hspan]
      exact .ret h _

/-- What an attempt came to does not depend on the mode. -/
theorem Attempt.regroups_toStmt? (mode mode' : Reduction) (r : Attempt) :
    Option.Rel Stmt.Regroups (r.toStmt? mode) (r.toStmt? mode') := by
  cases r with
  | read clause => exact .some (clause.regroups_toStmt mode mode')
  | failed issue skipped => exact .none

/-! ### Both modes -/

/-- **The mode of reduction changes grouping and nothing else.** From every
place in every stream of tokens, the runs in two modes of each reader stop at
the same place and report the same, and what they give differs only in the
grouping of its nests. Expressions end with the same terminator, and the same
attempts at statements succeed. -/
theorem parse_regroups (tokens : List Token) (n : Nat) (mode mode' : Reduction) :
    let c := (Cursor.ofTokens tokens).skip n
    (∀ s, (Chain.parse mode s c).Agrees (fun x x' => x.1.Regroups x'.1 ∧ x.2 = x'.2)
        (Chain.parse mode' s c)) ∧
      (DeclClause.parse mode c).Agrees (Option.Rel Decl.Regroups) (DeclClause.parse mode' c) ∧
      (Clause.parse mode c).Agrees (Option.Rel Stmt.Regroups) (Clause.parse mode' c) ∧
      (Attempt.parseAll mode c).Agrees (List.Forall₂ (Option.Rel Stmt.Regroups))
        (Attempt.parseAll mode' c) := by
  intro c
  refine ⟨fun s => ?_, ?_, ?_, ?_⟩
  · -- Both runs come to the same as reading once and grouping in two ways.
    rw [Chain.parse_eq, Chain.parse_eq]
    exact ⟨⟨Chain.regroups_toExpr mode mode' _, rfl⟩, rfl, rfl⟩
  · rw [DeclClause.parse_eq, DeclClause.parse_eq]
    rcases DeclClause.read c with ⟨issue | r, d⟩
    · exact ⟨.none, rfl, rfl⟩
    · exact ⟨.some (DeclClause.regroups_toDecl mode mode' r), rfl, rfl⟩
  · rw [Clause.parse_eq, Clause.parse_eq]
    rcases Clause.read c with ⟨issue | r, d⟩
    · exact ⟨.none, rfl, rfl⟩
    · exact ⟨.some (Clause.regroups_toStmt mode mode' r), rfl, rfl⟩
  · rw [Attempt.parseAll_eq, Attempt.parseAll_eq]
    refine ⟨?_, rfl, rfl⟩
    show List.Forall₂ _ ((Attempt.readAll c).1.map _) ((Attempt.readAll c).1.map _)
    rw [List.forall₂_map_left_iff, List.forall₂_map_right_iff, List.forall₂_same]
    exact fun r _ => Attempt.regroups_toStmt? mode mode' r

end ExprFrontEnd
