import ExprFrontEnd.Proofs.Between
import ExprFrontEnd.Proofs.Printing
import ExprFrontEnd.Proofs.Readers
import ExprFrontEnd.Proofs.Row

/-!
# `ExprFrontEnd.Proofs.Relocation`: readers do not look at places

Tokens have places, and everything that is read keeps them, but no reader
decides by them. So if the tokens of a stream are given other places, then what
is read has these places and is the same otherwise. A relocation gives places
for places. There is one thing it has to keep: an end that a reader of a
statement sees in front of a reserved word has the start of that word.

* `Chain.Between.relocate`: a chain that stands between two cursors stands
  between them after relocation. This is the induction; it has one case for
  each form of a chain.
* `Chain.read_relocate`, `Attempt.readAll_relocate`: the readers of expressions
  and of programs commute with relocation.
* `Chain.issues_relocate`: so do the issues.
* `Chain.eraseSpans_relocate`: the trees are the same up to places.
-/

set_option autoImplicit false

namespace ExprFrontEnd

/-- Places for places. The empty place at a start is moved with the start. -/
structure Relocation where
  move : Span → Span
  empty_start (span : Span) : move (.empty span.start) = .empty (move span).start

/-! ### What is relocated -/

/-- The same token at its new place. -/
def Token.relocate (f : Relocation) (t : Token) : Token := ⟨t.kind, f.move t.span⟩

/-- The same terminator at its new place. -/
def Terminator.relocate (f : Relocation) (t : Terminator) : Terminator :=
  ⟨t.kind, t.token.relocate f⟩

/-- The same name at its new place. -/
def Identifier.relocate (f : Relocation) (i : Identifier) : Identifier := ⟨i.name, f.move i.span⟩

/-- The same issue at its new place. -/
def Issue.relocate (f : Relocation) (i : Issue) : Issue := ⟨i.problem, f.move i.span⟩

/-- The same stream with its tokens at their new places. -/
def Cursor.relocate (f : Relocation) (c : Cursor) : Cursor :=
  ⟨c.ahead.map (Token.relocate f), f.move c.finish, c.position⟩

mutual

/-- The same chain with its tokens at their new places. -/
def Chain.relocate (f : Relocation) : Chain → Chain
  | .mk first links => .mk (first.relocate f) (links.relocate f)

/-- The same operators and operands at their new places. -/
def Links.relocate (f : Relocation) : Links → Links
  | .done terminator => .done (terminator.relocate f)
  | .stray token rest => .stray (token.relocate f) (rest.relocate f)
  | .link op token operand rest =>
    .link op (token.relocate f) (operand.relocate f) (rest.relocate f)

/-- The same operand at its new place. -/
def Operand.relocate (f : Relocation) : Operand → Operand
  | .signed op token operand => .signed op (token.relocate f) (operand.relocate f)
  | .bare primary => .bare (primary.relocate f)

/-- The same operand without signs at its new place. -/
def Primary.relocate (f : Relocation) : Primary → Primary
  | .stray token rest => .stray (token.relocate f) (rest.relocate f)
  | .atom atom accessors => .atom (atom.relocate f) (accessors.relocate f)

/-- The same atom at its new place. -/
def Atom.relocate (f : Relocation) : Atom → Atom
  | .number value span => .number value (f.move span)
  | .string value span => .string value (f.move span)
  | .name name span => .name name (f.move span)
  | .group opening inner => .group (opening.relocate f) (inner.relocate f)
  | .array opening elems => .array (opening.relocate f) (elems.relocate f)
  | .missing found => .missing (found.relocate f)

/-- The same accessors at their new places. -/
def Accessors.relocate (f : Relocation) : Accessors → Accessors
  | .none => .none
  | .call optional opening args rest =>
    .call optional (opening.relocate f) (args.relocate f) (rest.relocate f)
  | .index optional opening inner rest =>
    .index optional (opening.relocate f) (inner.relocate f) (rest.relocate f)
  | .member optional dot found rest =>
    .member optional (dot.relocate f) (found.relocate f) (rest.relocate f)

/-- The same list at its new place. -/
def Items.relocate (f : Relocation) : Items → Items
  | .last item => .last (item.relocate f)
  | .more item rest => .more (item.relocate f) (rest.relocate f)

end

/-! ### Reading a chain -/

section
variable (f : Relocation) (s : Scope)

/-- The next token is moved along; the end that a scope makes up is moved as well. -/
@[simp] theorem Cursor.peek_relocate (c : Cursor) :
    (c.relocate f).peek s = (c.peek s).relocate f := by
  obtain ⟨ahead, finish, position⟩ := c
  cases ahead with
  | nil => rfl
  | cons t rest =>
    simp only [peek, relocate, List.map_cons]
    show (if s.bars t.kind then _ else _) = _
    split
    · exact congrArg Token.eofAt (f.empty_start t.span).symm
    · rfl

/-- Moving tokens does not change whether one is passed. -/
@[simp] theorem Cursor.advance_relocate (c : Cursor) :
    (c.relocate f).advance s = (c.advance s).relocate f := by
  obtain ⟨ahead, finish, position⟩ := c
  cases ahead with
  | nil => rfl
  | cons t rest =>
    simp only [advance, relocate, List.map_cons]
    show (if s.bars t.kind then _ else _) = _
    split <;> rfl

/-- What a token is does not depend on where it stands. -/
@[simp] theorem Token.kind_relocate (t : Token) : (t.relocate f).kind = t.kind := rfl

mutual

/-- A chain ends with what its links end with. -/
theorem Chain.terminator_relocate : (r : Chain) →
    (r.relocate f).terminator = r.terminator.relocate f
  | .mk _ links => Links.terminator_relocate links

/-- Links end with the last of them. -/
theorem Links.terminator_relocate : (r : Links) →
    (r.relocate f).terminator = r.terminator.relocate f
  | .done _ => rfl
  | .stray _ rest => Links.terminator_relocate rest
  | .link _ _ _ rest => Links.terminator_relocate rest

end

end

section
variable {f : Relocation} {s : Scope}

/-- A chain that ends in a comma does so at its new place. -/
theorem Chain.kind_terminator_relocate (r : Chain) :
    (r.relocate f).terminator.kind = r.terminator.kind := by
  rw [Chain.terminator_relocate]
  rfl

mutual

/-- What stands between two cursors stands there after relocation. -/
theorem Chain.Between.relocate : {r : Chain} → {c e : Cursor} → r.Between s c e →
    (r.relocate f).Between s (c.relocate f) (e.relocate f)
  | .mk _ _, _, _, ⟨d, hf, hl⟩ =>
    ⟨d.relocate f, Operand.Between.relocate hf, Links.Between.relocate hl⟩

/-- By the token that is next, which has the same kind after the move. -/
theorem Links.Between.relocate : {r : Links} → {c e : Cursor} → r.Between s c e →
    (r.relocate f).Between s (c.relocate f) (e.relocate f)
  | .done _, c, _, ⟨ht, hk, he⟩ => by
    simp only [Links.relocate, Links.Between, Cursor.peek_relocate, Cursor.advance_relocate]
    exact ⟨congrArg (Token.relocate f) ht, hk, congrArg (Cursor.relocate f) he⟩
  | .stray _ _, c, _, ⟨ht, hk, hop, hr⟩ => by
    simp only [Links.relocate, Links.Between, Cursor.peek_relocate, Cursor.advance_relocate]
    exact ⟨congrArg (Token.relocate f) ht, hk, hop, Links.Between.relocate hr⟩
  | .link _ _ _ _, c, _, ⟨ht, hop, d, ho, hr⟩ => by
    simp only [Links.relocate, Links.Between, Cursor.peek_relocate, Cursor.advance_relocate]
    exact ⟨congrArg (Token.relocate f) ht, hop, d.relocate f, Operand.Between.relocate ho,
      Links.Between.relocate hr⟩

/-- A sign is a sign wherever it stands. -/
theorem Operand.Between.relocate : {r : Operand} → {c e : Cursor} → r.Between s c e →
    (r.relocate f).Between s (c.relocate f) (e.relocate f)
  | .signed _ _ _, c, _, ⟨ht, hop, ho⟩ => by
    simp only [Operand.relocate, Operand.Between, Cursor.peek_relocate, Cursor.advance_relocate]
    exact ⟨congrArg (Token.relocate f) ht, hop, Operand.Between.relocate ho⟩
  | .bare _, c, _, ⟨hop, hp⟩ => by
    simp only [Operand.relocate, Operand.Between, Cursor.peek_relocate]
    exact ⟨hop, Primary.Between.relocate hp⟩

/-- A stray operator is told by its kind, as is what comes behind it. -/
theorem Primary.Between.relocate : {r : Primary} → {c e : Cursor} → r.Between s c e →
    (r.relocate f).Between s (c.relocate f) (e.relocate f)
  | .stray _ _, c, _, ⟨ht, ho, hc, hr⟩ => by
    simp only [Primary.relocate, Primary.Between, Cursor.peek_relocate, Cursor.advance_relocate]
    exact ⟨congrArg (Token.relocate f) ht, ho, hc, Primary.Between.relocate hr⟩
  | .atom _ _, _, _, ⟨d, ha, hs⟩ =>
    ⟨d.relocate f, Atom.Between.relocate ha, Accessors.Between.relocate hs⟩

/-- Each atom is told by the kind of its first token, and enclosed chains are moved by
recursion. -/
theorem Atom.Between.relocate : {r : Atom} → {c e : Cursor} → r.Between s c e →
    (r.relocate f).Between s (c.relocate f) (e.relocate f)
  | .number _ _, c, _, ⟨ht, he⟩ | .string _ _, c, _, ⟨ht, he⟩ | .name _ _, c, _, ⟨ht, he⟩ => by
    simp only [Atom.relocate, Atom.Between, Cursor.peek_relocate, Cursor.advance_relocate]
    exact ⟨congrArg (Token.relocate f) ht, congrArg (Cursor.relocate f) he⟩
  | .group _ _, c, _, ⟨ht, hk, hi⟩ => by
    simp only [Atom.relocate, Atom.Between, Cursor.peek_relocate, Cursor.advance_relocate]
    exact ⟨congrArg (Token.relocate f) ht, hk, Chain.Between.relocate hi⟩
  | .array _ _, c, _, ⟨ht, hk, hi⟩ => by
    simp only [Atom.relocate, Atom.Between, Cursor.peek_relocate, Cursor.advance_relocate]
    exact ⟨congrArg (Token.relocate f) ht, hk, Items.Between.relocate hi⟩
  | .missing _, c, _, ⟨ht, hk, he⟩ => by
    simp only [Atom.relocate, Atom.Between, Cursor.peek_relocate, Cursor.advance_relocate]
    exact ⟨congrArg (Token.relocate f) ht, hk, congrArg (Cursor.relocate f) he⟩

/-- An accessor is told by its opening token, and its items are moved by recursion. -/
theorem Accessors.Between.relocate : {r : Accessors} → {c e : Cursor} → r.Between s c e →
    (r.relocate f).Between s (c.relocate f) (e.relocate f)
  | .none, c, _, ⟨hk, he⟩ => by
    simp only [Accessors.relocate, Accessors.Between, Cursor.peek_relocate]
    exact ⟨hk, congrArg (Cursor.relocate f) he⟩
  | .call _ _ _ _, c, _, ⟨ht, hk, d, ha, hr⟩ => by
    simp only [Accessors.relocate, Accessors.Between, Cursor.peek_relocate,
      Cursor.advance_relocate]
    exact ⟨congrArg (Token.relocate f) ht, hk, d.relocate f, Items.Between.relocate ha,
      Accessors.Between.relocate hr⟩
  | .index _ _ _ _, c, _, ⟨ht, hk, d, hi, hr⟩ => by
    simp only [Accessors.relocate, Accessors.Between, Cursor.peek_relocate,
      Cursor.advance_relocate]
    exact ⟨congrArg (Token.relocate f) ht, hk, d.relocate f, Chain.Between.relocate hi,
      Accessors.Between.relocate hr⟩
  | .member _ _ _ _, c, _, ⟨ht, hk, hf, hr⟩ => by
    simp only [Accessors.relocate, Accessors.Between, Cursor.peek_relocate,
      Cursor.advance_relocate]
    exact ⟨congrArg (Token.relocate f) ht, hk, congrArg (Token.relocate f) hf,
      Accessors.Between.relocate hr⟩

/-- A list of items goes on at a comma. -/
theorem Items.Between.relocate : {r : Items} → {c e : Cursor} → r.Between s c e →
    (r.relocate f).Between s (c.relocate f) (e.relocate f)
  -- What ended an item still ends it, so the list goes on or stops as before.
  | .last item, _, _, ⟨hi, hk⟩ =>
    ⟨Chain.Between.relocate hi, fun h => hk (item.kind_terminator_relocate.symm.trans h)⟩
  | .more item _, _, _, ⟨d, hi, hk, hr⟩ =>
    ⟨d.relocate f, Chain.Between.relocate hi, item.kind_terminator_relocate.trans hk,
      Items.Between.relocate hr⟩

end

end

/-- Reading an expression commutes with relocation. -/
theorem Chain.read_relocate (f : Relocation) (s : Scope) (c : Cursor) :
    read s (c.relocate f) = ((read s c).1.relocate f, (read s c).2.relocate f) :=
  read_eq (between_read s c).relocate

/-! ### Views of a chain -/

section
variable (f : Relocation)

/-- A missing name is at the token behind the dot, wherever the two were moved. -/
theorem memberIssues_relocate (optional : Bool) (dot found : Token) :
    memberIssues optional (dot.relocate f) (found.relocate f)
      = (memberIssues optional dot found).map (Issue.relocate f) := by
  simp only [memberIssues, Token.kind_relocate]
  split <;> rfl

mutual

/-- The issues of a chain come with it to their new places. -/
theorem Chain.issues_relocate : (r : Chain) →
    (r.relocate f).issues = r.issues.map (Issue.relocate f)
  | .mk first links => by
    simp only [Chain.relocate, Chain.issues, List.map_append, Operand.issues_relocate first,
      Links.issues_relocate links]

/-- Strays are reported at their tokens, and operands by recursion. -/
theorem Links.issues_relocate : (r : Links) →
    (r.relocate f).issues = r.issues.map (Issue.relocate f)
  | .done _ => by simp only [Links.relocate, Links.issues, List.map_nil]
  | .stray _ rest => by
    simp only [Links.relocate, Links.issues, List.map_cons, Links.issues_relocate rest]
    rfl
  | .link _ _ operand rest => by
    simp only [Links.relocate, Links.issues, List.map_append, Operand.issues_relocate operand,
      Links.issues_relocate rest]

/-- A sign has no issues of its own. -/
theorem Operand.issues_relocate : (r : Operand) →
    (r.relocate f).issues = r.issues.map (Issue.relocate f)
  | .signed _ _ operand => by
    simp only [Operand.relocate, Operand.issues, Operand.issues_relocate operand]
  | .bare primary => by
    simp only [Operand.relocate, Operand.issues, Primary.issues_relocate primary]

/-- A stray operator is reported at its token. -/
theorem Primary.issues_relocate : (r : Primary) →
    (r.relocate f).issues = r.issues.map (Issue.relocate f)
  | .stray _ rest => by
    simp only [Primary.relocate, Primary.issues, List.map_cons, Primary.issues_relocate rest]
    rfl
  | .atom atom accessors => by
    simp only [Primary.relocate, Primary.issues, List.map_append, Atom.issues_relocate atom,
      Accessors.issues_relocate accessors]

/-- A missing operand is reported at the token in its place. -/
theorem Atom.issues_relocate : (r : Atom) →
    (r.relocate f).issues = r.issues.map (Issue.relocate f)
  | .number _ _ | .string _ _ | .name _ _ => by
    simp only [Atom.relocate, Atom.issues, List.map_nil]
  | .group _ inner => by
    simp only [Atom.relocate, Atom.issues, Chain.issues_relocate inner]
  | .array _ elems => by
    simp only [Atom.relocate, Atom.issues, Items.issues_relocate elems]
  | .missing _ => by
    simp only [Atom.relocate, Atom.issues, List.map_cons, List.map_nil]
    rfl

/-- A missing name is reported behind its dot. -/
theorem Accessors.issues_relocate : (r : Accessors) →
    (r.relocate f).issues = r.issues.map (Issue.relocate f)
  | .none => by simp only [Accessors.relocate, Accessors.issues, List.map_nil]
  | .call _ _ args rest => by
    simp only [Accessors.relocate, Accessors.issues, List.map_append, Items.issues_relocate args,
      Accessors.issues_relocate rest]
  | .index _ _ inner rest => by
    simp only [Accessors.relocate, Accessors.issues, List.map_append, Chain.issues_relocate inner,
      Accessors.issues_relocate rest]
  | .member _ _ _ rest => by
    simp only [Accessors.relocate, Accessors.issues, List.map_append, memberIssues_relocate,
      Accessors.issues_relocate rest]

/-- The issues of items follow one another, before and after. -/
theorem Items.issues_relocate : (r : Items) →
    (r.relocate f).issues = r.issues.map (Issue.relocate f)
  | .last item => by simp only [Items.relocate, Items.issues, Chain.issues_relocate item]
  | .more item rest => by
    simp only [Items.relocate, Items.issues, List.map_append, Chain.issues_relocate item,
      Items.issues_relocate rest]

end

end

/-- A tree of operators knows its operands up to places. -/
theorem Grouping.eraseSpans_toExpr {g g' : Grouping Expr}
    (h : g.map Expr.eraseSpans = g'.map Expr.eraseSpans) :
    g.toExpr.eraseSpans = g'.toExpr.eraseSpans := by
  induction g generalizing g' with
  | operand e =>
    cases g' with
    | operand e' => exact Grouping.operand.inj h
    | joined left op right => cases h
  | joined left op right hl hr =>
    cases g' with
    | operand e => cases h
    | joined left' op' right' =>
      obtain ⟨hleft, hop, hright⟩ := Grouping.joined.inj h
      simp only [toExpr, Expr.eraseSpans, hl hleft, hop, hr hright]

/-- Operators group in the same way over operands that are the same up to
places. -/
theorem Row.eraseSpans_group (mode : Reduction) {r r' : Row Expr}
    (h : r.map Expr.eraseSpans = r'.map Expr.eraseSpans) :
    (r.group mode).toExpr.eraseSpans = (r'.group mode).toExpr.eraseSpans :=
  Grouping.eraseSpans_toExpr (by rw [← group_map, ← group_map, h])

section
variable (f : Relocation) (mode : Reduction)

/-- The name that is read behind a dot is the text of a token. Only its span depends on places. -/
theorem eraseSpans_memberName_relocate (dot found : Token) :
    (memberName (dot.relocate f) (found.relocate f)).eraseSpans
      = (memberName dot found).eraseSpans := by
  simp only [memberName, Token.kind_relocate]
  split <;> rfl

mutual

/-- The tree of a chain does not depend on places, except for its own. -/
theorem Chain.eraseSpans_relocate : (r : Chain) →
    ((r.relocate f).toExpr mode).eraseSpans = (r.toExpr mode).eraseSpans
  | .mk first links => by
    have hrow : Row.map Expr.eraseSpans
          ⟨(first.relocate f).toExpr mode, (links.relocate f).toPairs mode⟩
        = Row.map Expr.eraseSpans ⟨first.toExpr mode, links.toPairs mode⟩ := by
      simp only [Row.map, Operand.eraseSpans_relocate first, Links.eraseSpans_relocate links]
    exact Row.eraseSpans_group mode hrow

/-- Operands are the same without spans, and operators have none. -/
theorem Links.eraseSpans_relocate : (r : Links) →
    ((r.relocate f).toPairs mode).map (fun l => (l.1, l.2.eraseSpans))
      = (r.toPairs mode).map fun l => (l.1, l.2.eraseSpans)
  | .done _ => by simp only [Links.relocate, Links.toPairs]
  | .stray _ rest => by
    simp only [Links.relocate, Links.toPairs, Links.eraseSpans_relocate rest]
  | .link _ _ operand rest => by
    simp only [Links.relocate, Links.toPairs, List.map_cons, Operand.eraseSpans_relocate operand,
      Links.eraseSpans_relocate rest]

/-- A sign is kept, and its operand is the same without spans. -/
theorem Operand.eraseSpans_relocate : (r : Operand) →
    ((r.relocate f).toExpr mode).eraseSpans = (r.toExpr mode).eraseSpans
  | .signed _ _ operand => by
    simp only [Operand.relocate, Operand.toExpr, Expr.eraseSpans,
      Operand.eraseSpans_relocate operand]
  | .bare primary => by
    simp only [Operand.relocate, Operand.toExpr, Primary.eraseSpans_relocate primary]

/-- The operand behind a stray operator is the same without spans. -/
theorem Primary.eraseSpans_relocate : (r : Primary) →
    ((r.relocate f).toExpr mode).eraseSpans = (r.toExpr mode).eraseSpans
  | .stray _ rest => by
    simp only [Primary.relocate, Primary.toExpr, Primary.eraseSpans_relocate rest]
  | .atom atom accessors => by
    simp only [Primary.relocate, Primary.toExpr]
    exact Accessors.eraseSpans_relocate accessors (Atom.eraseSpans_relocate atom)

/-- A placeholder holds its token with the span, so spans are erased in it too. -/
theorem Atom.eraseSpans_relocate : (r : Atom) →
    ((r.relocate f).toExpr mode).eraseSpans = (r.toExpr mode).eraseSpans
  | .number _ _ | .string _ _ => by simp only [Atom.relocate, Atom.toExpr, Expr.eraseSpans]
  | .name _ _ => by
    simp only [Atom.relocate, Atom.toExpr, Expr.eraseSpans, Identifier.eraseSpans]
  | .missing _ => by
    simp only [Atom.relocate, Atom.toExpr, Expr.eraseSpans, Token.kind_relocate]
  | .group _ inner => by
    simp only [Atom.relocate, Atom.toExpr, Chain.eraseSpans_relocate inner]
  | .array _ elems => by
    simp only [Atom.relocate, Atom.toExpr, Expr.eraseSpans, Items.eraseSpans_relocate elems]

/-- Accessors are put around expressions that agree without spans, and so agree again. -/
theorem Accessors.eraseSpans_relocate : (r : Accessors) → {e e' : Expr} →
    e.eraseSpans = e'.eraseSpans →
      ((r.relocate f).apply mode e).eraseSpans = (r.apply mode e').eraseSpans
  | .none, _, _, h => h
  | .call _ _ args rest, _, _, h => by
    simp only [Accessors.relocate, Accessors.apply]
    exact Accessors.eraseSpans_relocate rest
      (by simp only [Expr.eraseSpans, h, Items.eraseSpans_relocate args])
  | .index _ _ inner rest, _, _, h => by
    simp only [Accessors.relocate, Accessors.apply]
    exact Accessors.eraseSpans_relocate rest
      (by simp only [Expr.eraseSpans, h, Chain.eraseSpans_relocate inner])
  | .member _ _ _ rest, _, _, h => by
    simp only [Accessors.relocate, Accessors.apply]
    exact Accessors.eraseSpans_relocate rest
      (by simp only [Expr.eraseSpans, h, eraseSpans_memberName_relocate])

/-- Items agree one by one. -/
theorem Items.eraseSpans_relocate : (r : Items) →
    Expr.eraseAllSpans ((r.relocate f).toExprs mode) = Expr.eraseAllSpans (r.toExprs mode)
  | .last item => by
    simp only [Items.relocate, Items.toExprs, Expr.eraseAllSpans, Chain.eraseSpans_relocate item]
  | .more item rest => by
    simp only [Items.relocate, Items.toExprs, Expr.eraseAllSpans, Chain.eraseSpans_relocate item,
      Items.eraseSpans_relocate rest]

end

end

/-! ### Reading statements -/

namespace Relocation

variable (f : Relocation)

/-- What a reader of a statement gives, at its new place: something, or the
issue that made it give up, and the cursor behind. -/
def answer {α : Type} (move : α → α) : Except Issue α × Cursor → Except Issue α × Cursor
  | (.ok x, d) => (.ok (move x), d.relocate f)
  | (.error issue, d) => (.error (issue.relocate f), d.relocate f)

end Relocation

/-- The same head of a declaration at its new place. -/
def DeclHead.relocate (f : Relocation) (h : DeclHead) : DeclHead :=
  ⟨f.move h.start, h.exported, h.declared⟩

/-- The same declaration at its new place. -/
def DeclClause.relocate (f : Relocation) : DeclClause → DeclClause
  | .binding head b name init =>
    .binding (head.relocate f) b (name.relocate f) (init.map (Chain.relocate f))
  | .function head name params close =>
    .function (head.relocate f) (name.relocate f) (params.map (Identifier.relocate f))
      (close.map f.move)

/-- The same statement at its new place. -/
def Clause.relocate (f : Relocation) : Clause → Clause
  | .decl d => .decl (d.relocate f)
  | .ret keyword arg => .ret (keyword.relocate f) (arg.map (Chain.relocate f))

/-- The same attempt at its new place. -/
def Attempt.relocate (f : Relocation) : Attempt → Attempt
  | .read clause => .read (clause.relocate f)
  | .failed issue skipped => .failed (issue.relocate f) skipped

namespace Cursor

variable (f : Relocation)

/-- Whether a word is accepted depends on the kind of the next token. -/
theorem accept_relocate (word : Keyword) (c : Cursor) :
    (c.relocate f).accept word = ((c.accept word).1, (c.accept word).2.relocate f) := by
  simp only [accept, peek_relocate, advance_relocate, Token.kind_relocate]
  split <;> rfl

/-- A name is a token with a text, and its span is moved. -/
theorem readName_relocate (place : NamePlace) (c : Cursor) :
    (c.relocate f).readName place = f.answer (Identifier.relocate f) (c.readName place) := by
  simp only [readName, peek_relocate, advance_relocate, Token.kind_relocate]
  split <;> rfl

/-- By recursion on the tokens ahead, in step in both streams. -/
theorem readNames_relocate (finish : Span) (ahead : List Token) (position : Nat) :
    readNames (f.move finish) (ahead.map (Token.relocate f)) position
      = f.answer (fun p => (p.1.map (Identifier.relocate f), f.move p.2))
        (readNames finish ahead position) := by
  fun_induction readNames finish ahead position with
  | case1 position => rfl
  | case2 t position name hk =>
    simp only [List.map_cons, List.map_nil, readNames, Token.kind_relocate, hk]
    rfl
  | case3 t position name hk u rest hu names close d hd ih =>
    simp only [List.map_cons, readNames, Token.kind_relocate, hk, hu, ih, hd]
    rfl
  | case4 t position name hk u rest hu issue d hd ih =>
    simp only [List.map_cons, readNames, Token.kind_relocate, hk, hu, ih, hd]
    rfl
  | case5 t position name hk u rest hu =>
    simp only [List.map_cons, readNames, Token.kind_relocate, hk, hu]
    rfl
  | case6 t position name hk u rest hcomma hclose =>
    simp only [List.map_cons, readNames, Token.kind_relocate, hk]
    rfl
  | case7 t rest position hname =>
    simp only [List.map_cons, readNames, Token.kind_relocate]
    rfl

/-- The parenthesis depends on a kind, and the names are read in step. -/
theorem readParams_relocate (c : Cursor) :
    (c.relocate f).readParams
      = f.answer (fun p => (p.1.map (Identifier.relocate f), f.move p.2)) c.readParams := by
  simp only [readParams, peek_relocate, advance_relocate, Token.kind_relocate]
  split
  · rfl
  · exact readNames_relocate f c.finish c.ahead c.position

/-- Recovery looks for a reserved word, that is, for a kind. -/
theorem recover_relocate (c : Cursor) :
    (c.relocate f).recover = (c.recover.1, c.recover.2.relocate f) := by
  have hskipped : (c.ahead.map (Token.relocate f)).takeWhile (fun t => !isBoundary t.kind)
      = (c.ahead.takeWhile fun t => !isBoundary t.kind).map (Token.relocate f) := by
    rw [List.takeWhile_map]
    rfl
  simp only [recover, relocate, hskipped, List.length_map, List.map_drop]

end Cursor

namespace DeclClause

variable (f : Relocation)

/-- A binding gives the same clause at other places, or the same issue. -/
theorem readBinding_relocate (head : DeclHead) (binding : Binding) (c : Cursor) :
    readBinding (head.relocate f) binding (c.relocate f)
      = f.answer (relocate f) (readBinding head binding c) := by
  simp only [readBinding, Cursor.readName_relocate]
  rcases c.readName .binding with ⟨issue | name, d⟩
  · rfl
  · simp only [Relocation.answer, Cursor.peek_relocate, Cursor.advance_relocate,
      Token.kind_relocate, Chain.read_relocate]
    show (if head.declared then _ else _) = _
    split
    · rfl
    · split <;> rfl

/-- A function gives the same clause at other places, or the same issue. -/
theorem readFunction_relocate (head : DeclHead) (c : Cursor) :
    readFunction (head.relocate f) (c.relocate f)
      = f.answer (relocate f) (readFunction head c) := by
  simp only [readFunction, Cursor.readName_relocate]
  rcases c.readName .function with ⟨issue | name, d⟩
  · rfl
  · simp only [Relocation.answer, Cursor.peek_relocate, Cursor.advance_relocate,
      Token.kind_relocate, Cursor.readParams_relocate]
    split
    · rcases (d.advance .stream).readParams with ⟨issue | params, e⟩ <;> rfl
    · rfl

/-- The words in front are told by their kinds. -/
theorem read_relocate (c : Cursor) :
    read (c.relocate f) = f.answer (relocate f) (read c) := by
  simp only [read, Cursor.accept_relocate, Cursor.peek_relocate, Cursor.advance_relocate,
    Token.kind_relocate]
  -- The head is relocated by its start, the only place in it.
  split
  · exact readBinding_relocate f ⟨_, _, _⟩ .val _
  · exact readBinding_relocate f ⟨_, _, _⟩ .var _
  · exact readFunction_relocate f ⟨_, _, _⟩ _
  · rfl

end DeclClause

/-- A declaration is the only clause, and anything else is reported at its token. -/
theorem Clause.read_relocate (f : Relocation) (c : Cursor) :
    read (c.relocate f) = f.answer (relocate f) (read c) := by
  simp only [read, Cursor.peek_relocate, Cursor.advance_relocate, Token.kind_relocate,
    Chain.read_relocate, DeclClause.read_relocate]
  split
  · split <;> rfl
  · rcases DeclClause.read c with ⟨issue | r, d⟩ <;> rfl
  · rfl

namespace Attempt

variable (f : Relocation)

/-- A failed attempt recovers in step. -/
theorem readOne_relocate (c : Cursor) :
    readOne (c.relocate f) = ((readOne c).1.relocate f, (readOne c).2.relocate f) := by
  simp only [readOne, Clause.read_relocate]
  rcases Clause.read c with ⟨issue | r, d⟩
  · simp only [Relocation.answer, Cursor.recover_relocate]
    rfl
  · rfl

/-- Reading a program commutes with relocation. -/
theorem readAll_relocate (c : Cursor) :
    readAll (c.relocate f) = ((readAll c).1.map (relocate f), (readAll c).2.relocate f) := by
  have key : ∀ (fuel : Nat) (c : Cursor), readUpTo fuel (c.relocate f)
      = ((readUpTo fuel c).1.map (relocate f), (readUpTo fuel c).2.relocate f) := by
    intro fuel
    induction fuel with
    | zero => intro c; rfl
    | succ fuel ih =>
      intro c
      simp only [readUpTo, Cursor.peek_relocate, Token.kind_relocate, readOne_relocate, ih]
      split <;> rfl
  have hremaining : (c.relocate f).remaining = c.remaining := List.length_map _
  rw [readAll, hremaining]
  exact key c.remaining c

end Attempt

/-! ### Views of statements -/

section
variable (f : Relocation) (mode : Reduction)

/-- The tree of an initializer or of a returned value, if there is one. -/
theorem eraseSpans_relocate_option (init : Option Chain) :
    ((init.map (Chain.relocate f)).map (Chain.toExpr mode)).map Expr.eraseSpans
      = (init.map (Chain.toExpr mode)).map Expr.eraseSpans := by
  cases init with
  | none => rfl
  | some r => exact congrArg some (r.eraseSpans_relocate f mode)

/-- A declaration without spans has none of the spans that were moved. -/
theorem DeclClause.eraseSpans_relocate (d : DeclClause) :
    ((d.relocate f).toDecl mode).eraseSpans = (d.toDecl mode).eraseSpans := by
  cases d with
  | binding head b name init =>
    simp only [relocate, toDecl, Decl.eraseSpans, DeclKind.eraseSpans,
      eraseSpans_relocate_option f mode init]
    rfl
  | function head name params close =>
    simp only [relocate, toDecl, Decl.eraseSpans, DeclKind.eraseSpans, List.map_map]
    rfl

/-- The tree of a statement does not depend on places, except for its own. -/
theorem Clause.eraseSpans_relocate (r : Clause) :
    ((r.relocate f).toStmt mode).eraseSpans = (r.toStmt mode).eraseSpans := by
  cases r with
  | decl d =>
    simp only [relocate, toStmt, Stmt.eraseSpans, DeclClause.eraseSpans_relocate f mode d]
  | ret keyword arg =>
    simp only [relocate, toStmt, Stmt.eraseSpans, eraseSpans_relocate_option f mode arg]

namespace Attempt

/-- The issues of an attempt come with it to their new places. -/
theorem issues_relocate (a : Attempt) :
    (a.relocate f).issues = a.issues.map (Issue.relocate f) := by
  match a with
  | .failed _ _ | .read (.decl (.function _ _ _ _)) => rfl
  | .read (.decl (.binding _ _ _ none)) | .read (.ret _ none) => rfl
  | .read (.decl (.binding _ _ _ (some r))) | .read (.ret _ (some r)) =>
    exact r.issues_relocate f

/-- So do those of a program. -/
theorem flatMap_issues_relocate (attempts : List Attempt) :
    (attempts.map (relocate f)).flatMap issues
      = (attempts.flatMap issues).map (Issue.relocate f) := by
  simp only [List.flatMap_map, List.map_flatMap, issues_relocate]

/-- The statements of a program do not depend on places, except for their own. -/
theorem eraseSpans_relocate (attempts : List Attempt) :
    ((attempts.map (relocate f)).filterMap (toStmt? mode)).map Stmt.eraseSpans
      = (attempts.filterMap (toStmt? mode)).map Stmt.eraseSpans := by
  have hone : ∀ a : Attempt, ((a.relocate f).toStmt? mode).map Stmt.eraseSpans
      = (a.toStmt? mode).map Stmt.eraseSpans := fun a => by
    cases a with
    | read r => exact congrArg some (r.eraseSpans_relocate f mode)
    | failed issue skipped => rfl
  simp only [List.filterMap_map, List.map_filterMap, Function.comp_apply, hone]

end Attempt

end

end ExprFrontEnd
