import ExprFrontEnd.Chain.Issues
import ExprFrontEnd.Chain.Read
import ExprFrontEnd.Chain.Tree
import ExprFrontEnd.Proofs.Between
import ExprFrontEnd.Proofs.Readers

/-!
# `ExprFrontEnd.Proofs.OnePass`: folding while reading

An expression is read in two steps: first its chain, and then the tree of the
chain in a mode of reduction. The tree can also be built on the way. The
readers of this module pass an operator, fold what it makes due, and only then
go on to its right operand. So they have to know the mode, and what waits to be
folded is with them while they read.

* `Outcome`: what reading gives: a value, the issues that it reports, and the
  cursor where it stops.
* `Chain.parse`, `DeclClause.parse`, `Clause.parse`, `Attempt.parseAll`: an
  expression, a declaration, a statement and a program in one pass.
* `Chain.parse_eq`: an expression comes to the same as in the two steps. This is
  where the two ways to work, each with its own recursion, are compared.
* `DeclClause.parse_eq`, `Clause.parse_eq`, `Attempt.parseAll_eq`: and so do
  statements, where all that is folded are expressions.
-/

set_option autoImplicit false

namespace ExprFrontEnd

/-- What reading gives: a value, the issues, and where it stops. -/
structure Outcome (α : Type) where
  value : α
  issues : List Issue
  cursor : Cursor

namespace Outcome

variable {α : Type}

/-- The same with issues in front. -/
def report (issues : List Issue) (o : Outcome α) : Outcome α :=
  ⟨o.value, issues ++ o.issues, o.cursor⟩

end Outcome

mutual

/-- Reads and folds an expression, with a bound on the depth of calls. -/
def Chain.parseUpTo (mode : Reduction) (s : Scope) :
    Nat → Cursor → Option (Outcome (Expr × Terminator))
  | 0, _ => none
  | fuel + 1, c => do
    let first ← Operand.parseUpTo mode s fuel c
    let rest ← Links.parseUpTo mode s fuel (.start first.value) first.cursor
    return rest.report first.issues

/-- Reads on behind an operand, with the operators that wait. -/
def Links.parseUpTo (mode : Reduction) (s : Scope) :
    Nat → Pending Expr → Cursor → Option (Outcome (Expr × Terminator))
  | 0, _, _ => none
  | fuel + 1, p, c =>
    let t := c.peek s
    let behind := c.advance s
    match TerminatorKind.ofKind? t.kind with
    | some kind => some ⟨(p.drain.toExpr, ⟨kind, t⟩), [], behind⟩
    | none =>
      match BinaryOp.ofKind? t.kind with
      | some op => do
        let folded := p.foldTimes (due mode p.ops op)
        let right ← Operand.parseUpTo mode s fuel behind
        let rest ← Links.parseUpTo mode s fuel (folded.push op right.value) right.cursor
        return rest.report right.issues
      | none => do
        let rest ← Links.parseUpTo mode s fuel p behind
        return rest.report [⟨.operatorExpected t.kind, t.span⟩]

/-- Reads signs and the operand behind them. -/
def Operand.parseUpTo (mode : Reduction) (s : Scope) : Nat → Cursor → Option (Outcome Expr)
  | 0, _ => none
  | fuel + 1, c =>
    let t := c.peek s
    match UnaryOp.ofKind? t.kind with
    | some op => do
      let arg ← Operand.parseUpTo mode s fuel (c.advance s)
      return ⟨.unary op arg.value (t.span.merge arg.value.span), arg.issues, arg.cursor⟩
    | none => Primary.parseUpTo mode s fuel c

/-- Reads an operand without signs. -/
def Primary.parseUpTo (mode : Reduction) (s : Scope) : Nat → Cursor → Option (Outcome Expr)
  | 0, _ => none
  | fuel + 1, c =>
    let t := c.peek s
    if t.kind.opensOperand || t.kind.closesOperand then do
      let atom ← Atom.parseUpTo mode s fuel c
      let rest ← Accessors.parseUpTo mode s fuel atom.value atom.cursor
      return rest.report atom.issues
    else do
      let rest ← Primary.parseUpTo mode s fuel (c.advance s)
      return rest.report [⟨.operandExpected t.kind, t.span⟩]

/-- Reads an atom. -/
def Atom.parseUpTo (mode : Reduction) (s : Scope) : Nat → Cursor → Option (Outcome Expr)
  | 0, _ => none
  | fuel + 1, c =>
    let t := c.peek s
    let behind := c.advance s
    match t.kind with
    | .number value => some ⟨.number value t.span, [], behind⟩
    | .string value => some ⟨.string value t.span, [], behind⟩
    | .identifier name => some ⟨.identifier ⟨name, t.span⟩, [], behind⟩
    | .symbol .openParen => do
      let inner ← Chain.parseUpTo mode s fuel behind
      return ⟨inner.value.1, inner.issues, inner.cursor⟩
    | .symbol .openBracket => do
      let elems ← Items.parseUpTo mode s fuel behind
      return ⟨.array elems.value.1 (t.span.merge elems.value.2.span), elems.issues, elems.cursor⟩
    | _ => some ⟨.ignore t t.span, [⟨.operandExpected t.kind, t.span⟩], behind⟩

/-- Reads the accessors behind an expression. -/
def Accessors.parseUpTo (mode : Reduction) (s : Scope) :
    Nat → Expr → Cursor → Option (Outcome Expr)
  | 0, _, _ => none
  | fuel + 1, e, c =>
    let t := c.peek s
    let behind := c.advance s
    match t.kind.accessor? with
    | none => some ⟨e, [], c⟩
    | some (.call, optional) => do
      let args ← Items.parseUpTo mode s fuel behind
      let call := .call e args.value.1 optional (e.span.merge args.value.2.span)
      let rest ← Accessors.parseUpTo mode s fuel call args.cursor
      return rest.report args.issues
    | some (.index, optional) => do
      let inner ← Chain.parseUpTo mode s fuel behind
      let index := .index e inner.value.1 optional (e.span.merge inner.value.2.span)
      let rest ← Accessors.parseUpTo mode s fuel index inner.cursor
      return rest.report inner.issues
    | some (.member, optional) => do
      let found := behind.peek s
      let name := memberName t found
      let member := .member e name optional (e.span.merge name.span)
      let rest ← Accessors.parseUpTo mode s fuel member (behind.advance s)
      return rest.report (memberIssues optional t found)

/-- Reads expressions up to the first that does not end in a comma. -/
def Items.parseUpTo (mode : Reduction) (s : Scope) :
    Nat → Cursor → Option (Outcome (List Expr × Terminator))
  | 0, _ => none
  | fuel + 1, c => do
    let item ← Chain.parseUpTo mode s fuel c
    if item.value.2.kind = .comma then
      let rest ← Items.parseUpTo mode s fuel item.cursor
      return ⟨(item.value.1 :: rest.value.1, rest.value.2), item.issues ++ rest.issues, rest.cursor⟩
    else
      return ⟨([item.value.1], item.value.2), item.issues, item.cursor⟩

end

/-! ### The two steps -/

/-- What a chain gives behind an operand, in front of what waits. -/
def Links.outcome (mode : Reduction) (p : Pending Expr) (r : Links × Cursor) :
    Outcome (Expr × Terminator) :=
  ⟨(((r.1.toPairs mode).foldl (Pending.step mode) p).drain.toExpr, r.1.terminator), r.1.issues, r.2⟩

/-- What a chain that was read gives in a mode. -/
def Chain.outcome (mode : Reduction) (r : Chain × Cursor) : Outcome (Expr × Terminator) :=
  ⟨(r.1.toExpr mode, r.1.terminator), r.1.issues, r.2⟩

/-- What a list that was read gives in a mode. -/
def Items.outcome (mode : Reduction) (r : Items × Cursor) : Outcome (List Expr × Terminator) :=
  ⟨(r.1.toExprs mode, r.1.terminator), r.1.issues, r.2⟩

/-- With this bound, folding on the way gives what the two steps give. -/
private structure Folds (mode : Reduction) (s : Scope) (fuel : Nat) : Prop where
  chain (c : Cursor) : Chain.parseUpTo mode s fuel c
    = (Chain.readUpTo s fuel c).map (Chain.outcome mode)
  links (p : Pending Expr) (c : Cursor) : Links.parseUpTo mode s fuel p c
    = (Links.readUpTo s fuel c).map (Links.outcome mode p)
  operand (c : Cursor) : Operand.parseUpTo mode s fuel c
    = (Operand.readUpTo s fuel c).map fun r => ⟨r.1.toExpr mode, r.1.issues, r.2⟩
  primary (c : Cursor) : Primary.parseUpTo mode s fuel c
    = (Primary.readUpTo s fuel c).map fun r => ⟨r.1.toExpr mode, r.1.issues, r.2⟩
  atom (c : Cursor) : Atom.parseUpTo mode s fuel c
    = (Atom.readUpTo s fuel c).map fun r => ⟨r.1.toExpr mode, r.1.issues, r.2⟩
  accessors (e : Expr) (c : Cursor) : Accessors.parseUpTo mode s fuel e c
    = (Accessors.readUpTo s fuel c).map fun r => ⟨r.1.apply mode e, r.1.issues, r.2⟩
  items (c : Cursor) : Items.parseUpTo mode s fuel c
    = (Items.readUpTo s fuel c).map (Items.outcome mode)

section
variable {mode : Reduction} {s : Scope} {fuel : Nat}

/-- A chain folds what its operand starts and its links go on with. -/
private theorem folds_chain (ih : Folds mode s fuel) (c : Cursor) :
    Chain.parseUpTo mode s (fuel + 1) c
      = (Chain.readUpTo s (fuel + 1) c).map (Chain.outcome mode) := by
  simp only [Chain.parseUpTo, Chain.readUpTo, ih.operand]
  cases Operand.readUpTo s fuel c with
  | none => rfl
  | some r =>
    simp only [Option.map_some, Option.bind_eq_bind, Option.bind_some, ih.links]
    cases Links.readUpTo s fuel r.2 with
    | none => rfl
    | some r' => rfl

/-- The links of a chain fold on the way what the row of their operators folds afterwards. -/
private theorem folds_links (ih : Folds mode s fuel) (p : Pending Expr) (c : Cursor) :
    Links.parseUpTo mode s (fuel + 1) p c
      = (Links.readUpTo s (fuel + 1) c).map (Links.outcome mode p) := by
  simp only [Links.parseUpTo, Links.readUpTo]
  cases TerminatorKind.ofKind? (c.peek s).kind with
  | some kind => rfl
  | none =>
    cases BinaryOp.ofKind? (c.peek s).kind with
    | some op =>
      simp only [ih.operand]
      cases Operand.readUpTo s fuel (c.advance s) with
      | none => rfl
      | some r =>
        -- The operator is folded and pushed as a step of grouping does it.
        simp only [Option.map_some, Option.bind_eq_bind, Option.bind_some, ih.links]
        cases Links.readUpTo s fuel r.2 with
        | none => rfl
        | some r' => rfl
    | none =>
      simp only [ih.links]
      cases Links.readUpTo s fuel (c.advance s) with
      | none => rfl
      | some r => rfl

/-- A sign is put on the operand behind it in both cases. -/
private theorem folds_operand (ih : Folds mode s fuel) (c : Cursor) :
    Operand.parseUpTo mode s (fuel + 1) c = (Operand.readUpTo s (fuel + 1) c).map fun r =>
      ⟨r.1.toExpr mode, r.1.issues, r.2⟩ := by
  simp only [Operand.parseUpTo, Operand.readUpTo]
  cases UnaryOp.ofKind? (c.peek s).kind with
  | some op =>
    simp only [ih.operand]
    cases Operand.readUpTo s fuel (c.advance s) with
    | none => rfl
    | some r => rfl
  | none =>
    simp only [ih.primary]
    cases Primary.readUpTo s fuel c with
    | none => rfl
    | some r => rfl

/-- Tokens that were skipped in front of an atom add issues and nothing to the tree. -/
private theorem folds_primary (ih : Folds mode s fuel) (c : Cursor) :
    Primary.parseUpTo mode s (fuel + 1) c = (Primary.readUpTo s (fuel + 1) c).map fun r =>
      ⟨r.1.toExpr mode, r.1.issues, r.2⟩ := by
  simp only [Primary.parseUpTo, Primary.readUpTo]
  split
  · simp only [ih.atom]
    cases Atom.readUpTo s fuel c with
    | none => rfl
    | some r =>
      simp only [Option.map_some, Option.bind_eq_bind, Option.bind_some, ih.accessors]
      cases Accessors.readUpTo s fuel r.2 with
      | none => rfl
      | some r' => rfl
  · simp only [ih.primary]
    cases Primary.readUpTo s fuel (c.advance s) with
    | none => rfl
    | some r => rfl

/-- Atoms become trees at once. Inside of a group or an array it is the turn of the inner
readers. -/
private theorem folds_atom (ih : Folds mode s fuel) (c : Cursor) :
    Atom.parseUpTo mode s (fuel + 1) c = (Atom.readUpTo s (fuel + 1) c).map fun r =>
      ⟨r.1.toExpr mode, r.1.issues, r.2⟩ := by
  simp only [Atom.parseUpTo, Atom.readUpTo]
  -- The kind of the token is also in what is reported of it.
  obtain ⟨kind, span⟩ := c.peek s
  cases kind with
  | symbol symbol =>
    cases symbol with
    | openParen =>
      simp only [ih.chain]
      cases Chain.readUpTo s fuel (c.advance s) with
      | none => rfl
      | some r => rfl
    | openBracket =>
      simp only [ih.items]
      cases Items.readUpTo s fuel (c.advance s) with
      | none => rfl
      | some r => rfl
    | _ => rfl
  | _ => rfl

/-- Each accessor is put on the expression in front of it, which is complete by then. -/
private theorem folds_accessors (ih : Folds mode s fuel) (e : Expr) (c : Cursor) :
    Accessors.parseUpTo mode s (fuel + 1) e c = (Accessors.readUpTo s (fuel + 1) c).map fun r =>
      ⟨r.1.apply mode e, r.1.issues, r.2⟩ := by
  simp only [Accessors.parseUpTo, Accessors.readUpTo]
  cases (c.peek s).kind.accessor? with
  | none => rfl
  | some accessor =>
    obtain ⟨kind, optional⟩ := accessor
    -- Items and chains are known with less fuel, and so are the accessors behind them.
    cases kind with
    | call =>
      simp only [ih.items]
      cases Items.readUpTo s fuel (c.advance s) with
      | none => rfl
      | some r =>
        simp only [Option.map_some, Option.bind_eq_bind, Option.bind_some, Items.outcome,
          ih.accessors]
        cases Accessors.readUpTo s fuel r.2 with
        | none => rfl
        | some r' => rfl
    | index =>
      simp only [ih.chain]
      cases Chain.readUpTo s fuel (c.advance s) with
      | none => rfl
      | some r =>
        simp only [Option.map_some, Option.bind_eq_bind, Option.bind_some, Chain.outcome,
          ih.accessors]
        cases Accessors.readUpTo s fuel r.2 with
        | none => rfl
        | some r' => rfl
    | member =>
      simp only [ih.accessors]
      cases Accessors.readUpTo s fuel ((c.advance s).advance s) with
      | none => rfl
      | some r => rfl

/-- The items are folded one by one. -/
private theorem folds_items (ih : Folds mode s fuel) (c : Cursor) :
    Items.parseUpTo mode s (fuel + 1) c
      = (Items.readUpTo s (fuel + 1) c).map (Items.outcome mode) := by
  simp only [Items.parseUpTo, Items.readUpTo, ih.chain]
  cases Chain.readUpTo s fuel c with
  | none => rfl
  | some r =>
    simp only [Option.map_some, Option.bind_eq_bind, Option.bind_some, Chain.outcome]
    split
    · simp only [ih.items]
      cases Items.readUpTo s fuel r.2 with
      | none => rfl
      | some r' => rfl
    · rfl

/-- All readers fold on the way what the views of their chains say. The induction is on the
bound. -/
private theorem folds (mode : Reduction) (s : Scope) (fuel : Nat) : Folds mode s fuel := by
  -- Both families call each other alike, with one step less each time.
  induction fuel with
  | zero =>
    exact ⟨fun _ => rfl, fun _ _ => rfl, fun _ => rfl, fun _ => rfl, fun _ => rfl,
      fun _ _ => rfl, fun _ => rfl⟩
  | succ fuel ih =>
    exact ⟨folds_chain ih, folds_links ih, folds_operand ih, folds_primary ih, folds_atom ih,
      folds_accessors ih, folds_items ih⟩

end

namespace Chain

/-- With enough depth, folding on the way comes to what is read, seen as an outcome. -/
theorem parseUpTo_eq_read (mode : Reduction) (s : Scope) {c : Cursor} {fuel : Nat}
    (h : depth c ≤ fuel) : parseUpTo mode s fuel c = some (outcome mode (read s c)) := by
  rw [(folds mode s fuel).chain, readUpTo_eq_read s h]
  rfl

/-- Folding on the way has an answer within the bound of reading. -/
theorem isSome_parseUpTo (mode : Reduction) (s : Scope) (c : Cursor) :
    (parseUpTo mode s (depth c) c).isSome = true := by
  rw [parseUpTo_eq_read mode s (Nat.le_refl _)]
  rfl

/-- Reads an expression and folds its operators on the way. -/
def parse (mode : Reduction) (s : Scope) (c : Cursor) : Outcome (Expr × Terminator) :=
  (parseUpTo mode s (depth c) c).get (isSome_parseUpTo mode s c)

/-- **Folding on the way comes to the same** as grouping what was read. -/
theorem parse_eq (mode : Reduction) (s : Scope) (c : Cursor) :
    parse mode s c = outcome mode (read s c) := by
  simp only [parse, parseUpTo_eq_read mode s (Nat.le_refl _), Option.get_some]

end Chain

/-! ### Statements -/

namespace DeclClause

/-- Reads a variable behind its reserved word. -/
def parseBinding (mode : Reduction) (head : DeclHead) (binding : Binding) (c : Cursor) :
    Outcome (Option Decl) :=
  match c.readName .binding with
  | (.error issue, d) => ⟨none, [issue], d⟩
  | (.ok name, d) =>
    let decl (init : Option Expr) (stop : Span) : Decl :=
      ⟨.binding binding name init, head.exported, head.declared, head.start.merge stop⟩
    if head.declared then ⟨some (decl none name.span), [], d⟩
    else
      let t := d.peek .stream
      if t.kind = .symbol .equals then
        let init := Chain.parse mode .statement (d.advance .stream)
        ⟨some (decl (some init.value.1) init.value.1.span), init.issues, init.cursor⟩
      else ⟨none, [⟨.equalsExpected t.kind, t.span⟩], d⟩

/-- Reads a function behind its reserved word. -/
def parseFunction (head : DeclHead) (c : Cursor) : Outcome (Option Decl) :=
  match c.readName .function with
  | (.error issue, d) => ⟨none, [issue], d⟩
  | (.ok name, d) =>
    let decl (params : List Identifier) (stop : Span) : Decl :=
      ⟨.function name params, head.exported, head.declared, head.start.merge stop⟩
    if (d.peek .stream).kind = .symbol .openParen then
      match (d.advance .stream).readParams with
      | (.error issue, e) => ⟨none, [issue], e⟩
      | (.ok (params, close), e) => ⟨some (decl params close), [], e⟩
    else ⟨some (decl [] name.span), [], d⟩

/-- Reads a declaration. -/
def parse (mode : Reduction) (c : Cursor) : Outcome (Option Decl) :=
  let start := (c.peek .stream).span
  let (exported, c) := c.accept .exporting
  let (declared, c) := c.accept .declaring
  let head : DeclHead := ⟨start, exported, declared⟩
  let t := c.peek .stream
  let c := c.advance .stream
  match t.kind with
  | .keyword .val => parseBinding mode head .val c
  | .keyword .var => parseBinding mode head .var c
  | .keyword .fn => parseFunction head c
  | kind => ⟨none, [⟨.statementExpected kind, t.span⟩], c⟩

/-- What a declaration that was read gives in a mode. -/
def outcome (mode : Reduction) : Except Issue DeclClause × Cursor → Outcome (Option Decl)
  | (.ok r, d) => ⟨some (r.toDecl mode), r.issues, d⟩
  | (.error issue, d) => ⟨none, [issue], d⟩

/-- A variable in one pass is the variable that is read, seen as an outcome. -/
theorem parseBinding_eq (mode : Reduction) (head : DeclHead) (binding : Binding) (c : Cursor) :
    parseBinding mode head binding c = outcome mode (readBinding head binding c) := by
  simp only [parseBinding, readBinding, Chain.parse_eq]
  rcases c.readName .binding with ⟨issue | name, d⟩
  · rfl
  · dsimp only
    split
    · rfl
    · split <;> rfl

/-- A function in one pass is the function that is read. The mode has nothing to decide in it. -/
theorem parseFunction_eq (mode : Reduction) (head : DeclHead) (c : Cursor) :
    parseFunction head c = outcome mode (readFunction head c) := by
  simp only [parseFunction, readFunction]
  rcases c.readName .function with ⟨issue | name, d⟩
  · rfl
  · dsimp only
    split
    · rcases (d.advance .stream).readParams with ⟨issue | ⟨params, close⟩, e⟩ <;> rfl
    · rfl

/-- A declaration in one pass is the declaration that is read, seen as an outcome. -/
theorem parse_eq (mode : Reduction) (c : Cursor) : parse mode c = outcome mode (read c) := by
  simp only [parse, read, parseBinding_eq, parseFunction_eq mode]
  cases (((c.accept .exporting).2.accept .declaring).2.peek .stream).kind with
  | keyword word => cases word <;> rfl
  | _ => rfl

end DeclClause

namespace Clause

/-- Reads a statement. -/
def parse (mode : Reduction) (c : Cursor) : Outcome (Option Stmt) :=
  let t := c.peek .stream
  let d := c.advance .stream
  match t.kind with
  | .keyword .returning =>
    let following := (d.peek .stream).kind
    if (TerminatorKind.ofKind? following).isSome || following.startsStatement then
      ⟨some (.ret none t.span), [], d⟩
    else
      let arg := Chain.parse mode .statement d
      ⟨some (.ret (some arg.value.1) (t.span.merge arg.value.1.span)), arg.issues, arg.cursor⟩
  | .keyword _ =>
    let decl := DeclClause.parse mode c
    ⟨decl.value.map fun d => .decl d d.span, decl.issues, decl.cursor⟩
  | kind => ⟨none, [⟨.statementExpected kind, t.span⟩], c⟩

/-- What a statement that was read gives in a mode. -/
def outcome (mode : Reduction) : Except Issue Clause × Cursor → Outcome (Option Stmt)
  | (.ok r, d) => ⟨some (r.toStmt mode), r.issues, d⟩
  | (.error issue, d) => ⟨none, [issue], d⟩

/-- A statement in one pass is the statement that is read, seen as an outcome. -/
theorem parse_eq (mode : Reduction) (c : Cursor) : parse mode c = outcome mode (read c) := by
  simp only [parse, read, Chain.parse_eq, DeclClause.parse_eq]
  cases (c.peek .stream).kind with
  | keyword word =>
    cases word with
    | returning =>
      dsimp only
      split <;> rfl
    | _ => rcases DeclClause.read c with ⟨issue | r, d⟩ <;> rfl
  | _ => rfl

end Clause

namespace Attempt

/-- Reads statements up to an end of input, at most as many as `fuel` says.
Behind one that fails it skips to the next reserved word. -/
def parseUpTo (mode : Reduction) : Nat → Cursor → Outcome (List (Option Stmt))
  | 0, c => ⟨[], [], c⟩
  | fuel + 1, c =>
    if (c.peek .stream).kind = .eof then ⟨[], [], c⟩
    else
      let first := Clause.parse mode c
      let d := if first.value.isSome then first.cursor else first.cursor.recover.2
      let rest := parseUpTo mode fuel d
      ⟨first.value :: rest.value, first.issues ++ rest.issues, rest.cursor⟩

/-- Reads statements up to an end of input. A statement that fails leaves a gap
in the list. -/
def parseAll (mode : Reduction) (c : Cursor) : Outcome (List (Option Stmt)) :=
  parseUpTo mode c.remaining c

/-- What attempts give in a mode. -/
def outcome (mode : Reduction) (r : List Attempt × Cursor) : Outcome (List (Option Stmt)) :=
  ⟨r.1.map (toStmt? mode), r.1.flatMap issues, r.2⟩

/-- Attempts in one pass, with a bound on their number. The induction is on the bound. -/
theorem parseUpTo_eq (mode : Reduction) (fuel : Nat) (c : Cursor) :
    parseUpTo mode fuel c = outcome mode (readUpTo fuel c) := by
  induction fuel generalizing c with
  | zero => rfl
  | succ fuel ih =>
    simp only [parseUpTo, readUpTo, readOne, Clause.parse_eq, ih]
    split
    · rfl
    · rcases Clause.read c with ⟨issue | r, d⟩ <;> rfl

/-- A program in one pass is the program that is read, seen as an outcome. -/
theorem parseAll_eq (mode : Reduction) (c : Cursor) :
    parseAll mode c = outcome mode (readAll c) :=
  parseUpTo_eq mode c.remaining c

end Attempt

end ExprFrontEnd
