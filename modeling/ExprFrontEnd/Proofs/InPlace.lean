import ExprFrontEnd.Proofs.Session
import ExprFrontEnd.Proofs.Stacks

/-!
# `ExprFrontEnd.Proofs.InPlace`: reading an expression in place

The readers of this module work on a session and on two stacks. They record each
issue when they come to it, move the index, and give `none` if any operation is
out of its domain: no token at the index, no operator or operand to fold, or
anything but one operand in the end. They are the readers of `Chain.parse` with
nothing taken for granted.

* `Chain.runUpTo`: an expression in place, with a bound on the depth of calls.
* `Runs`: a run from a session comes to what an outcome at its cursor says. The
  value is that of the outcome, its issues stand behind those that were recorded
  before, and the index is the position of its cursor.
* `Runs.bind`, `Runs.map`: runs are put together as outcomes are, so every reader
  is compared by its own steps alone.
* `Chain.run?_session`: with enough depth a run never fails, and it comes to
  `Chain.parse`.
-/

set_option autoImplicit false

namespace ExprFrontEnd

/-! ### The readers -/

mutual

/-- Reads and folds an expression. -/
def Chain.runUpTo (mode : Reduction) (s : Scope) :
    Nat → Session → Option ((Expr × Terminator) × Session)
  | 0, _ => none
  | fuel + 1, m => do
    let first ← Operand.runUpTo mode s fuel m
    Links.runUpTo mode s fuel (.start first.1) first.2

/-- Reads on behind an operand, with the stacks. -/
def Links.runUpTo (mode : Reduction) (s : Scope) :
    Nat → Stacks → Session → Option ((Expr × Terminator) × Session)
  | 0, _, _ => none
  | fuel + 1, st, m => do
    let next ← m.next? s
    let t := next.1
    match TerminatorKind.ofKind? t.kind with
    | some kind => do
      let e ← st.drain?
      return ((e, ⟨kind, t⟩), next.2)
    | none =>
      match BinaryOp.ofKind? t.kind with
      | some op => do
        let folded ← st.reduce? mode op
        let right ← Operand.runUpTo mode s fuel next.2
        Links.runUpTo mode s fuel (folded.push op right.1) right.2
      | none => Links.runUpTo mode s fuel st (next.2.record [⟨.operatorExpected t.kind, t.span⟩])

/-- Reads signs and the operand behind them. -/
def Operand.runUpTo (mode : Reduction) (s : Scope) : Nat → Session → Option (Expr × Session)
  | 0, _ => none
  | fuel + 1, m => do
    let t ← m.peek? s
    match UnaryOp.ofKind? t.kind with
    | some op => do
      let behind ← m.consume? s
      let arg ← Operand.runUpTo mode s fuel behind
      return (.unary op arg.1 (t.span.merge arg.1.span), arg.2)
    | none => Primary.runUpTo mode s fuel m

/-- Reads an operand without signs. -/
def Primary.runUpTo (mode : Reduction) (s : Scope) : Nat → Session → Option (Expr × Session)
  | 0, _ => none
  | fuel + 1, m => do
    let t ← m.peek? s
    if t.kind.opensOperand || t.kind.closesOperand then do
      let atom ← Atom.runUpTo mode s fuel m
      Accessors.runUpTo mode s fuel atom.1 atom.2
    else do
      let behind ← m.consume? s
      Primary.runUpTo mode s fuel (behind.record [⟨.operandExpected t.kind, t.span⟩])

/-- Reads an atom. -/
def Atom.runUpTo (mode : Reduction) (s : Scope) : Nat → Session → Option (Expr × Session)
  | 0, _ => none
  | fuel + 1, m => do
    let next ← m.next? s
    let t := next.1
    let behind := next.2
    match t.kind with
    | .number value => some (.number value t.span, behind)
    | .string value => some (.string value t.span, behind)
    | .identifier name => some (.identifier ⟨name, t.span⟩, behind)
    | .symbol .openParen => do
      let inner ← Chain.runUpTo mode s fuel behind
      return (inner.1.1, inner.2)
    | .symbol .openBracket => do
      let elems ← Items.runUpTo mode s fuel behind
      return (.array elems.1.1 (t.span.merge elems.1.2.span), elems.2)
    | _ => some (.ignore t t.span, behind.record [⟨.operandExpected t.kind, t.span⟩])

/-- Reads the accessors behind an expression. -/
def Accessors.runUpTo (mode : Reduction) (s : Scope) :
    Nat → Expr → Session → Option (Expr × Session)
  | 0, _, _ => none
  | fuel + 1, e, m => do
    let t ← m.peek? s
    match t.kind.accessor? with
    | none => some (e, m)
    | some (.call, optional) => do
      let behind ← m.consume? s
      let args ← Items.runUpTo mode s fuel behind
      let call := .call e args.1.1 optional (e.span.merge args.1.2.span)
      Accessors.runUpTo mode s fuel call args.2
    | some (.index, optional) => do
      let behind ← m.consume? s
      let inner ← Chain.runUpTo mode s fuel behind
      let index := .index e inner.1.1 optional (e.span.merge inner.1.2.span)
      Accessors.runUpTo mode s fuel index inner.2
    | some (.member, optional) => do
      let behind ← m.consume? s
      let found ← behind.next? s
      let name := memberName t found.1
      let member := .member e name optional (e.span.merge name.span)
      Accessors.runUpTo mode s fuel member (found.2.record (memberIssues optional t found.1))

/-- Reads expressions up to the first that does not end in a comma. -/
def Items.runUpTo (mode : Reduction) (s : Scope) :
    Nat → Session → Option ((List Expr × Terminator) × Session)
  | 0, _ => none
  | fuel + 1, m => do
    let item ← Chain.runUpTo mode s fuel m
    if item.1.2.kind = .comma then do
      let rest ← Items.runUpTo mode s fuel item.2
      return ((item.1.1 :: rest.1.1, rest.1.2), rest.2)
    else
      return (([item.1.1], item.1.2), item.2)

end

/-! ### Runs and outcomes -/

section
variable {α β : Type} {tokens : Array Token} {issues is : List Issue} {c : Cursor}

/-- What an outcome is in a session where issues were recorded before. -/
def Outcome.inSession (tokens : Array Token) (issues : List Issue) (o : Outcome α) : α × Session :=
  (o.value, o.cursor.session tokens (issues ++ o.issues))

/-- A run comes to what an outcome says, if there is one, and stays in the vector. -/
structure Runs (tokens : Array Token) (issues : List Issue) (r : Option (α × Session))
    (o : Option (Outcome α)) : Prop where
  eq : r = o.map (Outcome.inSession tokens issues)
  inside : ∀ x ∈ o, x.cursor.In tokens

namespace Runs

variable {r : Option (α × Session)} {o : Option (Outcome α)}

/-- No run comes to no outcome. -/
theorem none : Runs (α := α) tokens issues .none .none := ⟨rfl, nofun⟩

/-- A value at a cursor, with the issues that were recorded for it. -/
theorem value (hc : c.In tokens) (v : α) (is : List Issue) :
    Runs tokens issues (some (v, c.session tokens (issues ++ is))) (some ⟨v, is, c⟩) :=
  ⟨rfl, by simpa using hc⟩

/-- A value at a cursor, with no issues. -/
theorem plain (hc : c.In tokens) (v : α) :
    Runs tokens issues (some (v, c.session tokens issues)) (some ⟨v, [], c⟩) := by
  have h : Runs tokens issues (some (v, c.session tokens (issues ++ []))) _ := value hc v []
  rwa [List.append_nil] at h

/-- Issues that are recorded in front of a run. -/
theorem report (h : Runs tokens (issues ++ is) r o) :
    Runs tokens issues r (o.bind fun y => some (y.report is)) := by
  obtain ⟨rfl, hinside⟩ := h
  cases o with
  | none => exact .none
  | some y =>
    refine ⟨?_, by simpa [Outcome.report] using hinside⟩
    simp [Outcome.inSession, Outcome.report]

/-- One run behind the other. -/
theorem bind {f : α × Session → Option (β × Session)} {g : Outcome α → Option (Outcome β)}
    (h : Runs tokens issues r o)
    (hnext : ∀ x ∈ o, x.cursor.In tokens →
      Runs tokens (issues ++ x.issues) (f (x.inSession tokens issues)) (g x)) :
    Runs tokens issues (r.bind f)
      (o.bind fun x => (g x).bind fun y => some (y.report x.issues)) := by
  obtain ⟨rfl, hinside⟩ := h
  cases o with
  | none => exact .none
  | some x => exact (hnext x rfl (hinside x rfl)).report

/-- A run whose value is put to use. -/
theorem map (h : Runs tokens issues r o) (f : α → β) :
    Runs tokens issues (r.bind fun x => some (f x.1, x.2))
      (o.bind fun y => some ⟨f y.value, y.issues, y.cursor⟩) := by
  obtain ⟨rfl, hinside⟩ := h
  cases o with
  | none => exact .none
  | some y => exact ⟨rfl, by simpa using hinside⟩

end Runs

end

/-! ### One reader after the other -/

/-- With this bound, reading in place does what folding on the way does. -/
private structure RunsUpTo (mode : Reduction) (s : Scope) (tokens : Array Token) (fuel : Nat) :
    Prop where
  chain {c : Cursor} (hc : c.In tokens) (issues : List Issue) :
    Runs tokens issues (Chain.runUpTo mode s fuel (c.session tokens issues))
      (Chain.parseUpTo mode s fuel c)
  links (p : Pending Expr) {c : Cursor} (hc : c.In tokens) (issues : List Issue) :
    Runs tokens issues (Links.runUpTo mode s fuel p.onStacks (c.session tokens issues))
      (Links.parseUpTo mode s fuel p c)
  operand {c : Cursor} (hc : c.In tokens) (issues : List Issue) :
    Runs tokens issues (Operand.runUpTo mode s fuel (c.session tokens issues))
      (Operand.parseUpTo mode s fuel c)
  primary {c : Cursor} (hc : c.In tokens) (issues : List Issue) :
    Runs tokens issues (Primary.runUpTo mode s fuel (c.session tokens issues))
      (Primary.parseUpTo mode s fuel c)
  atom {c : Cursor} (hc : c.In tokens) (issues : List Issue) :
    Runs tokens issues (Atom.runUpTo mode s fuel (c.session tokens issues))
      (Atom.parseUpTo mode s fuel c)
  accessors (e : Expr) {c : Cursor} (hc : c.In tokens) (issues : List Issue) :
    Runs tokens issues (Accessors.runUpTo mode s fuel e (c.session tokens issues))
      (Accessors.parseUpTo mode s fuel e c)
  items {c : Cursor} (hc : c.In tokens) (issues : List Issue) :
    Runs tokens issues (Items.runUpTo mode s fuel (c.session tokens issues))
      (Items.parseUpTo mode s fuel c)

section
variable {mode : Reduction} {s : Scope} {tokens : Array Token} {fuel : Nat} {c : Cursor}

/-- The stacks of a chain start with its first operand. -/
private theorem runs_chain (ih : RunsUpTo mode s tokens fuel) (hc : c.In tokens)
    (issues : List Issue) :
    Runs tokens issues (Chain.runUpTo mode s (fuel + 1) (c.session tokens issues))
      (Chain.parseUpTo mode s (fuel + 1) c) := by
  rw [Chain.runUpTo, Chain.parseUpTo]
  exact (ih.operand hc issues).bind fun first _ hfirst =>
    ih.links (.start first.value) hfirst (issues ++ first.issues)

/-- In front of the terminator all operators are folded, and in front of an operator those that
are due. -/
private theorem runs_links (ih : RunsUpTo mode s tokens fuel) (p : Pending Expr)
    (hc : c.In tokens) (issues : List Issue) :
    Runs tokens issues (Links.runUpTo mode s (fuel + 1) p.onStacks (c.session tokens issues))
      (Links.parseUpTo mode s (fuel + 1) p c) := by
  have hbehind := hc.reaches (Cursor.reaches_advance s c)
  simp only [Links.runUpTo, Links.parseUpTo, hc.next?_session, Option.bind_eq_bind,
    Option.bind_some]
  cases TerminatorKind.ofKind? (c.peek s).kind with
  | some kind =>
    simp only [p.drain?_onStacks]
    exact .plain hbehind _
  | none =>
    cases BinaryOp.ofKind? (c.peek s).kind with
    | some op =>
      -- What is due is on top of the stacks, so folding it does not fail.
      simp only [p.reduce?_onStacks]
      exact (ih.operand hbehind issues).bind fun right _ hright =>
        ih.links ((p.foldTimes (due mode p.ops op)).push op right.value) hright
          (issues ++ right.issues)
    | none => exact (ih.links p hbehind _).report

/-- The sign is known before its operand is read, and is put on it afterwards. -/
private theorem runs_operand (ih : RunsUpTo mode s tokens fuel) (hc : c.In tokens)
    (issues : List Issue) :
    Runs tokens issues (Operand.runUpTo mode s (fuel + 1) (c.session tokens issues))
      (Operand.parseUpTo mode s (fuel + 1) c) := by
  have hbehind := hc.reaches (Cursor.reaches_advance s c)
  simp only [Operand.runUpTo, Operand.parseUpTo, hc.peek?_session, Option.bind_eq_bind,
    Option.bind_some]
  cases UnaryOp.ofKind? (c.peek s).kind with
  | some op =>
    simp only [hc.consume?_session, Option.bind_some]
    exact (ih.operand hbehind issues).map fun arg =>
      Expr.unary op arg ((c.peek s).span.merge arg.span)
  | none => exact ih.primary hc issues

/-- An operand without signs records the tokens that it skips. -/
private theorem runs_primary (ih : RunsUpTo mode s tokens fuel) (hc : c.In tokens)
    (issues : List Issue) :
    Runs tokens issues (Primary.runUpTo mode s (fuel + 1) (c.session tokens issues))
      (Primary.parseUpTo mode s (fuel + 1) c) := by
  have hbehind := hc.reaches (Cursor.reaches_advance s c)
  simp only [Primary.runUpTo, Primary.parseUpTo, hc.peek?_session, Option.bind_eq_bind,
    Option.bind_some]
  split
  · exact (ih.atom hc issues).bind fun atom _ hatom =>
      ih.accessors atom.value hatom (issues ++ atom.issues)
  · simp only [hc.consume?_session, Option.bind_some]
    exact (ih.primary hbehind _).report

/-- An atom is known by its first token, and what is inside of it is read behind that. -/
private theorem runs_atom (ih : RunsUpTo mode s tokens fuel) (hc : c.In tokens)
    (issues : List Issue) :
    Runs tokens issues (Atom.runUpTo mode s (fuel + 1) (c.session tokens issues))
      (Atom.parseUpTo mode s (fuel + 1) c) := by
  have hbehind := hc.reaches (Cursor.reaches_advance s c)
  simp only [Atom.runUpTo, Atom.parseUpTo, hc.next?_session, Option.bind_eq_bind,
    Option.bind_some]
  -- The kind of the token is also in what is recorded of it.
  obtain ⟨kind, span⟩ := c.peek s
  cases kind with
  | number value => exact .plain hbehind _
  | string value => exact .plain hbehind _
  | identifier name => exact .plain hbehind _
  | symbol symbol =>
    cases symbol with
    | openParen => exact (ih.chain hbehind issues).map Prod.fst
    | openBracket =>
      exact (ih.items hbehind issues).map fun elems =>
        Expr.array elems.1 (span.merge elems.2.span)
    | _ => exact .value hbehind _ _
  | _ => exact .value hbehind _ _

/-- Each accessor is put on the expression in front of it, and a dot without a name is
recorded. -/
private theorem runs_accessors (ih : RunsUpTo mode s tokens fuel) (e : Expr) (hc : c.In tokens)
    (issues : List Issue) :
    Runs tokens issues (Accessors.runUpTo mode s (fuel + 1) e (c.session tokens issues))
      (Accessors.parseUpTo mode s (fuel + 1) e c) := by
  have hbehind := hc.reaches (Cursor.reaches_advance s c)
  simp only [Accessors.runUpTo, Accessors.parseUpTo, hc.peek?_session, Option.bind_eq_bind,
    Option.bind_some]
  cases (c.peek s).kind.accessor? with
  | none => exact .plain hc e
  | some accessor =>
    obtain ⟨kind, optional⟩ := accessor
    cases kind with
    | call =>
      simp only [hc.consume?_session, Option.bind_some]
      exact (ih.items hbehind issues).bind fun args _ hargs => ih.accessors _ hargs _
    | index =>
      simp only [hc.consume?_session, Option.bind_some]
      exact (ih.chain hbehind issues).bind fun inner _ hinner => ih.accessors _ hinner _
    | member =>
      -- The name behind a dot is one more token, and its issue is recorded in front of those of
      -- the accessors behind it.
      have hname := hbehind.reaches (Cursor.reaches_advance s _)
      simp only [hc.consume?_session, hbehind.next?_session, Option.bind_some]
      exact (ih.accessors _ hname _).report

/-- Items are put together behind the last one, when their terminator is known. -/
private theorem runs_items (ih : RunsUpTo mode s tokens fuel) (hc : c.In tokens)
    (issues : List Issue) :
    Runs tokens issues (Items.runUpTo mode s (fuel + 1) (c.session tokens issues))
      (Items.parseUpTo mode s (fuel + 1) c) := by
  obtain ⟨heq, hinside⟩ := ih.chain hc issues
  simp only [Items.runUpTo, Items.parseUpTo, Option.bind_eq_bind, heq]
  cases hchain : Chain.parseUpTo mode s fuel c with
  | none => exact .none
  | some item =>
    have hitem := hinside item hchain
    simp only [Option.map_some, Option.bind_some]
    show Runs tokens issues (if item.value.2.kind = .comma then _ else _) _
    split
    · have hrest := ((ih.items hitem (issues ++ item.issues)).map fun rest =>
        (item.value.1 :: rest.1, rest.2)).report
      simp only [Option.bind_assoc, Option.bind_some] at hrest
      exact hrest
    · exact .value hitem _ _

/-- All readers, by induction on the bound. -/
private theorem runsUpTo (mode : Reduction) (s : Scope) (tokens : Array Token) (fuel : Nat) :
    RunsUpTo mode s tokens fuel := by
  induction fuel with
  | zero =>
    exact ⟨fun _ _ => .none, fun _ _ _ _ => .none, fun _ _ => .none, fun _ _ => .none,
      fun _ _ => .none, fun _ _ _ _ => .none, fun _ _ => .none⟩
  | succ fuel ih =>
    exact ⟨runs_chain ih, fun p _ => runs_links ih p, runs_operand ih, runs_primary ih,
      runs_atom ih, fun e _ => runs_accessors ih e, runs_items ih⟩

end

/-! ### Enough depth -/

namespace Session

/-- A depth of calls that is enough to read the expression at the index. -/
def depth (m : Session) : Nat := 5 * (m.tokens.size - 1 - m.index) + 4

end Session

namespace Chain

/-- Reads an expression in place. -/
def run? (mode : Reduction) (s : Scope) (m : Session) : Option ((Expr × Terminator) × Session) :=
  runUpTo mode s m.depth m

/-- With enough depth an expression in place is that of `parse`. -/
theorem runUpTo_session (mode : Reduction) (s : Scope) {tokens : Array Token} {c : Cursor}
    {fuel : Nat} (hfuel : depth c ≤ fuel) (hc : c.In tokens) (issues : List Issue) :
    runUpTo mode s fuel (c.session tokens issues)
      = some ((parse mode s c).inSession tokens issues) := by
  obtain ⟨heq, -⟩ := (runsUpTo mode s tokens fuel).chain hc issues
  rw [heq, parseUpTo_eq_read mode s hfuel, parse_eq, Option.map_some]

/-- **Reading in place never fails.** From every place in a vector, in both scopes
and both modes, there is always a token at the index, an operator and two operands
to fold, and one expression in the end. It is that of `parse`. -/
theorem run?_session (mode : Reduction) (s : Scope) {tokens : Array Token} {c : Cursor}
    (hc : c.In tokens) (issues : List Issue) :
    run? mode s (c.session tokens issues) = some ((parse mode s c).inSession tokens issues) := by
  refine runUpTo_session mode s ?_ hc issues
  have hsize := hc.size_eq
  show 5 * c.remaining + 4 ≤ 5 * (tokens.size - 1 - c.position) + 4
  rw [Cursor.remaining]
  omega

end Chain

end ExprFrontEnd
