import ExprFrontEnd.Proofs.InPlace

/-!
# `ExprFrontEnd.Proofs.StatementsInPlace`: reading a program in place

The readers of statements on a session, with every look-up of a token checked. A
reader that gives up records an issue in the session and gives no value. It leaves
by way of the readers that called it, which record nothing more. An expression is
read in the scope of its statement, on the same session: it finds the issues that
were recorded before, and leaves its own behind them.

* `Session.names?`: names in parentheses, as a loop over tokens. `Cursor.readNames`
  is a recursion on those ahead.
* `Session.recover?`: skips tokens one at a time, and records nothing.
* `DeclClause.run?_session`, `Clause.run?_session`: in place, a declaration and a
  statement come to what they are when the tree is folded on the way.
* `Attempts`: the attempts of a program, call after call. Behind a failed one tokens
  are skipped.
* `Attempt.run?_session`: a program comes to the statements of its attempts.
-/

set_option autoImplicit false

namespace ExprFrontEnd

/-! ### The readers -/

namespace Session

/-- The number of tokens from the index on, with the final end. No loop takes more turns. -/
def turns (m : Session) : Nat := m.tokens.size - m.index

/-- Takes a reserved word if it is next. -/
def accept? (word : Keyword) (m : Session) : Option (Bool × Session) := do
  let t ← m.peek? .stream
  if t.kind = .keyword word then do
    let behind ← m.consume? .stream
    return (true, behind)
  else
    return (false, m)

/-- Takes the next token, which should be a name. -/
def name? (place : NamePlace) (m : Session) : Option (Option Identifier × Session) := do
  let next ← m.next? .stream
  match next.1.kind with
  | .identifier name => some (some ⟨name, next.1.span⟩, next.2)
  | kind => some (none, next.2.record [⟨.nameExpected place kind, next.1.span⟩])

/-- Takes names with commas between them up to the closing parenthesis, whose place
comes with them, in at most so many turns. -/
def names? : Nat → Session → Option (Option (List Identifier × Span) × Session)
  | 0, _ => none
  | turns + 1, m => do
    let first ← m.name? .parameter
    match first.1 with
    | none => some (none, first.2)
    | some name => do
      let next ← first.2.next? .stream
      match next.1.kind with
      | .symbol .comma => do
        let rest ← names? turns next.2
        return (rest.1.map fun r => (name :: r.1, r.2), rest.2)
      | .symbol .closeParen => some (some ([name], next.1.span), next.2)
      | kind => some (none, next.2.record [⟨.delimiterExpected kind, next.1.span⟩])

/-- Takes parameters behind their opening parenthesis. -/
def params? (m : Session) : Option (Option (List Identifier × Span) × Session) := do
  let t ← m.peek? .stream
  if t.kind = .symbol .closeParen then do
    let behind ← m.consume? .stream
    return (some ([], t.span), behind)
  else names? m.turns m

/-- Skips to the next reserved word or end of input, in at most so many turns. -/
def recoverUpTo : Nat → Session → Option Session
  | 0, _ => none
  | turns + 1, m => do
    let t ← m.peek? .stream
    if Cursor.isBoundary t.kind then return m
    else do
      let behind ← m.consume? .stream
      recoverUpTo turns behind

/-- Skips to the next reserved word or end of input. -/
def recover? (m : Session) : Option Session := recoverUpTo m.turns m

end Session

namespace DeclClause

/-- Reads a variable behind its reserved word. -/
def runBinding? (mode : Reduction) (head : DeclHead) (binding : Binding) (m : Session) :
    Option (Option Decl × Session) := do
  let found ← m.name? .binding
  match found.1 with
  | none => some (none, found.2)
  | some name =>
    let decl (init : Option Expr) (stop : Span) : Decl :=
      ⟨.binding binding name init, head.exported, head.declared, head.start.merge stop⟩
    if head.declared then some (some (decl none name.span), found.2)
    else do
      let t ← found.2.peek? .stream
      if t.kind = .symbol .equals then do
        let behind ← found.2.consume? .stream
        let init ← Chain.run? mode .statement behind
        return (some (decl (some init.1.1) init.1.1.span), init.2)
      else
        return (none, found.2.record [⟨.equalsExpected t.kind, t.span⟩])

/-- Reads a function behind its reserved word. -/
def runFunction? (head : DeclHead) (m : Session) : Option (Option Decl × Session) := do
  let found ← m.name? .function
  match found.1 with
  | none => some (none, found.2)
  | some name =>
    let decl (params : List Identifier) (stop : Span) : Decl :=
      ⟨.function name params, head.exported, head.declared, head.start.merge stop⟩
    let t ← found.2.peek? .stream
    if t.kind = .symbol .openParen then do
      let behind ← found.2.consume? .stream
      let params ← behind.params?
      return (params.1.map fun r => decl r.1 r.2, params.2)
    else
      return (some (decl [] name.span), found.2)

/-- Reads a declaration. -/
def run? (mode : Reduction) (m : Session) : Option (Option Decl × Session) := do
  let start ← m.peek? .stream
  let exported ← m.accept? .exporting
  let declared ← exported.2.accept? .declaring
  let head : DeclHead := ⟨start.span, exported.1, declared.1⟩
  let next ← declared.2.next? .stream
  match next.1.kind with
  | .keyword .val => runBinding? mode head .val next.2
  | .keyword .var => runBinding? mode head .var next.2
  | .keyword .fn => runFunction? head next.2
  | kind => some (none, next.2.record [⟨.statementExpected kind, next.1.span⟩])

end DeclClause

/-- Reads a statement. -/
def Clause.run? (mode : Reduction) (m : Session) : Option (Option Stmt × Session) := do
  let t ← m.peek? .stream
  match t.kind with
  | .keyword .returning => do
    let behind ← m.consume? .stream
    let following ← behind.peek? .stream
    if (TerminatorKind.ofKind? following.kind).isSome || following.kind.startsStatement then
      return (some (.ret none t.span), behind)
    else do
      let arg ← Chain.run? mode .statement behind
      return (some (.ret (some arg.1.1) (t.span.merge arg.1.1.span)), arg.2)
  | .keyword _ => do
    let decl ← DeclClause.run? mode m
    return (decl.1.map fun d => .decl d d.span, decl.2)
  | kind => some (none, m.record [⟨.statementExpected kind, t.span⟩])

namespace Attempt

/-- Reads statements up to an end of input, in at most so many turns. They are put
behind those that were read before. Behind one that fails, tokens are skipped to the
next reserved word. -/
def runUpTo (mode : Reduction) : Nat → List Stmt → Session → Option (List Stmt × Session)
  | 0, _, _ => none
  | turns + 1, stmts, m => do
    let t ← m.peek? .stream
    if t.kind = .eof then return (stmts, m)
    else do
      let read ← Clause.run? mode m
      match read.1 with
      | some stmt => runUpTo mode turns (stmts ++ [stmt]) read.2
      | none => do
        let behind ← read.2.recover?
        runUpTo mode turns stmts behind

/-- Reads statements up to an end of input. -/
def run? (mode : Reduction) (m : Session) : Option (List Stmt × Session) :=
  runUpTo mode m.turns [] m

end Attempt

/-! ### Names and words -/

/-- What a reader gives that may give up: a value, or no value and its issue. -/
def Outcome.ofRead {α : Type} : Except Issue α × Cursor → Outcome (Option α)
  | (.ok a, d) => ⟨some a, [], d⟩
  | (.error issue, d) => ⟨none, [issue], d⟩

section
variable {α : Type} {tokens : Array Token} {c d : Cursor}

/-- Nothing is recorded if there are no issues. -/
theorem Outcome.inSession_nil (a : α) (issues : List Issue) :
    inSession tokens issues ⟨a, [], d⟩ = (a, d.session tokens issues) := by
  rw [inSession, List.append_nil]

/-- A reader that gave something records nothing. -/
@[simp] theorem Outcome.inSession_ok (a : α) (issues : List Issue) :
    (ofRead (.ok a, d)).inSession tokens issues = (some a, d.session tokens issues) :=
  inSession_nil (some a) issues

/-- A reader that gave up records its one issue behind the others. -/
@[simp] theorem Outcome.inSession_error (issue : Issue) (issues : List Issue) :
    (ofRead (α := α) (.error issue, d)).inSession tokens issues
      = (none, d.session tokens (issues ++ [issue])) := rfl

namespace Cursor

variable (hc : c.In tokens) (issues : List Issue)
include hc

/-- The bound on turns is one more than there are tokens to pass. -/
theorem In.turns_session : (c.session tokens issues).turns = c.remaining + 1 := by
  have hsize := hc.size_eq
  show tokens.size - c.position = c.ahead.length + 1
  omega

/-- A word is accepted by looking at the current token. -/
theorem In.accept?_session (word : Keyword) :
    (c.session tokens issues).accept? word
      = some ((c.accept word).1, (c.accept word).2.session tokens issues) := by
  simp only [Session.accept?, accept, hc.peek?_session, hc.consume?_session, Option.bind_eq_bind,
    Option.bind_some]
  split <;> rfl

/-- A name is read by looking at the current token. Any token in its place is passed as
well. -/
theorem In.name?_session (place : NamePlace) :
    (c.session tokens issues).name? place
      = some ((Outcome.ofRead (c.readName place)).inSession tokens issues) := by
  simp only [Session.name?, readName, hc.next?_session, Option.bind_eq_bind, Option.bind_some]
  cases (c.peek .stream).kind with
  | identifier name => simp
  | _ => rfl

end Cursor

end

namespace Cursor

variable {tokens : Array Token}

/-- Looking at a stream with a token ahead shows the token. -/
theorem peek_stream_cons (t : Token) (rest : List Token) (finish : Span) (position : Nat) :
    peek .stream ⟨t :: rest, finish, position⟩ = t := rfl

/-- Advancing in a stream with a token ahead passes the token. -/
theorem advance_stream_cons (t : Token) (rest : List Token) (finish : Span) (position : Nat) :
    advance .stream ⟨t :: rest, finish, position⟩ = ⟨rest, finish, position + 1⟩ := rfl

/-- A turn of the loop that finds a name. -/
theorem names?_of_identifier {issues : List Issue} {t : Token} {ahead : List Token}
    {finish : Span} {position : Nat} {name : String}
    (hc : In tokens ⟨t :: ahead, finish, position⟩) (hk : t.kind = .identifier name)
    (turns : Nat) :
    Session.names? (turns + 1) (session tokens issues ⟨t :: ahead, finish, position⟩)
      = (let c : Cursor := ⟨ahead, finish, position + 1⟩
        let u := c.peek .stream
        let behind := (c.advance .stream).session tokens issues
        match u.kind with
        | .symbol .comma => do
          let rest ← Session.names? turns behind
          return (rest.1.map fun r => (⟨name, t.span⟩ :: r.1, r.2), rest.2)
        | .symbol .closeParen => some (some ([⟨name, t.span⟩], u.span), behind)
        | kind => some (none, behind.record [⟨.delimiterExpected kind, u.span⟩])) := by
  have hname : readName .parameter ⟨t :: ahead, finish, position⟩
      = (.ok ⟨name, t.span⟩, ⟨ahead, finish, position + 1⟩) := by
    simp only [readName, peek_stream_cons, advance_stream_cons, hk]
  have hnext : In tokens ⟨ahead, finish, position + 1⟩ := hc.reaches (reaches_advance .stream _)
  simp only [Session.names?, hc.name?_session, hname, Outcome.inSession_ok, hnext.next?_session,
    Option.bind_eq_bind, Option.bind_some]

/-- The loop takes as many turns as the recursion takes steps. -/
theorem names?_session (issues : List Issue) (finish : Span) (ahead : List Token)
    (position : Nat) (hc : In tokens ⟨ahead, finish, position⟩) (turns : Nat)
    (hturns : ahead.length ≤ turns) :
    Session.names? (turns + 1) (session tokens issues ⟨ahead, finish, position⟩)
      = some ((Outcome.ofRead (readNames finish ahead position)).inSession tokens issues) := by
  fun_induction readNames finish ahead position generalizing turns with
  | case1 position =>
    simp only [Session.names?, hc.name?_session, Option.bind_eq_bind, Option.bind_some]
    rfl
  | case2 t position name hk =>
    rw [names?_of_identifier hc hk]
    rfl
  | case3 t position name hk u rest hu names close d hd ih
  | case4 t position name hk u rest hu issue d hd ih =>
    -- Behind the comma there are two tokens less, and one turn less.
    have hrest : In tokens ⟨rest, finish, position + 2⟩ :=
      (hc.reaches (reaches_advance .stream _)).reaches (reaches_advance .stream _)
    rw [names?_of_identifier hc hk]
    simp only [peek_stream_cons, advance_stream_cons, hu]
    cases turns with
    | zero => exact absurd hturns (Nat.not_succ_le_zero _)
    | succ turns =>
      have hloop := ih hrest turns (by rw [List.length_cons, List.length_cons] at hturns; omega)
      rw [hloop, hd]
      rfl
  | case5 t position name hk u rest hu =>
    rw [names?_of_identifier hc hk]
    simp only [peek_stream_cons, advance_stream_cons, hu, Outcome.inSession_ok]
  | case6 t position name hk u rest hcomma hclose =>
    rw [names?_of_identifier hc hk]
    simp only [peek_stream_cons, advance_stream_cons, Outcome.inSession_error]
    rfl
  | case7 t rest position hk =>
    have hname : readName .parameter ⟨t :: rest, finish, position⟩
        = (.error ⟨.nameExpected .parameter t.kind, t.span⟩, ⟨rest, finish, position + 1⟩) := by
      simp only [readName, peek_stream_cons, advance_stream_cons]
    simp only [Session.names?, hc.name?_session, hname, Outcome.inSession_error,
      Option.bind_eq_bind, Option.bind_some]

/-- Where nothing is ahead, the end of input is next. -/
theorem kind_peek_of_remaining {c : Cursor} (h : c.remaining = 0) :
    (c.peek .stream).kind = .eof := by
  rw [peek, List.length_eq_zero_iff.mp h]
  rfl

/-- Recovery stops at a boundary. -/
theorem recover_of_boundary {c : Cursor} (h : isBoundary (c.peek .stream).kind = true) :
    c.recover.2 = c := by
  obtain ⟨_ | ⟨t, rest⟩, finish, position⟩ := c
  · rfl
  · have ht : isBoundary t.kind = true := h
    simp [recover, ht]

/-- Recovery passes any other token, and goes on behind it. -/
theorem recover_of_not_boundary {c : Cursor} (h : isBoundary (c.peek .stream).kind = false) :
    c.recover.2 = (c.advance .stream).recover.2 := by
  obtain ⟨_ | ⟨t, rest⟩, finish, position⟩ := c
  · rfl
  · have ht : isBoundary t.kind = false := h
    simp [recover, advance_stream_cons, ht, Nat.add_assoc, Nat.add_comm 1]

variable {c : Cursor} (hc : c.In tokens) (issues : List Issue)
include hc

/-- The parenthesis, and then the loop over names. -/
theorem In.params?_session :
    (c.session tokens issues).params?
      = some ((Outcome.ofRead c.readParams).inSession tokens issues) := by
  simp only [Session.params?, readParams, hc.peek?_session, hc.consume?_session,
    hc.turns_session, Option.bind_eq_bind, Option.bind_some]
  split
  · simp only [Outcome.inSession_ok]
    rfl
  · exact names?_session issues c.finish c.ahead c.position hc c.remaining (Nat.le_refl _)

/-- Tokens are skipped one at a time, and nothing is recorded. -/
theorem In.recoverUpTo_session (turns : Nat) (hturns : c.remaining ≤ turns) :
    Session.recoverUpTo (turns + 1) (c.session tokens issues)
      = some (c.recover.2.session tokens issues) := by
  induction turns generalizing c with
  | zero =>
    -- Nothing is left, so the end is next, and that is a boundary.
    have heof := kind_peek_of_remaining (Nat.le_zero.mp hturns)
    have hboundary : isBoundary (c.peek .stream).kind = true := by
      rw [heof]
      rfl
    simp only [Session.recoverUpTo, hc.peek?_session, Option.bind_eq_bind, Option.bind_some,
      if_pos hboundary, recover_of_boundary hboundary]
    rfl
  | succ turns ih =>
    rw [Session.recoverUpTo]
    simp only [hc.peek?_session, Option.bind_eq_bind, Option.bind_some]
    cases hboundary : isBoundary (c.peek .stream).kind with
    | true =>
      rw [recover_of_boundary hboundary]
      rfl
    | false =>
      have hne : (c.peek .stream).kind ≠ .eof := fun heof => by
        rw [heof] at hboundary
        cases hboundary
      have hlt := remaining_advance_lt hne
      rw [recover_of_not_boundary hboundary, hc.consume?_session]
      exact ih (hc.reaches (reaches_advance .stream c)) (by omega)

/-- By induction on the tokens ahead, each of which takes one turn of the loop. -/
theorem In.recover?_session :
    (c.session tokens issues).recover? = some (c.recover.2.session tokens issues) := by
  rw [Session.recover?, hc.turns_session]
  exact hc.recoverUpTo_session issues c.remaining (Nat.le_refl _)

end Cursor

/-! ### Statements -/

section
variable {tokens : Array Token} {c : Cursor} (mode : Reduction)

namespace DeclClause

/-- A declaration that gives up has recorded why. One that goes on to an initializer
leaves its session to it. -/
theorem runBinding?_session (head : DeclHead) (binding : Binding) (hc : c.In tokens)
    (issues : List Issue) :
    runBinding? mode head binding (c.session tokens issues)
      = some ((parseBinding mode head binding c).inSession tokens issues) := by
  have hname := hc.reaches (Cursor.reaches_readName .binding c)
  simp only [runBinding?, parseBinding, hc.name?_session, Option.bind_eq_bind, Option.bind_some]
  rcases hread : c.readName .binding with ⟨issue | name, d⟩
  · rfl
  · rw [hread] at hname
    have hinit := hname.reaches (Cursor.reaches_advance .stream d)
    simp only [Outcome.inSession_ok, hname.peek?_session, hname.consume?_session, Option.bind_some,
      Chain.run?_session mode .statement hinit]
    split
    · rw [Outcome.inSession_nil]
    · split <;> rfl

/-- A function is a name and parameters, and each of them is run in place. -/
theorem runFunction?_session (head : DeclHead) (hc : c.In tokens) (issues : List Issue) :
    runFunction? head (c.session tokens issues)
      = some ((parseFunction head c).inSession tokens issues) := by
  have hname := hc.reaches (Cursor.reaches_readName .function c)
  simp only [runFunction?, parseFunction, hc.name?_session, Option.bind_eq_bind, Option.bind_some]
  rcases hread : c.readName .function with ⟨issue | name, d⟩
  · rfl
  · rw [hread] at hname
    have hparams := hname.reaches (Cursor.reaches_advance .stream d)
    simp only [Outcome.inSession_ok, hname.peek?_session, hname.consume?_session, Option.bind_some,
      hparams.params?_session]
    split
    · rcases (d.advance .stream).readParams with ⟨issue | ⟨params, close⟩, e⟩
      · rfl
      · rw [Outcome.inSession_ok, Outcome.inSession_nil]
        rfl
    · rw [Outcome.inSession_nil]
      rfl

/-- In place, a declaration is what it is when its initializer is folded on the way. -/
theorem run?_session (hc : c.In tokens) (issues : List Issue) :
    run? mode (c.session tokens issues) = some ((parse mode c).inSession tokens issues) := by
  have hexported := hc.reaches (Cursor.reaches_accept .exporting c)
  have hdeclared := hexported.reaches (Cursor.reaches_accept .declaring _)
  have hbehind := hdeclared.reaches (Cursor.reaches_advance .stream _)
  simp only [run?, parse, hc.peek?_session, hc.accept?_session, hexported.accept?_session,
    hdeclared.next?_session, Option.bind_eq_bind, Option.bind_some]
  cases (((c.accept .exporting).2.accept .declaring).2.peek .stream).kind with
  | keyword word =>
    cases word with
    | val => exact runBinding?_session mode _ .val hbehind issues
    | var => exact runBinding?_session mode _ .var hbehind issues
    | fn => exact runFunction?_session _ hbehind issues
    | _ => rfl
  | _ => rfl

end DeclClause

namespace Clause

/-- In place, a statement is what it is when its expression is folded on the way. -/
theorem run?_session (hc : c.In tokens) (issues : List Issue) :
    run? mode (c.session tokens issues) = some ((parse mode c).inSession tokens issues) := by
  have hbehind := hc.reaches (Cursor.reaches_advance .stream c)
  simp only [run?, parse, hc.peek?_session, hc.consume?_session, hbehind.peek?_session,
    Chain.run?_session mode .statement hbehind, DeclClause.run?_session mode hc,
    Option.bind_eq_bind, Option.bind_some]
  cases (c.peek .stream).kind with
  | keyword word =>
    cases word with
    | returning =>
      dsimp only
      split
      · rw [Outcome.inSession_nil]
        rfl
      · rfl
    | _ => rfl
  | _ => rfl

end Clause

end

/-! ### Programs -/

/-- The attempts to read the statements of a program, from one session to another: what
each call has given, and the issues that it has added. -/
inductive Attempts (mode : Reduction) :
    Session → List (Option Stmt × List Issue) → Session → Prop
  /-- At an end of input there is no further attempt. -/
  | stop {m : Session} {t : Token} (ht : m.peek? .stream = some t) (heof : t.kind = .eof) :
    Attempts mode m [] m
  /-- Behind a statement the next one is tried. -/
  | read {m behind e : Session} {t : Token} {stmt : Stmt} {added : List Issue}
    {rest : List (Option Stmt × List Issue)} (ht : m.peek? .stream = some t)
    (hne : t.kind ≠ .eof) (hread : Clause.run? mode m = some (some stmt, behind))
    (hadded : behind.issues = m.issues ++ added) (hrest : Attempts mode behind rest e) :
    Attempts mode m ((some stmt, added) :: rest) e
  /-- Behind a failed attempt tokens are skipped first. -/
  | failed {m failed behind e : Session} {t : Token} {added : List Issue}
    {rest : List (Option Stmt × List Issue)} (ht : m.peek? .stream = some t)
    (hne : t.kind ≠ .eof) (hread : Clause.run? mode m = some (none, failed))
    (hadded : failed.issues = m.issues ++ added) (hskip : failed.recover? = some behind)
    (hrest : Attempts mode behind rest e) :
    Attempts mode m ((none, added) :: rest) e

section
variable {mode : Reduction}

/-- The loop makes the attempts, and keeps the statements of those that do not fail. -/
theorem Attempts.runUpTo_eq {m e : Session} {attempts : List (Option Stmt × List Issue)}
    (h : Attempts mode m attempts e) (turns : Nat) (hturns : attempts.length ≤ turns)
    (stmts : List Stmt) :
    Attempt.runUpTo mode (turns + 1) stmts m
      = some (stmts ++ attempts.filterMap Prod.fst, e) := by
  -- On the attempts. Each turn of the loop appends to the statements so far.
  induction h generalizing turns stmts with
  | stop ht heof =>
    simp [Attempt.runUpTo, ht, heof]
  | read ht hne hread hadded hrest ih =>
    cases turns with
    | zero => exact absurd hturns (Nat.not_succ_le_zero _)
    | succ turns =>
      rw [Attempt.runUpTo]
      simp [ht, hne, hread, ih turns (Nat.le_of_succ_le_succ hturns)]
  | failed ht hne hread hadded hskip hrest ih =>
    cases turns with
    | zero => exact absurd hturns (Nat.not_succ_le_zero _)
    | succ turns =>
      rw [Attempt.runUpTo]
      simp [ht, hne, hread, hskip, ih turns (Nat.le_of_succ_le_succ hturns)]

end

namespace Attempt

/-- What an attempt has given, and what it has added. -/
def result (mode : Reduction) (a : Attempt) : Option Stmt × List Issue :=
  (a.toStmt? mode, a.issues)

variable {tokens : Array Token} {c : Cursor} (mode : Reduction)

/-- The attempts of a cursor are those that are made in place, and there are no more of
them than tokens. -/
theorem attempts_readUpTo (fuel : Nat) (hfuel : c.remaining ≤ fuel) (hc : c.In tokens)
    (issues : List Issue) :
    Attempts mode (c.session tokens issues) ((readUpTo fuel c).1.map (result mode))
        ((readUpTo fuel c).2.session tokens
          (issues ++ (readUpTo fuel c).1.flatMap Attempt.issues)) ∧
      (readUpTo fuel c).1.length ≤ fuel := by
  induction fuel generalizing c issues with
  | zero =>
    simp only [readUpTo, List.map_nil, List.flatMap_nil, List.append_nil]
    exact ⟨.stop (hc.peek?_session .stream)
      (Cursor.kind_peek_of_remaining (Nat.le_zero.mp hfuel)), Nat.le_refl _⟩
  | succ fuel ih =>
    unfold readUpTo
    split
    · rename_i heof
      simp only [List.map_nil, List.flatMap_nil, List.append_nil]
      exact ⟨.stop (hc.peek?_session .stream) heof, Nat.zero_le _⟩
    · rename_i hne
      -- The attempt takes a token, so the bound is enough for those behind it.
      have hleft : (readOne c).2.remaining ≤ fuel :=
        Nat.le_of_lt_succ (Nat.lt_of_lt_of_le (remaining_readOne_lt hne) hfuel)
      have hclause := Clause.run?_session mode hc issues
      rw [Clause.parse_eq] at hclause
      rcases hone : readOne c with ⟨attempt, e⟩
      rw [hone] at hleft
      cases readsOne hone with
      | @read r d hread =>
        have hbehind := hc.reaches (Clause.reaches_read hread)
        rw [hread] at hclause
        obtain ⟨hrest, hlength⟩ := ih hleft hbehind (issues ++ r.issues)
        rw [List.append_assoc] at hrest
        exact ⟨.read (hc.peek?_session .stream) hne hclause rfl hrest,
          Nat.succ_le_succ hlength⟩
      | @failed issue d hread =>
        have hbehind := hc.reaches (Clause.reaches_read hread)
        rw [hread] at hclause
        obtain ⟨hrest, hlength⟩ := ih hleft (hbehind.reaches (Cursor.reaches_recover d))
          (issues ++ [issue])
        rw [List.append_assoc] at hrest
        exact ⟨.failed (hc.peek?_session .stream) hne hclause rfl
          (hbehind.recover?_session (issues ++ [issue])) hrest, Nat.succ_le_succ hlength⟩

/-- In place, a program is its attempts: the statements of those that do not fail, with
the issues of all. -/
theorem run?_session (hc : c.In tokens) (issues : List Issue) :
    run? mode (c.session tokens issues)
      = some ((readAll c).1.filterMap (toStmt? mode),
          (readAll c).2.session tokens (issues ++ (readAll c).1.flatMap Attempt.issues)) := by
  -- The loop is compared with the attempts alone, and they with those of the cursor.
  obtain ⟨hattempts, hlength⟩ :=
    attempts_readUpTo mode c.remaining (Nat.le_refl _) hc issues
  rw [run?, hc.turns_session, hattempts.runUpTo_eq c.remaining (by rwa [List.length_map]) [],
    List.filterMap_map]
  rfl

end Attempt

end ExprFrontEnd
