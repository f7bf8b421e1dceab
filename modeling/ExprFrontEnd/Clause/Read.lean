import ExprFrontEnd.Chain.Read
import ExprFrontEnd.Clause

/-!
# `ExprFrontEnd.Clause.Read`: reading statements

```text
Statement   = Declaration | return [Expression]
Declaration = [export] [declare] (val | var) name [= Expression]
            | [export] [declare] fn name ["(" [name ("," name)*] ")"]
```

A reader of a statement gives a clause or the issue that made it give up, and in both cases the
cursor behind the tokens that it took. `Attempt.readAll` reads a whole program: behind a failed
statement it skips to the next reserved word. Every attempt takes a token, so there are no more
attempts than tokens.
-/

set_option autoImplicit false

namespace ExprFrontEnd

namespace Cursor

/-- Takes a reserved word if it is next. -/
def accept (word : Keyword) (c : Cursor) : Bool × Cursor :=
  if (c.peek .stream).kind = .keyword word then (true, c.advance .stream) else (false, c)

/-- Takes the next token, which should be a name. -/
def readName (place : NamePlace) (c : Cursor) : Except Issue Identifier × Cursor :=
  let t := c.peek .stream
  let d := c.advance .stream
  match t.kind with
  | .identifier name => (.ok ⟨name, t.span⟩, d)
  | kind => (.error ⟨.nameExpected place kind, t.span⟩, d)

/-- Reads names with commas between them up to the closing parenthesis, whose place comes with them.
The arguments are the parts of a cursor. -/
def readNames (finish : Span) :
    List Token → Nat → Except Issue (List Identifier × Span) × Cursor
  | [], position => (.error ⟨.nameExpected .parameter .eof, finish⟩, ⟨[], finish, position⟩)
  | t :: rest, position =>
    match t.kind with
    | .identifier name =>
      match rest with
      | [] => (.error ⟨.delimiterExpected .eof, finish⟩, ⟨[], finish, position + 1⟩)
      | u :: rest =>
        match u.kind with
        | .symbol .comma =>
          match readNames finish rest (position + 2) with
          | (.ok (names, close), d) => (.ok (⟨name, t.span⟩ :: names, close), d)
          | (.error issue, d) => (.error issue, d)
        | .symbol .closeParen => (.ok ([⟨name, t.span⟩], u.span), ⟨rest, finish, position + 2⟩)
        | kind => (.error ⟨.delimiterExpected kind, u.span⟩, ⟨rest, finish, position + 2⟩)
    | kind => (.error ⟨.nameExpected .parameter kind, t.span⟩, ⟨rest, finish, position + 1⟩)

/-- Reads parameters behind their opening parenthesis. -/
def readParams (c : Cursor) : Except Issue (List Identifier × Span) × Cursor :=
  let t := c.peek .stream
  let d := c.advance .stream
  if t.kind = .symbol .closeParen then (.ok ([], t.span), d)
  else readNames c.finish c.ahead c.position

/-- Whether a token ends the skipping behind a failed statement. -/
def isBoundary (kind : TokenKind) : Bool := kind == .eof || kind.startsStatement

/-- Skips to the next reserved word or end of input, and counts the skipped tokens. -/
def recover (c : Cursor) : Nat × Cursor :=
  let skipped := c.ahead.takeWhile fun t => !isBoundary t.kind
  (skipped.length, ⟨c.ahead.drop skipped.length, c.finish, c.position + skipped.length⟩)

end Cursor

namespace DeclClause

/-- Reads a variable behind its reserved word. -/
def readBinding (head : DeclHead) (binding : Binding) (c : Cursor) :
    Except Issue DeclClause × Cursor :=
  match c.readName .binding with
  | (.error issue, d) => (.error issue, d)
  | (.ok name, d) =>
    if head.declared then (.ok (.binding head binding name none), d)
    else
      let t := d.peek .stream
      let e := d.advance .stream
      if t.kind = .symbol .equals then
        let (init, e) := Chain.read .statement e
        (.ok (.binding head binding name (some init)), e)
      else (.error ⟨.equalsExpected t.kind, t.span⟩, d)

/-- Reads a function behind its reserved word. -/
def readFunction (head : DeclHead) (c : Cursor) : Except Issue DeclClause × Cursor :=
  match c.readName .function with
  | (.error issue, d) => (.error issue, d)
  | (.ok name, d) =>
    let t := d.peek .stream
    let e := d.advance .stream
    if t.kind = .symbol .openParen then
      match e.readParams with
      | (.error issue, e) => (.error issue, e)
      | (.ok (params, close), e) => (.ok (.function head name params (some close)), e)
    else (.ok (.function head name [] none), d)

/-- Reads a declaration. -/
def read (c : Cursor) : Except Issue DeclClause × Cursor :=
  let start := (c.peek .stream).span
  let (exported, c) := c.accept .exporting
  let (declared, c) := c.accept .declaring
  let head : DeclHead := ⟨start, exported, declared⟩
  let t := c.peek .stream
  let c := c.advance .stream
  match t.kind with
  | .keyword .val => readBinding head .val c
  | .keyword .var => readBinding head .var c
  | .keyword .fn => readFunction head c
  | kind => (.error ⟨.statementExpected kind, t.span⟩, c)

end DeclClause

namespace Clause

/-- Reads a statement. A token that starts no statement is not taken. A `return` in front of a token
that ends an expression, or of the next statement, has no argument. -/
def read (c : Cursor) : Except Issue Clause × Cursor :=
  let t := c.peek .stream
  let d := c.advance .stream
  match t.kind with
  | .keyword .returning =>
    let following := (d.peek .stream).kind
    if (TerminatorKind.ofKind? following).isSome || following.startsStatement then
      (.ok (.ret t none), d)
    else
      let (arg, d) := Chain.read .statement d
      (.ok (.ret t (some arg)), d)
  | .keyword _ =>
    match DeclClause.read c with
    | (.ok declaration, d) => (.ok (.decl declaration), d)
    | (.error issue, d) => (.error issue, d)
  | kind => (.error ⟨.statementExpected kind, t.span⟩, c)

end Clause

namespace Attempt

/-- One attempt to read a statement, with recovery if it fails. -/
def readOne (c : Cursor) : Attempt × Cursor :=
  match Clause.read c with
  | (.ok clause, d) => (.read clause, d)
  | (.error issue, d) =>
    let (skipped, d) := d.recover
    (.failed issue skipped, d)

/-- The attempts up to an end of input, at most as many as `fuel` says. -/
def readUpTo : Nat → Cursor → List Attempt × Cursor
  | 0, c => ([], c)
  | fuel + 1, c =>
    if (c.peek .stream).kind = .eof then ([], c)
    else
      let (attempt, c) := readOne c
      let (rest, c) := readUpTo fuel c
      (attempt :: rest, c)

/-- The attempts up to an end of input. There are no more of them than tokens. -/
def readAll (c : Cursor) : List Attempt × Cursor := readUpTo c.remaining c

end Attempt

end ExprFrontEnd
