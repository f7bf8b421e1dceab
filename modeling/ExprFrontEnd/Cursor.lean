import ExprFrontEnd.Token

/-!
# `ExprFrontEnd.Cursor`: a place in a stream of tokens

A stream of tokens never ends: behind its last token it yields the end of input for ever. A `Cursor`
holds the tokens that are still ahead and the span of that final end, so reading past the end is not
an error and a cursor needs no invariant. An end-of-input token that is not the last one is a token
like any other.

An initializer or a returned value must not run into the next statement. `Scope` says how far a
reader may look: in the scope of a statement the next reserved word reads as the end of input, an
empty token in front of it, and is never passed.

### Main definitions

* `Cursor.ofTokens`: the start of a stream;
* `Cursor.peek`, `Cursor.advance`, `Cursor.next`: reading, in a scope.
-/

set_option autoImplicit false

namespace ExprFrontEnd

/-- How far a reader may look. -/
inductive Scope where
  /-- To the end of the stream. -/
  | stream
  /-- To the next reserved word. -/
  | statement
  deriving DecidableEq, Repr

namespace Scope

/-- Whether a token is out of bounds. -/
def bars (s : Scope) (kind : TokenKind) : Bool :=
  match s with
  | .stream => false
  | .statement => kind.startsStatement

end Scope

/-- A place in a stream of tokens. -/
structure Cursor where
  /-- The tokens from here on, without the final end of input. -/
  ahead : List Token
  /-- The span of the final end of input. -/
  finish : Span
  /-- The number of tokens that were passed. -/
  position : Nat
  deriving DecidableEq, Repr

namespace Cursor

/-- The start of a stream. If the last token is no end of input, one is added right behind it. -/
def ofTokens (tokens : List Token) : Cursor :=
  match tokens.getLast? with
  | none => ⟨[], .empty 0, 0⟩
  | some last =>
    if last.kind = .eof then ⟨tokens.dropLast, last.span, 0⟩
    else ⟨tokens, .empty last.span.stop, 0⟩

/-- No token of a stream is behind its start. -/
theorem position_ofTokens (tokens : List Token) : (ofTokens tokens).position = 0 := by
  unfold ofTokens
  split
  · rfl
  · split <;> rfl

/-- The token at the cursor. -/
def peek (s : Scope) (c : Cursor) : Token :=
  match c.ahead with
  | [] => .eofAt c.finish
  | t :: _ => if s.bars t.kind then .eofAt (.empty t.span.start) else t

/-- The cursor behind the token at the cursor. The end of the stream and the end of the scope are
never passed. -/
def advance (s : Scope) (c : Cursor) : Cursor :=
  match c.ahead with
  | [] => c
  | t :: rest => if s.bars t.kind then c else ⟨rest, c.finish, c.position + 1⟩

/-- The token at the cursor, and the cursor behind it. -/
def next (s : Scope) (c : Cursor) : Token × Cursor := (c.peek s, c.advance s)

/-- The number of tokens ahead. -/
def remaining (c : Cursor) : Nat := c.ahead.length

/-- Advancing leaves no more tokens ahead than there were. -/
theorem remaining_advance_le (s : Scope) (c : Cursor) : (c.advance s).remaining ≤ c.remaining := by
  unfold advance remaining
  split
  · exact Nat.le_refl _
  · split <;> simp_all

/-- Passing a token other than the end of input leaves fewer tokens ahead. -/
theorem remaining_advance_lt {s : Scope} {c : Cursor} (h : (c.peek s).kind ≠ .eof) :
    (c.advance s).remaining < c.remaining := by
  unfold peek at h
  unfold advance remaining
  split
  · simp_all [Token.eofAt]
  · split
    · simp_all [Token.eofAt]
    · simp_all

end Cursor

end ExprFrontEnd
