import ExprFrontEnd.Proofs.Truncation

/-!
# `ExprFrontEnd.Proofs.Session`: a vector of tokens and an index into it

A cursor holds the tokens that are still ahead, so it can never be out of
bounds. A reader that works in place has all tokens in a vector, the index of the
next one, and the list of the issues that were recorded so far. This is a
`Session`. Its operations may fail: taking one from the length of a vector does
if the vector is empty, and looking up a token does behind the last one. Each of
them is checked here, and gives `none` where it is out of its domain.

* `Token.vector`: a list of tokens, closed by an end of input.
* `Cursor.In`: the vector holds the tokens that were passed, those ahead of the
  cursor, and the final end. This is the invariant: there is always a token at
  the index.
* `Cursor.In.next?_session`: so no operation fails, and each of them does what
  it does to the cursor.
* `Session.answerAll?_vector`: this is kept up by any row of calls, in any
  scopes, from every place in the vector of every list of tokens.
-/

set_option autoImplicit false

namespace ExprFrontEnd

/-- What readers work on: tokens, the index of the next one, and the issues that
were recorded so far. -/
structure Session where
  tokens : Array Token
  index : Nat
  issues : List Issue
  deriving DecidableEq, Repr

/-- A list of tokens as a vector. If the last one is no end of input, one is added
right behind it. -/
def Token.vector (tokens : List Token) : Array Token :=
  match tokens.getLast? with
  | none => #[.eofAt (.empty 0)]
  | some last =>
    if last.kind = .eof then tokens.toArray
    else tokens.toArray.push (.eofAt (.empty last.span.stop))

namespace Session

/-- The index of the last token. There is none in an empty vector. -/
def last? (m : Session) : Option Nat :=
  if m.tokens.size = 0 then none else some (m.tokens.size - 1)

/-- The token at the index, or the last one if the index is behind it. -/
def current? (m : Session) : Option Token := do
  let last ← m.last?
  m.tokens[min m.index last]?

/-- Moves to the next token. The last one is not passed. -/
def pass? (m : Session) : Option Session := do
  let last ← m.last?
  return if m.index < last then { m with index := m.index + 1 } else m

/-- The next token in a scope. -/
def peek? (s : Scope) (m : Session) : Option Token := do
  let t ← m.current?
  return if s.bars t.kind then .eofAt (.empty t.span.start) else t

/-- Passes the next token, unless it is out of scope. -/
def consume? (s : Scope) (m : Session) : Option Session := do
  let t ← m.current?
  if s.bars t.kind then return m else m.pass?

/-- The next token in a scope, which is passed. -/
def next? (s : Scope) (m : Session) : Option (Token × Session) := do
  let t ← m.peek? s
  let m ← m.consume? s
  return (t, m)

/-- Records further issues. -/
def record (issues : List Issue) (m : Session) : Session :=
  { m with issues := m.issues ++ issues }

/-- The answer to a call, and the session behind it. -/
def answer? (s : Scope) (m : Session) : Cursor.Call → Option (Option Token × Session)
  | .peek => do
    let t ← m.peek? s
    return (some t, m)
  | .next => do
    let r ← m.next? s
    return (some r.1, r.2)
  | .consume => do
    let m ← m.consume? s
    return (none, m)

/-- The answers to calls one after the other, each in a scope of its own, and the
session behind them. -/
def answerAll? : List (Scope × Cursor.Call) → Session → Option (List (Option Token) × Session)
  | [], m => some ([], m)
  | call :: calls, m => do
    let first ← m.answer? call.1 call.2
    let rest ← answerAll? calls first.2
    return (first.1 :: rest.1, rest.2)

end Session

/-! ### Places of a session -/

/-- The vector of a list holds the tokens of its stream and the final end. -/
theorem Token.toList_vector (tokens : List Token) :
    (vector tokens).toList
      = (Cursor.ofTokens tokens).ahead ++ [.eofAt (Cursor.ofTokens tokens).finish] := by
  rcases List.eq_nil_or_concat tokens with rfl | ⟨front, last, rfl⟩
  · rfl
  · by_cases hk : last.kind = .eof
    · -- The end of input that closes the list is the final one.
      have hend : Token.eofAt last.span = last := by rw [eofAt, ← hk]
      simp [vector, Cursor.ofTokens, hk, hend]
    · simp [vector, Cursor.ofTokens, hk]

/-- It is never empty. -/
theorem Token.size_vector_pos (tokens : List Token) : 0 < (vector tokens).size := by
  rw [← Array.length_toList, toList_vector, List.length_append]
  exact Nat.succ_pos _

/-- The session at a cursor. -/
def Cursor.session (tokens : Array Token) (issues : List Issue) (c : Cursor) : Session :=
  ⟨tokens, c.position, issues⟩

/-- A vector holds the tokens that were passed on the way to a cursor, those
ahead, and the final end. -/
def Cursor.In (tokens : Array Token) (c : Cursor) : Prop :=
  ∃ passed : List Token, passed.length = c.position ∧
    tokens.toList = passed ++ (c.ahead ++ [.eofAt c.finish])

namespace Cursor

variable {tokens : Array Token} {issues : List Issue} {c d : Cursor}

/-- There is a token at the index. -/
theorem In.size_eq (h : c.In tokens) : tokens.size = c.position + c.ahead.length + 1 := by
  obtain ⟨passed, hpos, hlist⟩ := h
  rw [← Array.length_toList, hlist]
  simp only [List.length_append, List.length_singleton, hpos]
  omega

/-- The tokens that were passed are in the vector as well, so moving on stays in it. -/
theorem In.reaches (h : c.In tokens) (hd : c.Reaches d) : d.In tokens := by
  obtain ⟨passed, hpos, hlist⟩ := h
  obtain ⟨⟨ts, hts, hposd⟩, hfinish⟩ := hd
  refine ⟨passed ++ ts, ?_, ?_⟩
  · simp [hpos, hposd]
  · simp [hlist, hts, hfinish]

/-- The start of a stream is the first place in the vector of its list. -/
theorem in_ofTokens (tokens : List Token) : (ofTokens tokens).In (Token.vector tokens) :=
  ⟨[], (position_ofTokens tokens).symm, Token.toList_vector tokens⟩

/-- What is further on in a list is so in its vector. -/
theorem in_skip (tokens : List Token) (n : Nat) :
    ((ofTokens tokens).skip n).In (Token.vector tokens) :=
  (in_ofTokens tokens).reaches (reaches_skip n _)

/-- Every index of the vector of a list is a place in its stream. -/
theorem in_vector (tokens : List Token) (i : Fin (Token.vector tokens).size) :
    let c := (ofTokens tokens).skip i
    c.In (Token.vector tokens) ∧ c.position = i := by
  intro c
  refine ⟨in_skip tokens i, ?_⟩
  have hstart := position_ofTokens tokens
  have hsize := (in_ofTokens tokens).size_eq
  have hi := i.isLt
  have hposition : c.position
      = (ofTokens tokens).position + min i.val (ofTokens tokens).ahead.length :=
    congrArg position (skip_eq i _)
  omega

/-- The session at an index of the vector is that of a cursor. -/
theorem session_vector (tokens : List Token) (i : Fin (Token.vector tokens).size)
    (issues : List Issue) :
    Session.mk (Token.vector tokens) i issues
      = ((ofTokens tokens).skip i).session (Token.vector tokens) issues := by
  obtain ⟨-, hposition⟩ := in_vector tokens i
  rw [session, hposition]

section
variable (h : c.In tokens) (s : Scope)
include h

/-- The last place of the vector is the final end, behind all tokens ahead. -/
theorem In.last?_session :
    (c.session tokens issues).last? = some (c.position + c.ahead.length) := by
  rw [Session.last?]
  simp [session, h.size_eq]

/-- Looking at the current token never leaves the vector, since the end is in it. -/
theorem In.current?_session : (c.session tokens issues).current? = some (c.peek .stream) := by
  rw [Session.current?, h.last?_session]
  obtain ⟨passed, hpos, hlist⟩ := h
  have hmin : min c.position (c.position + c.ahead.length) = passed.length := by omega
  simp only [session, Option.bind_eq_bind, Option.bind_some, hmin]
  rw [← Array.getElem?_toList, hlist, List.getElem?_append_right (Nat.le_refl _), Nat.sub_self]
  unfold peek
  cases c.ahead with
  | nil => rfl
  | cons t rest => simp [Scope.bars]

/-- A session sees what its cursor sees. -/
theorem In.peek?_session : (c.session tokens issues).peek? s = some (c.peek s) := by
  rw [Session.peek?, h.current?_session]
  obtain ⟨ahead, finish, position⟩ := c
  cases ahead with
  | nil => cases s <;> rfl
  | cons t rest => rfl

/-- Passing a token stays in front of the end or at it. -/
theorem In.pass?_session :
    (c.session tokens issues).pass? = some ((c.advance .stream).session tokens issues) := by
  rw [Session.pass?, h.last?_session]
  obtain ⟨ahead, finish, position⟩ := c
  cases ahead with
  | nil => simp [session, advance]
  | cons t rest => simp [session, advance, Scope.bars]

/-- A session passes what its cursor passes. -/
theorem In.consume?_session :
    (c.session tokens issues).consume? s = some ((c.advance s).session tokens issues) := by
  have hpass : (c.session tokens issues).pass? = _ := h.pass?_session
  rw [Session.consume?, h.current?_session]
  obtain ⟨ahead, finish, position⟩ := c
  cases ahead with
  | nil => cases s <;> exact hpass
  | cons t rest =>
    show (if s.bars t.kind = true then some _ else _)
      = some (Cursor.session _ _ (if _ then _ else _))
    split
    · rfl
    · exact hpass

/-- In a statement a reserved word is shown as an end and not passed, as the cursor has it. -/
theorem In.next?_session :
    (c.session tokens issues).next? s
      = some (c.peek s, (c.advance s).session tokens issues) := by
  rw [Session.next?, h.peek?_session, Option.bind_eq_bind, Option.bind_some, h.consume?_session]
  rfl

/-- Every call succeeds, and is answered as the cursor answers it. -/
theorem In.answer?_session (call : Call) :
    (c.session tokens issues).answer? s call
      = some ((c.answer s call).1, (c.answer s call).2.session tokens issues) := by
  cases call with
  | peek => simp [Session.answer?, h.peek?_session, answer]
  | next => simp [Session.answer?, h.next?_session, answer, next]
  | consume => simp [Session.answer?, h.consume?_session, answer]

end

/-- So does a row of calls, in any scopes. -/
theorem In.answerAll?_session (h : c.In tokens) (issues : List Issue)
    (calls : List (Scope × Call)) :
    ∃ (answers : List (Option Token)) (d : Cursor), d.In tokens ∧
      (c.session tokens issues).answerAll? calls = some (answers, d.session tokens issues) := by
  induction calls generalizing c with
  | nil => exact ⟨[], c, h, rfl⟩
  | cons call calls ih =>
    have hnext : (c.answer call.1 call.2).2.In tokens := h.reaches (reaches_answer call.1 call.2 c)
    obtain ⟨answers, d, hd, hrest⟩ := ih hnext
    refine ⟨(c.answer call.1 call.2).1 :: answers, d, hd, ?_⟩
    simp [Session.answerAll?, h.answer?_session, hrest]

end Cursor

/-- **No call is out of bounds**: from every index into the vector of a list of
tokens, and be the list empty, each row of calls is answered, and leads to an
index into the same vector. -/
theorem Session.answerAll?_vector (tokens : List Token) (i : Fin (Token.vector tokens).size)
    (issues : List Issue) (calls : List (Scope × Cursor.Call)) :
    ∃ (answers : List (Option Token)) (j : Fin (Token.vector tokens).size),
      answerAll? calls ⟨Token.vector tokens, i, issues⟩
        = some (answers, ⟨Token.vector tokens, j, issues⟩) := by
  obtain ⟨hin, -⟩ := Cursor.in_vector tokens i
  obtain ⟨answers, d, hd, hcalls⟩ := hin.answerAll?_session issues calls
  have hlt : d.position < (Token.vector tokens).size := by
    have := hd.size_eq
    omega
  rw [← Cursor.session_vector] at hcalls
  exact ⟨answers, ⟨d.position, hlt⟩, hcalls⟩

end ExprFrontEnd
