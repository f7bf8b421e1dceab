import ExprFrontEnd.Proofs.Seam
import Mathlib.Data.List.Infix

/-!
# `ExprFrontEnd.Proofs.Truncation`: the scope of a statement is a shorter stream

In the scope of a statement the next reserved word reads as the end of input
and is never passed. A reader could as well be given a stream that ends there:
the tokens in front of the reserved word, and an empty end of input at its
start. The two cursors are then at different places of different streams, but
nothing that a reader does with them tells them apart.

* `Cursor.run`: what a cursor answers to a row of calls, and where it is then.
* `Cursor.Lockstep.run`: cursors in step answer alike, whatever the calls.
* `Cursor.lockstep_truncated`: the bounded cursor and the one in the truncated
  stream are in step. Without a reserved word ahead, the bound changes nothing
  (`Cursor.lockstep_unbounded`).
* `Cursor.Lockstep.parse`: so the same expression is read at both of them, with the
  same issues.
-/

set_option autoImplicit false

namespace ExprFrontEnd

namespace Cursor

/-! ### Calls -/

/-- What a reader may ask of a cursor. -/
inductive Call where
  /-- Which token is next? -/
  | peek
  /-- The next token, which is passed. -/
  | next
  /-- Pass the next token. -/
  | consume
  deriving DecidableEq, Repr

/-- The answer to a call, and the cursor behind it. -/
def answer (s : Scope) (c : Cursor) : Call → Option Token × Cursor
  | .peek => (some (c.peek s), c)
  | .next => (some (c.next s).1, (c.next s).2)
  | .consume => (none, c.advance s)

/-- The answers to calls one after the other, and the cursor behind them. -/
def run (s : Scope) : List Call → Cursor → List (Option Token) × Cursor
  | [], c => ([], c)
  | call :: calls, c =>
    let first := c.answer s call
    let rest := run s calls first.2
    (first.1 :: rest.1, rest.2)

section
variable {s s' : Scope} {R : Cursor → Cursor → Prop}

/-- A call is answered by the next token, which is the same on both sides. -/
theorem Lockstep.answer (hR : Lockstep s s' R) {c d : Cursor} (h : R c d) (call : Call) :
    (c.answer s call).1 = (d.answer s' call).1 ∧ R (c.answer s call).2 (d.answer s' call).2 := by
  cases call with
  | peek => exact ⟨congrArg some (hR.peek h), h⟩
  | next => exact ⟨congrArg some (hR.peek h), hR.advance h⟩
  | consume => exact ⟨rfl, hR.advance h⟩

/-- Cursors that are in step give the same answers to all calls, and are in step
behind them. -/
theorem Lockstep.run (hR : Lockstep s s' R) {c d : Cursor} (h : R c d) (calls : List Call) :
    (c.run s calls).1 = (d.run s' calls).1 ∧ R (c.run s calls).2 (d.run s' calls).2 := by
  induction calls generalizing c d with
  | nil => exact ⟨rfl, h⟩
  | cons call calls ih =>
    obtain ⟨hfirst, hstep⟩ := hR.answer h call
    obtain ⟨hrest, hend⟩ := ih hstep
    refine ⟨?_, hend⟩
    show _ :: _ = _ :: _
    rw [hfirst, hrest]

end

/-- No call goes back. -/
theorem reaches_answer (s : Scope) (call : Call) (c : Cursor) : c.Reaches (c.answer s call).2 := by
  cases call with
  | peek => exact .refl c
  | next => exact reaches_advance s c
  | consume => exact reaches_advance s c

/-- Calls lead on in the stream. -/
theorem reaches_run (s : Scope) (calls : List Call) (c : Cursor) : c.Reaches (c.run s calls).2 := by
  induction calls generalizing c with
  | nil => exact .refl c
  | cons call calls ih => exact (reaches_answer s call c).trans (ih _)

/-! ### Truncated streams -/

/-- A cursor with a reserved word ahead, and the cursor at the same place in the
stream that ends there and starts at a position of the first one. -/
structure Truncated (p : Nat) (word : Token) (c d : Cursor) : Prop where
  ahead : ∃ more, c.ahead = d.ahead ++ word :: more
  position : c.position = p + d.position
  finish : d.finish = .empty word.span.start
  /-- The reserved word is the first one. -/
  first : ∀ t ∈ d.ahead, t.kind.startsStatement = false

/-- In the truncated stream the reserved word is the end, as the scope of statements has it in the
long one. -/
theorem lockstep_truncated (p : Nat) {word : Token} (hword : word.kind.startsStatement = true) :
    Lockstep .statement .stream (Truncated p word) where
  peek := by
    rintro ⟨_, _, _⟩ ⟨ahead, _, _⟩ ⟨⟨more, rfl⟩, _, rfl, hfirst⟩
    cases ahead with
    -- At the end of the truncated stream the word is next in the long one, and shown as an end.
    | nil => simp only [peek, List.nil_append, Scope.bars, hword, ↓reduceIte]
    | cons t rest =>
      simp only [peek, List.cons_append, Scope.bars, hfirst t List.mem_cons_self,
        Bool.false_eq_true, ↓reduceIte]
  advance := by
    rintro ⟨_, _, _⟩ ⟨ahead, _, position⟩ ⟨⟨more, rfl⟩, rfl, rfl, hfirst⟩
    cases ahead with
    | nil =>
      simp only [advance, List.nil_append, Scope.bars, hword, ↓reduceIte]
      exact ⟨⟨more, rfl⟩, rfl, rfl, hfirst⟩
    | cons t rest =>
      obtain ⟨ht, hrest⟩ := List.forall_mem_cons.mp hfirst
      simp only [advance, List.cons_append, Scope.bars, ht, Bool.false_eq_true, ↓reduceIte]
      exact ⟨⟨more, rfl⟩, Nat.add_assoc p position 1, rfl, hrest⟩

/-- The reserved word is not passed, since the stream that ends there is not. -/
theorem Truncated.position_le {p : Nat} {word : Token} {c c' d d' : Cursor}
    (h : Truncated p word c d) (h' : Truncated p word c' d') (hd : d.Reaches d') :
    c'.position ≤ c.position + d.remaining := by
  have hsum := hd.position_add_remaining
  have hc := h.position
  have hc' := h'.position
  omega

/-- Without a reserved word ahead, the scope of a statement is the stream. -/
theorem lockstep_unbounded :
    Lockstep .statement .stream fun c d =>
      c = d ∧ ∀ t ∈ d.ahead, t.kind.startsStatement = false where
  peek := by
    rintro _ ⟨ahead, _, _⟩ ⟨rfl, hfree⟩
    cases ahead with
    | nil => rfl
    | cons t rest =>
      simp only [peek, Scope.bars, hfree t List.mem_cons_self, Bool.false_eq_true, ↓reduceIte]
  advance := by
    rintro _ ⟨ahead, _, _⟩ ⟨rfl, hfree⟩
    cases ahead with
    | nil => exact ⟨rfl, hfree⟩
    | cons t rest =>
      obtain ⟨ht, hrest⟩ := List.forall_mem_cons.mp hfree
      simp only [advance, Scope.bars, ht, Bool.false_eq_true, ↓reduceIte]
      exact ⟨trivial, hrest⟩

/-! ### Places in a list of tokens -/

/-- Some tokens further on, fewer are ahead. -/
theorem skip_eq (n : Nat) (c : Cursor) :
    c.skip n = ⟨c.ahead.drop n, c.finish, c.position + min n c.ahead.length⟩ := by
  induction n generalizing c with
  | zero => simp only [skip, List.drop_zero, Nat.zero_min, Nat.add_zero]
  | succ n ih =>
    obtain ⟨ahead, finish, position⟩ := c
    cases ahead with
    | nil =>
      show skip n ⟨[], finish, position⟩ = _
      rw [ih, List.drop_nil, List.drop_nil, List.length_nil, Nat.min_zero, Nat.min_zero]
    | cons t rest =>
      simp only [skip, advance, Scope.bars, Bool.false_eq_true, ↓reduceIte, ih,
        List.drop_succ_cons, List.length_cons, Nat.add_min_add_right, Nat.add_assoc,
        Nat.add_comm 1]

/-- A cursor that is further on is as many tokens further on as it has passed. -/
theorem Reaches.eq_skip {c d : Cursor} (h : c.Reaches d) :
    d = c.skip (d.position - c.position) := by
  obtain ⟨⟨ts, hts, hpos⟩, hfinish⟩ := h
  obtain ⟨ahead, finish, position⟩ := d
  obtain rfl : finish = c.finish := hfinish
  obtain rfl : position = c.position + ts.length := hpos
  have hlen : min ts.length (ts ++ ahead).length = ts.length :=
    Nat.min_eq_left (by rw [List.length_append]; exact Nat.le_add_right _ _)
  rw [skip_eq, Nat.add_sub_cancel_left, hts, List.drop_left, hlen]

/-- The tokens of a stream are those of its list, maybe less the last one. -/
theorem ahead_ofTokens_prefix (tokens : List Token) : (ofTokens tokens).ahead <+: tokens := by
  unfold ofTokens
  split
  · exact List.nil_prefix
  · split
    · exact List.dropLast_prefix tokens
    · exact List.prefix_refl tokens

/-- A token that is no end of input is ahead at the start of the stream. -/
theorem ofTokens_append_cons {word : Token} (hword : word.kind ≠ .eof) (front rest : List Token) :
    ∃ more finish, ofTokens (front ++ word :: rest) = ⟨front ++ word :: more, finish, 0⟩ := by
  rcases List.eq_nil_or_concat rest with rfl | ⟨rest, last, rfl⟩
  · exact ⟨[], .empty word.span.stop, by simp only [ofTokens, List.getLast?_concat, if_neg hword]⟩
  · have hlist : front ++ word :: (rest ++ [last]) = (front ++ word :: rest) ++ [last] := by
      rw [List.append_assoc, List.cons_append]
    rw [List.concat_eq_append, hlist]
    by_cases hlast : last.kind = .eof
    · exact ⟨rest, last.span, ofTokens_concat hlast _⟩
    · refine ⟨rest ++ [last], .empty last.span.stop, ?_⟩
      rw [ofTokens, List.getLast?_concat, ← hlist]
      exact if_neg hlast

end Cursor

/-- The first reserved word of a list from a position on, and its index. -/
structure Token.FirstWord (tokens : List Token) (p k : Nat) (word : Token) : Prop where
  le : p ≤ k
  get : tokens[k]? = some word
  starts : word.kind.startsStatement = true
  first : ∀ t ∈ (tokens.take k).drop p, t.kind.startsStatement = false

/-- The tokens from a position on that are in front of a reserved word, and the
end of input at its start. -/
def Token.truncate (tokens : List Token) (p k : Nat) (word : Token) : List Token :=
  (tokens.take k).drop p ++ [.eofAt (.empty word.span.start)]

/-- The place in the list and the start of the truncated stream. -/
theorem Token.FirstWord.truncated {tokens : List Token} {p k : Nat} {word : Token}
    (h : FirstWord tokens p k word) :
    Cursor.Truncated p word ((Cursor.ofTokens tokens).skip p)
        (Cursor.ofTokens (truncate tokens p k word)) ∧
      ((Cursor.ofTokens tokens).skip p).position = p ∧
      p + (Cursor.ofTokens (truncate tokens p k word)).remaining = k := by
  have hstart : Cursor.ofTokens (truncate tokens p k word)
      = ⟨(tokens.take k).drop p, .empty word.span.start, 0⟩ := Cursor.ofTokens_concat rfl _
  obtain ⟨hk, hget⟩ := List.getElem?_eq_some_iff.mp h.get
  have hle := h.le
  have htake : (tokens.take k).length = k := List.length_take_of_le (Nat.le_of_lt hk)
  -- The list is cut at the word, and the place is in front of the cut.
  have hlist : tokens = tokens.take k ++ word :: tokens.drop (k + 1) := by
    rw [← hget, List.getElem_cons_drop, List.take_append_drop]
  have hne : word.kind ≠ .eof := fun heof => by
    have hstarts := h.starts
    rw [heof] at hstarts
    cases hstarts
  obtain ⟨more, finish, hmore⟩ :=
    Cursor.ofTokens_append_cons hne (tokens.take k) (tokens.drop (k + 1))
  rw [← hlist] at hmore
  have hdrop : (tokens.take k ++ word :: more).drop p
      = (tokens.take k).drop p ++ word :: more :=
    List.drop_append_of_le_length (htake.symm ▸ hle)
  have hmin : min p (tokens.take k ++ word :: more).length = p := by
    rw [List.length_append, htake]
    omega
  have hskip : (Cursor.ofTokens tokens).skip p
      = ⟨(tokens.take k).drop p ++ word :: more, finish, p⟩ := by
    rw [hmore, Cursor.skip_eq, hmin, Nat.zero_add]
    show Cursor.mk ((tokens.take k ++ word :: more).drop p) finish p = _
    rw [hdrop]
  rw [hskip, hstart]
  refine ⟨⟨⟨more, rfl⟩, rfl, rfl, h.first⟩, rfl, ?_⟩
  show p + ((tokens.take k).drop p).length = k
  rw [List.length_drop, htake]
  omega

/-! ### Expressions -/

/-- Reading and folding an expression leads on in the stream. -/
theorem Chain.reaches_parse (mode : Reduction) (s : Scope) (c : Cursor) :
    c.Reaches (parse mode s c).cursor := by
  rw [parse_eq]
  exact reaches_read s c

/-- At cursors that are in step the same expression is read and folded. -/
theorem Cursor.Lockstep.parse {s s' : Scope} {R : Cursor → Cursor → Prop} (hR : Lockstep s s' R)
    (mode : Reduction) {c d : Cursor} (h : R c d) :
    (Chain.parse mode s c).value = (Chain.parse mode s' d).value ∧
      (Chain.parse mode s c).issues = (Chain.parse mode s' d).issues ∧
      R (Chain.parse mode s c).cursor (Chain.parse mode s' d).cursor := by
  obtain ⟨hr, he⟩ := hR.read h
  rw [Chain.parse_eq, Chain.parse_eq]
  refine ⟨?_, ?_, he⟩
  · simp only [Chain.outcome, hr]
  · simp only [Chain.outcome, hr]

end ExprFrontEnd
