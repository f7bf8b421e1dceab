import ExprFrontEnd.Proofs.InPlace

/-!
# `ExprFrontEnd.Proofs.StatementScope`: an expression inside of a statement

An expression in a statement is read in a scope that ends at the next reserved word. It
is the expression that is read from the tokens in front of that word, closed by an end of
input at its start (`Token.truncate`). This is said of cursors and of the reader that
works in place, with the issues that were recorded before it was called.

* `Chain.run?_bounded`: the run in place inside of a statement, from the run in place on
  the truncated list. The issues of that run are put behind the recorded ones, and the
  index moves as far as there.
* `Chain.parse_bounded`: the same for all rows of calls and for the reader on cursors. If
  no reserved word is ahead, the scope makes no difference.

Both rest on `Cursor.lockstep_truncated`: nothing that a reader does tells the two
streams apart.
-/

set_option autoImplicit false

namespace ExprFrontEnd

/-- **In place, the scope of a statement is truncation.** The run on the truncated list
starts at its start, with nothing recorded. Inside of the statement the run comes to the
same value, puts the same issues behind those that were recorded before, and moves the
index as far. -/
theorem Chain.run?_bounded {tokens : List Token} {p k : Nat} {word : Token}
    (hfirst : Token.FirstWord tokens p k word) (mode : Reduction) (recorded : List Issue) :
    let truncated := Token.truncate tokens p k word
    let whole := parse mode .stream (Cursor.ofTokens truncated)
    run? mode .stream ⟨Token.vector truncated, 0, []⟩
        = some (whole.value, ⟨Token.vector truncated, whole.cursor.position, whole.issues⟩) ∧
      run? mode .statement ⟨Token.vector tokens, p, recorded⟩
        = some (whole.value,
          ⟨Token.vector tokens, p + whole.cursor.position, recorded ++ whole.issues⟩) := by
  intro truncated whole
  obtain ⟨hstart, hposition, -⟩ := hfirst.truncated
  obtain ⟨hvalue, hissues, hend⟩ :=
    (Cursor.lockstep_truncated p hfirst.starts).parse mode hstart
  have htruncated := run?_session mode .stream (Cursor.in_ofTokens truncated) []
  have hinside := run?_session mode .statement (Cursor.in_skip tokens p) recorded
  -- The truncated list starts at index zero; in the whole list the run starts behind `p` tokens
  -- and recorded issues.
  rw [Cursor.session, Cursor.position_ofTokens] at htruncated
  rw [Cursor.session, hposition, Outcome.inSession, hvalue, hissues, Cursor.session,
    hend.position] at hinside
  exact ⟨htruncated, hinside⟩

/-- **The scope of a statement is truncation**, from every position of every
list of tokens. If a reserved word is there from the position on, then all rows
of calls are answered as in the stream that ends in front of the first one. An
expression is the same as in that stream, and its issues come behind those that
were recorded before. Both move on as far as in that stream, and not past the
reserved word. So does the run in place, which records its issues behind those of its
session. If there is no reserved word, the scope makes no difference. -/
theorem Chain.parse_bounded (tokens : List Token) (p : Nat) (mode : Reduction)
    (recorded : List Issue) :
    let c := (Cursor.ofTokens tokens).skip p
    let session := c.session (Token.vector tokens) recorded
    let bounded := (parse mode .statement c).report recorded
    (∀ (k : Nat) (word : Token), Token.FirstWord tokens p k word →
      let truncated := Token.truncate tokens p k word
      let d := Cursor.ofTokens truncated
      let whole := parse mode .stream d
      (∀ calls : List Cursor.Call,
        (c.run .statement calls).1 = (d.run .stream calls).1 ∧
          (c.run .statement calls).2.position = p + (d.run .stream calls).2.position ∧
          (c.run .statement calls).2.position ≤ k) ∧
      bounded.value = whole.value ∧ bounded.issues = recorded ++ whole.issues ∧
      bounded.cursor = c.skip whole.cursor.position ∧
      bounded.cursor.position = p + whole.cursor.position ∧ bounded.cursor.position ≤ k ∧
      session = ⟨Token.vector tokens, p, recorded⟩ ∧
      run? mode .stream ⟨Token.vector truncated, 0, []⟩
        = some (whole.value, ⟨Token.vector truncated, whole.cursor.position, whole.issues⟩) ∧
      run? mode .statement session
        = some (whole.value,
          ⟨Token.vector tokens, p + whole.cursor.position, recorded ++ whole.issues⟩)) ∧
    ((∀ t ∈ tokens.drop p, t.kind.startsStatement = false) →
      (∀ calls : List Cursor.Call, c.run .statement calls = c.run .stream calls) ∧
      bounded = (parse mode .stream c).report recorded ∧
      run? mode .statement session = run? mode .stream session) := by
  intro c session bounded
  constructor
  · intro k word hfirst truncated d whole
    obtain ⟨hstart, hposition, hlength⟩ := hfirst.truncated
    have hR := Cursor.lockstep_truncated p hfirst.starts
    -- A cursor in step with one further on in the truncated stream is at most at the word.
    have hbound {c' d' : Cursor} (h : Cursor.Truncated p word c' d') (hd : d.Reaches d') :
        c'.position ≤ k := by
      have hle := hstart.position_le h hd
      rwa [hposition, hlength] at hle
    obtain ⟨hvalue, hissues, hend⟩ := hR.parse mode hstart
    have hle := hbound hend (reaches_parse mode .stream d)
    have hsession : session = ⟨Token.vector tokens, p, recorded⟩ :=
      congrArg (fun n => Session.mk (Token.vector tokens) n recorded) hposition
    obtain ⟨hwhole, hinside⟩ := run?_bounded hfirst mode recorded
    rw [← hsession] at hinside
    refine ⟨fun calls => ?_, hvalue, congrArg (recorded ++ ·) hissues, ?_, hend.position, hle,
      hsession, hwhole, hinside⟩
    · obtain ⟨hanswers, hlast⟩ := hR.run hstart calls
      exact ⟨hanswers, hlast.position, hbound hlast (Cursor.reaches_run .stream calls d)⟩
    · have hskip := (reaches_parse mode .statement c).eq_skip
      rwa [hend.position, hposition, Nat.add_sub_cancel_left] at hskip
  · intro hnone
    have hfree : ∀ t ∈ c.ahead, t.kind.startsStatement = false := by
      intro t ht
      rw [show c = _ from Cursor.skip_eq p _] at ht
      exact hnone t ((List.IsPrefix.drop (Cursor.ahead_ofTokens_prefix tokens) p).subset ht)
    have hsame : parse mode .statement c = parse mode .stream c := by
      obtain ⟨hvalue, hissues, hend, -⟩ := Cursor.lockstep_unbounded.parse mode ⟨rfl, hfree⟩
      generalize parse mode .statement c = o at hvalue hissues hend
      obtain ⟨value, issues, cursor⟩ := o
      rw [show value = _ from hvalue, show issues = _ from hissues, show cursor = _ from hend]
    refine ⟨fun calls => ?_, congrArg (Outcome.report recorded) hsame, ?_⟩
    · obtain ⟨hanswers, hend, -⟩ := Cursor.lockstep_unbounded.run ⟨rfl, hfree⟩ calls
      exact Prod.ext hanswers hend
    · have hin := Cursor.in_skip tokens p
      rw [run?_session mode .statement hin, run?_session mode .stream hin, hsame]

/-- The initializer of a variable, which is read up to the function behind it, when an
issue was recorded already. A second one is found on the way. Behind the reserved word of
that function the rest of the list has no other. -/
theorem Chain.parse_bounded_initializer :
    let tokens := (lex ", val x = f(a b fn g").tokens
    let word : Token := ⟨.keyword .fn, ⟨16, 18⟩⟩
    let recorded : List Issue := [⟨.statementExpected (.symbol .comma), ⟨0, 1⟩⟩]
    let c := (Cursor.ofTokens tokens).skip 4
    let d := Cursor.ofTokens (Token.truncate tokens 4 8 word)
    let behind := (Cursor.ofTokens tokens).skip 9
    Token.FirstWord tokens 4 8 word ∧
      (c.run .statement [.next, .next, .consume, .next, .peek]).1
        = (d.run .stream [.next, .next, .consume, .next, .peek]).1 ∧
      (∃ value n, run? .cascading .statement ⟨Token.vector tokens, 4, recorded⟩
        = some (value, ⟨Token.vector tokens, 4 + n,
          recorded ++ [⟨.operatorExpected (.identifier "b"), ⟨14, 15⟩⟩]⟩)) ∧
      (∀ t ∈ tokens.drop 9, t.kind.startsStatement = false) ∧
      behind.run .statement [.peek, .next] = behind.run .stream [.peek, .next] := by
  intro tokens word recorded c d behind
  have hfirst : Token.FirstWord tokens 4 8 word :=
    ⟨by decide, by decide +kernel, rfl, by decide +kernel⟩
  have hnone : ∀ t ∈ tokens.drop 9, t.kind.startsStatement = false := by decide +kernel
  obtain ⟨hcalls, -, -, -, -, -, hsession, -, hrun⟩ :=
    (parse_bounded tokens 4 .cascading recorded).1 8 word hfirst
  obtain ⟨hbehind, -⟩ := (parse_bounded tokens 9 .cascading []).2 hnone
  -- What is found on the way is found on the truncated list.
  have hfound : (parse .cascading .stream d).issues
      = [⟨.operatorExpected (.identifier "b"), ⟨14, 15⟩⟩] := by decide +kernel
  rw [hsession, hfound] at hrun
  exact ⟨hfirst, (hcalls _).1, ⟨_, _, hrun⟩, hnone, hbehind _⟩

end ExprFrontEnd
