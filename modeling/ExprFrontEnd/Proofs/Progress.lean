import ExprFrontEnd.Proofs.Readers

/-!
# `ExprFrontEnd.Proofs.Progress`: reading ends, moves on and reports little

The tokens of a stream may be of any kinds in any order, with places that
make no sense and with an end of input in the middle. Reading still ends.

* `Cursor.reaches_readNames`, `DeclClause.reaches_read`, `Clause.reaches_read`,
  `Attempt.reaches_readAll`: no reader moves back or leaves its stream.
* `Attempt.remaining_readOne_lt`: every attempt in front of the end takes a token, so
  there are no more attempts than tokens, and `Attempt.peek_readAll` says that they
  lead to the end.
* `Chain.Between.length_issues_le`: reading a chain reports at most one issue
  more than it passes tokens. An issue is reported for a token that is passed
  or for an end of input, which is not; but an operand is missing in front of
  an end only once, because the end then ends every chain around it.
* `Attempt.length_issues_readAll_le`: a program has no more issues than tokens
  that are passed. The reserved word of a statement makes up for the one
  issue that its chain may have too many.
* `progress_read`: all of it, for every stream and every place in it.
-/

set_option autoImplicit false

namespace ExprFrontEnd

/-! ### One token -/

/-- A token other than an end of input is passed. -/
theorem Cursor.position_advance {s : Scope} {c : Cursor} (h : (c.peek s).kind ≠ .eof) :
    (c.advance s).position = c.position + 1 := by
  have hlt := remaining_advance_lt h
  have hsum := (reaches_advance s c).position_add_remaining
  have hle := (reaches_advance s c).position_le
  obtain ⟨ahead, finish, position⟩ := c
  cases ahead with
  | nil => exact absurd rfl h
  | cons t rest =>
    simp only [advance] at hlt hsum ⊢
    split at hlt
    · exact absurd hlt (Nat.lt_irrefl _)
    · rename_i hs
      rw [if_neg hs]

/-- A token with a meaning that the end of input has not is passed. -/
theorem Cursor.position_advance_of_some {β : Type} {s : Scope} {c : Cursor}
    {f : TokenKind → Option β} {b : β} (hf : f (c.peek s).kind = some b) (he : f .eof = none) :
    (c.advance s).position = c.position + 1 :=
  position_advance fun h => by
    rw [h, he] at hf
    cases hf

/-! ### The issues of a chain -/

/-- A dot has at most one issue. -/
theorem length_memberIssues_le (optional : Bool) (dot found : Token) :
    (memberIssues optional dot found).length ≤ 1 := by
  unfold memberIssues
  split <;> simp

mutual

/-- A chain has at most one issue more than it has tokens that are passed, and
none more if its terminator is one of them. -/
theorem Chain.Between.length_issues_le {s : Scope} : {r : Chain} → {c e : Cursor} →
    r.Between s c e → r.issues.length + c.position ≤ e.position + 1 ∧
      (r.terminator.kind ≠ .eof → r.issues.length + c.position ≤ e.position)
  | .mk first links, c, e, ⟨d, hf, hl⟩ => by
    have h₁ := Operand.Between.length_issues_le hf
    obtain ⟨h₂, h₃⟩ := Links.Between.length_issues_le hl
    simp only [Chain.issues, List.length_append, Chain.terminator]
    refine ⟨by omega, fun hk => ?_⟩
    have := h₃ hk
    omega

/-- What follows an operand has no more issues than tokens, and one less if
its terminator is passed. -/
theorem Links.Between.length_issues_le {s : Scope} : {r : Links} → {c e : Cursor} →
    r.Between s c e → r.issues.length + c.position ≤ e.position ∧
      (r.terminator.kind ≠ .eof → r.issues.length + c.position + 1 ≤ e.position)
  | .done terminator, c, e, ⟨_, hk, he⟩ => by
    have hle := (Cursor.reaches_advance s c).position_le
    simp only [Links.issues, List.length_nil, Links.terminator, he]
    refine ⟨by omega, fun hne => ?_⟩
    -- A terminator that is no end is passed.
    have hpos : (c.advance s).position = c.position + 1 :=
      Cursor.position_advance fun h => hne (by simpa [h, TerminatorKind.ofKind?, eq_comm] using hk)
    omega
  | .stray _ rest, c, e, ⟨_, hk, _, hr⟩ => by
    have hpos : (c.advance s).position = c.position + 1 :=
      Cursor.position_advance fun h => by simp [h, TerminatorKind.ofKind?] at hk
    obtain ⟨h₁, h₂⟩ := Links.Between.length_issues_le hr
    simp only [Links.issues, List.length_cons, Links.terminator]
    refine ⟨by omega, fun hne => ?_⟩
    have := h₂ hne
    omega
  | .link _ _ operand rest, c, e, ⟨_, hop, d, ho, hr⟩ => by
    -- The operator makes up for the issue that its operand may have too many.
    have hpos := Cursor.position_advance_of_some hop rfl
    have h₁ := Operand.Between.length_issues_le ho
    obtain ⟨h₂, h₃⟩ := Links.Between.length_issues_le hr
    simp only [Links.issues, List.length_append, Links.terminator]
    refine ⟨by omega, fun hne => ?_⟩
    have := h₃ hne
    omega

/-- A sign is passed without an issue, which makes the bound of an operand better. -/
theorem Operand.Between.length_issues_le {s : Scope} : {r : Operand} → {c e : Cursor} →
    r.Between s c e → r.issues.length + c.position ≤ e.position + 1
  | .signed _ _ operand, c, e, ⟨_, _, ho⟩ => by
    -- It does not matter here that a sign is passed, since it has no issue.
    have hle := (Cursor.reaches_advance s c).position_le
    have h := Operand.Between.length_issues_le ho
    rw [Operand.issues]
    omega
  | .bare primary, _, _, ⟨_, hp⟩ => by
    rw [Operand.issues]
    exact Primary.Between.length_issues_le hp

/-- A stray operator has one issue, and it is passed. -/
theorem Primary.Between.length_issues_le {s : Scope} : {r : Primary} → {c e : Cursor} →
    r.Between s c e → r.issues.length + c.position ≤ e.position + 1
  | .stray _ rest, c, e, ⟨_, _, hc, hr⟩ => by
    have hpos : (c.advance s).position = c.position + 1 :=
      Cursor.position_advance fun h => by simp [h, TokenKind.closesOperand] at hc
    have h := Primary.Between.length_issues_le hr
    rw [Primary.issues, List.length_cons]
    omega
  | .atom atom accessors, c, e, ⟨d, ha, hs⟩ => by
    have h₁ := Atom.Between.length_issues_le ha
    have h₂ := Accessors.Between.length_issues_le hs
    rw [Primary.issues, List.length_append]
    omega

/-- The one place where an issue has no token of its own is an operand that is missing in front of
an end. -/
theorem Atom.Between.length_issues_le {s : Scope} : {r : Atom} → {c e : Cursor} →
    r.Between s c e → r.issues.length + c.position ≤ e.position + 1
  | .number _ _, c, _, ⟨_, he⟩ => by
    have hle := (Cursor.reaches_advance s c).position_le
    rw [Atom.issues, he, List.length_nil]
    omega
  | .string _ _, c, _, ⟨_, he⟩ => by
    have hle := (Cursor.reaches_advance s c).position_le
    rw [Atom.issues, he, List.length_nil]
    omega
  | .name _ _, c, _, ⟨_, he⟩ => by
    have hle := (Cursor.reaches_advance s c).position_le
    rw [Atom.issues, he, List.length_nil]
    omega
  | .group _ inner, c, e, ⟨_, _, hi⟩ => by
    have hle := (Cursor.reaches_advance s c).position_le
    have h := (Chain.Between.length_issues_le hi).1
    rw [Atom.issues]
    omega
  | .array _ elems, c, e, ⟨_, _, hi⟩ => by
    have hle := (Cursor.reaches_advance s c).position_le
    have h := Items.Between.length_issues_le hi
    rw [Atom.issues]
    omega
  | .missing _, c, _, ⟨_, _, he⟩ => by
    -- The one issue that no token may make up for: the end of input is not passed.
    have hle := (Cursor.reaches_advance s c).position_le
    rw [Atom.issues, he, List.length_singleton]
    omega

/-- Accessors have no more issues than tokens: each of them starts with a
token that is passed. -/
theorem Accessors.Between.length_issues_le {s : Scope} : {r : Accessors} → {c e : Cursor} →
    r.Between s c e → r.issues.length + c.position ≤ e.position
  | .none, _, _, ⟨_, he⟩ => by
    rw [Accessors.issues, he, List.length_nil]
    omega
  | .call _ _ args rest, c, e, ⟨_, hk, d, ha, hr⟩ => by
    -- The opening token makes up for the last argument, which may have an issue too many.
    have hpos := Cursor.position_advance_of_some hk rfl
    have h₁ := Items.Between.length_issues_le ha
    have h₂ := Accessors.Between.length_issues_le hr
    rw [Accessors.issues, List.length_append]
    omega
  | .index _ _ inner rest, c, e, ⟨_, hk, d, hi, hr⟩ => by
    have hpos := Cursor.position_advance_of_some hk rfl
    have h₁ := (Chain.Between.length_issues_le hi).1
    have h₂ := Accessors.Between.length_issues_le hr
    rw [Accessors.issues, List.length_append]
    omega
  | .member optional dot found rest, c, e, ⟨_, hk, _, hr⟩ => by
    -- The dot is passed, and makes up for its issue. What is behind it may be an end.
    have hpos := Cursor.position_advance_of_some hk rfl
    have hle := (Cursor.reaches_advance s (c.advance s)).position_le
    have h₁ := length_memberIssues_le optional dot found
    have h₂ := Accessors.Between.length_issues_le hr
    rw [Accessors.issues, List.length_append]
    omega

/-- The last item has the bound of its chain; every item before it has a comma behind it to make
up for one more issue. -/
theorem Items.Between.length_issues_le {s : Scope} : {r : Items} → {c e : Cursor} →
    r.Between s c e → r.issues.length + c.position ≤ e.position + 1
  | .last _, _, _, ⟨hi, _⟩ => (Chain.Between.length_issues_le hi).1
  | .more item rest, c, e, ⟨d, hi, hk, hr⟩ => by
    -- The comma is passed, so only the last chain may have an issue too many.
    have h₁ := (Chain.Between.length_issues_le hi).2 (by rw [hk]; simp)
    have h₂ := Items.Between.length_issues_le hr
    rw [Items.issues, List.length_append]
    omega

end

/-- Reading a chain passes the first token, whatever it is, if it is in the
scope. -/
theorem Chain.position_lt_read {s : Scope} {c : Cursor} {t : Token} (ht : t ∈ c.ahead.head?)
    (hs : s.bars t.kind = false) : c.position < (read s c).2.position := by
  have htakes := (between_read s c).takes
  have hpos : (c.advance s).position = c.position + 1 := by
    obtain ⟨ahead, finish, position⟩ := c
    cases ahead with
    | nil => cases ht
    | cons u rest =>
      obtain rfl := Option.some.inj ht
      simp only [Cursor.advance, hs, Bool.false_eq_true, ↓reduceIte]
  -- At least the terminator is taken.
  cases hts : (read s c).1.body ++ [(read s c).1.terminator.token] with
  | nil => exact absurd hts (List.append_ne_nil_of_right_ne_nil _ (List.cons_ne_nil _ _))
  | cons t ts =>
    rw [hts] at htakes
    have hle := htakes.2.reaches.position_le
    omega

/-! ### No reader moves back -/

namespace Cursor

/-- A word that is accepted is passed, and any other is left. -/
theorem reaches_accept (word : Keyword) (c : Cursor) : c.Reaches (c.accept word).2 := by
  unfold accept
  split
  · exact reaches_advance _ _
  · exact .refl _

/-- The token in place of a name is passed, whatever it is. -/
theorem reaches_readName (place : NamePlace) (c : Cursor) : c.Reaches (c.readName place).2 := by
  rw [readName_snd]
  exact reaches_advance .stream c

/-- The same, of what the reader is known to give. -/
theorem reaches_of_readName {place : NamePlace} {c d : Cursor} {result : Except Issue Identifier}
    (h : c.readName place = (result, d)) : c.Reaches d := by
  have hname := reaches_readName place c
  rwa [h] at hname

/-- Behind a name the readers of variables and functions go on with the token after it. -/
theorem reaches_advance_of_readName {place : NamePlace} {c d : Cursor}
    {result : Except Issue Identifier} (h : c.readName place = (result, d)) :
    c.Reaches (d.advance .stream) :=
  (reaches_of_readName h).trans (reaches_advance .stream d)

/-- By recursion on the tokens ahead, each of which is passed. -/
theorem reaches_readNames (finish : Span) (ahead : List Token) (position : Nat) :
    Reaches ⟨ahead, finish, position⟩ (readNames finish ahead position).2 := by
  -- Each turn of the loop passes a name and, if there is one, the token behind it.
  have two : ∀ (t u : Token) (rest : List Token) (position : Nat),
      Reaches ⟨t :: u :: rest, finish, position⟩ ⟨rest, finish, position + 2⟩ :=
    fun t u rest position =>
      (reaches_cons t (u :: rest) finish position).trans (reaches_cons u rest finish _)
  fun_induction readNames finish ahead position with
  | case1 position => exact .refl _
  | case2 t position name hk => exact reaches_cons t [] finish position
  | case3 t position name hk u rest hu names close d hd ih =>
    rw [hd] at ih
    exact (two t u rest position).trans ih
  | case4 t position name hk u rest hu issue d hd ih =>
    rw [hd] at ih
    exact (two t u rest position).trans ih
  | case5 t position name hk u rest hu => exact two t u rest position
  | case6 t position name hk u rest => exact two t u rest position
  | case7 t rest position => exact reaches_cons t rest finish position

/-- The parenthesis, and then the names. -/
theorem reaches_readParams (c : Cursor) : c.Reaches c.readParams.2 := by
  simp only [readParams]
  split
  · exact reaches_advance _ _
  · exact reaches_readNames _ _ _

/-- Recovery skips tokens up to the next reserved word. -/
theorem reaches_recover (c : Cursor) : c.Reaches c.recover.2 := by
  let skipped := c.ahead.takeWhile fun t => !isBoundary t.kind
  have hle : skipped.length ≤ c.ahead.length := (List.takeWhile_sublist _).length_le
  refine ⟨⟨c.ahead.take skipped.length, (List.take_append_drop _ _).symm, ?_⟩, rfl⟩
  rw [List.length_take, Nat.min_eq_left hle]
  rfl

end Cursor

namespace DeclClause

variable {head : DeclHead} {binding : Binding} {c d : Cursor} {result : Except Issue DeclClause}

/-- Each reader of a binding starts where the one before it stopped. -/
theorem reaches_readBinding (h : readBinding head binding c = (result, d)) : c.Reaches d := by
  cases readsBinding h with
  | unnamed hname | declared hname | unset hname => exact Cursor.reaches_of_readName hname
  | initialized hname =>
    exact (Cursor.reaches_advance_of_readName hname).trans (Chain.reaches_read .statement _)

/-- A function is read up to the end of its parameters. -/
theorem reaches_readFunction (h : readFunction head c = (result, d)) : c.Reaches d := by
  cases readsFunction h with
  | unnamed hname | bare hname => exact Cursor.reaches_of_readName hname
  | listed hname _ hparams | unlisted hname _ hparams =>
    have hlist := (Cursor.reaches_advance_of_readName hname).trans (Cursor.reaches_readParams _)
    rwa [hparams] at hlist

/-- The flags of a declaration are passed. -/
theorem reaches_flags (c : Cursor) : c.Reaches c.behindFlags :=
  (Cursor.reaches_accept .exporting c).trans (Cursor.reaches_accept .declaring _)

/-- The cursor behind the flags of a declaration and the word behind them. -/
theorem reaches_word (c : Cursor) : c.Reaches (c.behindFlags.advance .stream) :=
  (reaches_flags c).trans (Cursor.reaches_advance .stream _)

/-- Accepting `declare` and `export` in front comes first. -/
theorem reaches_read (h : read c = (result, d)) : c.Reaches d := by
  cases reads h with
  | binding _ _ h => exact (reaches_word c).trans (reaches_readBinding h)
  | function _ h => exact (reaches_word c).trans (reaches_readFunction h)
  | neither => exact reaches_word c

end DeclClause

/-- A clause starts with a reserved word, or nothing is read. -/
theorem Clause.reaches_read {c d : Cursor} {result : Except Issue Clause}
    (h : read c = (result, d)) : c.Reaches d := by
  cases reads h with
  | ret => exact Cursor.reaches_advance .stream c
  | retOf => exact (Cursor.reaches_advance .stream c).trans (Chain.reaches_read .statement _)
  | decl _ _ h => exact DeclClause.reaches_read h
  | broken _ _ h => exact DeclClause.reaches_read h
  | neither => exact .refl _

namespace Attempt

/-- An attempt is a clause or a recovery. -/
theorem reaches_readOne (c : Cursor) : c.Reaches (readOne c).2 := by
  rcases hone : readOne c with ⟨attempt, d⟩
  cases readsOne hone with
  | read h => exact Clause.reaches_read h
  | failed h => exact (Clause.reaches_read h).trans (Cursor.reaches_recover _)

/-- By recursion on the fuel. -/
theorem reaches_readUpTo (fuel : Nat) (c : Cursor) : c.Reaches (readUpTo fuel c).2 := by
  induction fuel generalizing c with
  | zero => exact .refl _
  | succ fuel ih =>
    unfold readUpTo
    split
    · exact .refl _
    · exact (reaches_readOne c).trans (ih _)

/-- Every attempt of a run is made somewhere on the way. -/
theorem exists_readOne_eq (fuel : Nat) (c : Cursor) :
    ∀ a ∈ (readUpTo fuel c).1, ∃ d, c.Reaches d ∧ (readOne d).1 = a := by
  induction fuel generalizing c with
  | zero => exact List.forall_mem_nil _
  | succ fuel ih =>
    unfold readUpTo
    split
    · exact List.forall_mem_nil _
    · refine List.forall_mem_cons.mpr ⟨⟨c, .refl c, rfl⟩, fun a ha => ?_⟩
      obtain ⟨d, hd, hread⟩ := ih _ a ha
      exact ⟨d, (reaches_readOne c).trans hd, hread⟩

/-- A program is a run of attempts with enough fuel. -/
theorem reaches_readAll (c : Cursor) : c.Reaches (readAll c).2 :=
  reaches_readUpTo _ _

end Attempt

/-! ### Every attempt takes a token -/

/-- Recovery takes a token unless the cursor is at a boundary already. -/
theorem Cursor.position_lt_recover {c : Cursor} (h : isBoundary (c.peek .stream).kind = false) :
    c.position < c.recover.2.position := by
  cases hc : c.ahead with
  | nil => simp [peek, hc, Token.eofAt, isBoundary] at h
  | cons t rest =>
    have ht : isBoundary t.kind = false := by simpa [peek, hc, Scope.bars] using h
    simp only [recover, hc, List.takeWhile_cons, ht, Bool.not_false, ↓reduceIte, List.length_cons]
    omega

namespace DeclClause

variable {c d : Cursor} {result : Except Issue DeclClause}

/-- Flags are passed, so a declaration whose next reserved word stands at the
start has none. -/
theorem position_lt_flags {word : Keyword} (h : (c.peek .stream).kind = .keyword word)
    (hword : word = .exporting ∨ word = .declaring) :
    c.position < c.behindFlags.position := by
  have hpos : (c.advance .stream).position = c.position + 1 :=
    Cursor.position_advance (by simp [h])
  rw [Cursor.behindFlags]
  -- The word is passed by the one reader or the other.
  rcases hword with rfl | rfl
  · have hflag : (c.accept .exporting).2 = c.advance .stream := by
      rw [Cursor.accept, if_pos h]
    have hle := (Cursor.reaches_accept .declaring (c.accept .exporting).2).position_le
    rw [hflag] at hle ⊢
    omega
  · have hnone : (c.accept .exporting).2 = c := by
      rw [Cursor.accept, if_neg (by simp [h])]
    have hflag : (c.accept .declaring).2 = c.advance .stream := by
      rw [Cursor.accept, if_pos h]
    rw [hnone, hflag]
    omega

/-- The word behind the flags is passed as well. -/
theorem position_lt_word (h : (c.peek .stream).kind ≠ .eof) :
    c.position < (c.behindFlags.advance .stream).position := by
  have hle := (Cursor.reaches_advance .stream c.behindFlags).position_le
  rcases (reaches_flags c).eq_or_lt with heq | hlt
  · rw [heq, Cursor.position_advance h]
    exact Nat.lt_succ_self _
  · omega

/-- A declaration takes at least the reserved word that it starts with. -/
theorem position_lt_read (h : read c = (result, d)) (hne : (c.peek .stream).kind ≠ .eof) :
    c.position < d.position := by
  have hlt := position_lt_word hne
  cases reads h with
  | binding _ _ h => exact Nat.lt_of_lt_of_le hlt (reaches_readBinding h).position_le
  | function _ h => exact Nat.lt_of_lt_of_le hlt (reaches_readFunction h).position_le
  | neither => exact hlt

end DeclClause

/-- A statement takes at least the reserved word that it starts with. -/
theorem Clause.position_lt_read {c d : Cursor} {result : Except Issue Clause}
    (h : read c = (result, d)) (hstarts : (c.peek .stream).kind.startsStatement = true) :
    c.position < d.position := by
  have hne : (c.peek .stream).kind ≠ .eof := by
    intro heof
    rw [heof] at hstarts
    cases hstarts
  have hpos : (c.advance .stream).position = c.position + 1 := Cursor.position_advance hne
  cases reads h with
  | ret => omega
  | retOf =>
    have hle := (Chain.reaches_read .statement (c.advance .stream)).position_le
    omega
  | decl _ _ h => exact DeclClause.position_lt_read h hne
  | broken _ _ h => exact DeclClause.position_lt_read h hne
  | neither hnone =>
    rw [hnone] at hstarts
    cases hstarts

namespace Attempt

/-- An attempt in front of the end passes a token. -/
theorem position_lt_readOne {c : Cursor} (h : (c.peek .stream).kind ≠ .eof) :
    c.position < (readOne c).2.position := by
  rcases hone : readOne c with ⟨attempt, d⟩
  cases hstarts : (c.peek .stream).kind.startsStatement with
  | true =>
    cases readsOne hone with
    | read hread => exact Clause.position_lt_read hread hstarts
    | failed hread =>
      have hlt := Clause.position_lt_read hread hstarts
      exact Nat.lt_of_lt_of_le hlt (Cursor.reaches_recover _).position_le
  | false =>
    -- The reader leaves the token, and recovery skips it.
    rw [readOne, Clause.read_of_not_keyword hstarts] at hone
    cases hone
    exact Cursor.position_lt_recover (by simp [Cursor.isBoundary, h, hstarts])

/-- Every attempt in front of the end takes a token. -/
theorem remaining_readOne_lt {c : Cursor} (h : (c.peek .stream).kind ≠ .eof) :
    (readOne c).2.remaining < c.remaining := by
  have hlt := position_lt_readOne h
  have hsum := (reaches_readOne c).position_add_remaining
  omega

/-- Reading a program stops at an end of input. -/
theorem peek_readAll (c : Cursor) : ((readAll c).2.peek .stream).kind = .eof := by
  -- Reading stops at an end or without fuel, and each attempt uses up at least as many tokens as
  -- it does fuel.
  suffices ∀ fuel c, c.remaining ≤ fuel → ((readUpTo fuel c).2.peek .stream).kind = .eof from
    this _ _ (Nat.le_refl _)
  intro fuel
  induction fuel with
  | zero =>
    intro c h
    have : c.ahead = [] := List.length_eq_zero_iff.1 (by simpa [Cursor.remaining] using h)
    simp [readUpTo, Cursor.peek, this, Token.eofAt]
  | succ fuel ih =>
    intro c h
    unfold readUpTo
    split
    · assumption
    · rename_i hne
      have := remaining_readOne_lt hne
      exact ih _ (by omega)

end Attempt

/-! ### The issues of a program -/

/-- A name is a token that is passed. -/
theorem Cursor.position_readName {place : NamePlace} {c d : Cursor} {name : Identifier}
    (h : c.readName place = (.ok name, d)) : d.position = c.position + 1 := by
  obtain ⟨hpeek, rfl⟩ := readName_eq_ok h
  exact position_advance (by rw [hpeek]; nofun)

namespace DeclClause

variable {head : DeclHead} {binding : Binding} {c d : Cursor} {r : DeclClause}

/-- The name of a variable makes up for the issue that its initializer may
have too many. -/
theorem length_issues_readBinding_le (h : readBinding head binding c = (.ok r, d)) :
    r.issues.length + c.position ≤ d.position := by
  cases readsBinding h with
  | declared hname =>
    have hpos := Cursor.position_readName hname
    show 0 + c.position ≤ _
    omega
  | @initialized name e hname =>
    have hpos := Cursor.position_readName hname
    have hequals := (Cursor.reaches_advance .stream e).position_le
    have hinit := (Chain.between_read .statement (e.advance .stream)).length_issues_le.1
    show (Chain.read .statement (e.advance .stream)).1.issues.length + c.position ≤ _
    omega

/-- A function that is read has nothing to report. -/
theorem issues_readFunction (h : readFunction head c = (.ok r, d)) : r.issues = [] := by
  cases readsFunction h with
  | bare => rfl
  | listed => rfl

/-- The reserved word is passed and has no issue, so the spare issue of the initializer is made up
for. -/
theorem length_issues_read_le (h : read c = (.ok r, d)) :
    r.issues.length + c.position ≤ d.position := by
  have hword := (reaches_word c).position_le
  cases reads h with
  | binding _ _ h =>
    have hle := length_issues_readBinding_le h
    omega
  | function _ h =>
    have hle := (reaches_readFunction h).position_le
    rw [issues_readFunction h, List.length_nil]
    omega

end DeclClause

/-- A statement has no more issues than tokens that are passed. -/
theorem Clause.length_issues_read_le {c d : Cursor} {r : Clause} (h : read c = (.ok r, d)) :
    r.issues.length + c.position ≤ d.position := by
  cases reads h with
  | ret hword =>
    have hpos := Cursor.position_advance (s := .stream) (c := c) (by rw [hword]; nofun)
    show 0 + c.position ≤ _
    omega
  | retOf hword =>
    have hpos := Cursor.position_advance (s := .stream) (c := c) (by rw [hword]; nofun)
    have harg := (Chain.between_read .statement (c.advance .stream)).length_issues_le.1
    show (Chain.read .statement (c.advance .stream)).1.issues.length + c.position ≤ _
    omega
  | decl _ _ h => exact DeclClause.length_issues_read_le h

namespace Attempt

/-- An attempt has no more issues than tokens that are passed. The issue of a
failed one is made up for by the progress of recovery. -/
theorem length_issues_readOne_le {c : Cursor} (h : (c.peek .stream).kind ≠ .eof) :
    (readOne c).1.issues.length + c.position ≤ (readOne c).2.position := by
  have hlt := position_lt_readOne h
  rcases hone : readOne c with ⟨attempt, d⟩
  rw [hone] at hlt
  cases readsOne hone with
  | read h => exact Clause.length_issues_read_le h
  | @failed issue e h =>
    -- A failed attempt may have taken nothing, but recovery goes on behind it.
    show 1 + c.position ≤ e.recover.2.position
    exact Nat.add_comm 1 _ ▸ hlt

/-- Attempts follow one another, so their bounds add up. -/
theorem length_issues_readUpTo_le (fuel : Nat) (c : Cursor) :
    ((readUpTo fuel c).1.flatMap issues).length + c.position ≤ (readUpTo fuel c).2.position := by
  induction fuel generalizing c with
  | zero => exact Nat.le_of_eq (Nat.zero_add _)
  | succ fuel ih =>
    unfold readUpTo
    split
    · exact Nat.le_of_eq (Nat.zero_add _)
    · rename_i hne
      have hone := length_issues_readOne_le hne
      have hrest := ih (readOne c).2
      simp only [List.flatMap_cons, List.length_append]
      omega

/-- A program has no more issues than tokens that are passed. -/
theorem length_issues_readAll_le (c : Cursor) :
    ((readAll c).1.flatMap issues).length + c.position ≤ (readAll c).2.position :=
  length_issues_readUpTo_le _ _

/-- Every number of attempts that is enough gives the same program. -/
theorem readUpTo_eq_readAll {c : Cursor} {fuel : Nat} (h : c.remaining ≤ fuel) :
    readUpTo fuel c = readAll c := by
  -- Any two bounds that are not below what is left give the same. On one of them, for any other
  -- one.
  suffices ∀ m n c, Cursor.remaining c ≤ m → c.remaining ≤ n → readUpTo m c = readUpTo n c from
    this _ _ _ h (Nat.le_refl _)
  intro m
  induction m with
  | zero =>
    intro n c hm hn
    have hnil : c.ahead = [] := List.length_eq_zero_iff.mp (Nat.le_zero.mp hm)
    cases n with
    | zero => rfl
    | succ n =>
      have heof : (c.peek .stream).kind = .eof := by
        rw [Cursor.peek, hnil]
        rfl
      rw [readUpTo, readUpTo, if_pos heof]
  | succ m ih =>
    intro n c hm hn
    by_cases heof : (c.peek .stream).kind = .eof
    · cases n with
      | zero => rw [readUpTo, readUpTo, if_pos heof]
      | succ n => rw [readUpTo, readUpTo, if_pos heof, if_pos heof]
    · have hlt := remaining_readOne_lt heof
      cases n with
      | zero => omega
      | succ n =>
        rw [readUpTo, readUpTo, if_neg heof, if_neg heof]
        dsimp only
        rw [ih n (readOne c).2 (by omega) (by omega)]

/-- At the end there is nothing to attempt. -/
theorem readAll_of_eof {c : Cursor} (h : (c.peek .stream).kind = .eof) : readAll c = ([], c) := by
  rw [← readUpTo_eq_readAll (Nat.le_succ c.remaining), readUpTo, if_pos h]

/-- In front of anything else there is one attempt, and then the rest of the program. -/
theorem readAll_of_ne_eof {c : Cursor} (h : (c.peek .stream).kind ≠ .eof) :
    readAll c = ((readOne c).1 :: (readAll (readOne c).2).1, (readAll (readOne c).2).2) := by
  have hlt := remaining_readOne_lt h
  rw [← readUpTo_eq_readAll (Nat.le_succ c.remaining), readUpTo, if_neg h]
  dsimp only
  rw [readUpTo_eq_readAll (Nat.le_of_lt hlt)]

end Attempt

/-! ### Every stream, every place in it -/

/-- Reading an expression ends, moves on, and reports little. -/
structure Chain.Progress (c : Cursor) : Prop where
  /-- Every depth of calls from some depth on gives the same answer. -/
  ends (s : Scope) {fuel : Nat} (h : depth c ≤ fuel) : readUpTo s fuel c = some (read s c)
  forward (s : Scope) : c.position ≤ (read s c).2.position
  /-- A token is passed, unless only the final end of input is left. -/
  advances (h : c.ahead ≠ []) : c.position < (read .stream c).2.position
  /-- In the scope of a statement, unless the next reserved word is there. -/
  advances_statement (h : c.ahead ≠ [])
    (hword : ∀ t ∈ c.ahead.head?, t.kind.startsStatement = false) :
    c.position < (read .statement c).2.position
  issues (s : Scope) : (read s c).1.issues.length ≤ (read s c).2.position - c.position + 1

/-- Reading a program ends at an end of input, moves on, and reports little. -/
structure Attempt.Progress (c : Cursor) : Prop where
  /-- Every number of attempts from some number on gives the same answer. -/
  ends {fuel : Nat} (h : c.remaining ≤ fuel) : readUpTo fuel c = readAll c
  stops : ((readAll c).2.peek .stream).kind = .eof
  forward : c.position ≤ (readAll c).2.position
  /-- Every attempt that is made passes a token. -/
  advances (h : (c.peek .stream).kind ≠ .eof) : c.position < (readOne c).2.position
  issues : ((readAll c).1.flatMap Attempt.issues).length ≤ (readAll c).2.position - c.position

/-- Each field is a lemma on chains from above. -/
theorem Chain.progress (c : Cursor) : Progress c where
  ends s _ h := readUpTo_eq_read s h
  forward s := (reaches_read s c).position_le
  advances h := position_lt_read (List.head_mem_head? h) rfl
  advances_statement h hword :=
    position_lt_read (List.head_mem_head? h) (hword _ (List.head_mem_head? h))
  issues s := by
    have h := (between_read s c).length_issues_le.1
    omega

/-- Each field is a lemma on attempts from above. -/
theorem Attempt.progress (c : Cursor) : Progress c where
  ends h := readUpTo_eq_readAll h
  stops := peek_readAll c
  forward := (reaches_readAll c).position_le
  advances h := position_lt_readOne h
  issues := by
    have h := length_issues_readAll_le c
    omega

/-- The final end of input is not one of the tokens ahead. -/
theorem Cursor.remaining_ofTokens_le (tokens : List Token) :
    (ofTokens tokens).remaining ≤ tokens.length := by
  unfold ofTokens remaining
  split
  · exact Nat.zero_le _
  · split
    · simp
    · exact Nat.le_refl _

/-- **Reading ends, moves on and reports little**, in both modes, from every
place in every stream of tokens. An expression has at most one issue more than
it takes tokens, and a program at most as many issues as there are tokens. -/
theorem progress_read (tokens : List Token) (n : Nat) :
    let c := (Cursor.ofTokens tokens).skip n
    Chain.Progress c ∧ c.position ≤ (DeclClause.read c).2.position ∧
      c.position ≤ (Clause.read c).2.position ∧ Attempt.Progress c ∧
      ((Attempt.readAll c).1.flatMap Attempt.issues).length ≤ tokens.length := by
  intro c
  have hdecl : c.Reaches (DeclClause.read c).2 := DeclClause.reaches_read rfl
  have hclause : c.Reaches (Clause.read c).2 := Clause.reaches_read rfl
  refine ⟨Chain.progress c, hdecl.position_le, hclause.position_le, Attempt.progress c, ?_⟩
  -- The tokens that are passed were ahead at the start of the stream.
  have hissues := Attempt.length_issues_readAll_le c
  have hread := (Attempt.reaches_readAll c).position_add_remaining
  have hskip : c.position + c.remaining = _ :=
    (Cursor.reaches_skip n (.ofTokens tokens)).position_add_remaining
  have hle := Cursor.remaining_ofTokens_le tokens
  have hstart := Cursor.position_ofTokens tokens
  omega

end ExprFrontEnd
