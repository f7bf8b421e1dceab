import ExprFrontEnd.Clause.Read
import ExprFrontEnd.Proofs.Tokens

/-!
# `ExprFrontEnd.Proofs.Readers`: how the readers of statements go

A reader of a statement is a chain of matches on what the readers in it give. Here each of them is
taken apart once, so that no other property of a reader has to.

* `Cursor.readName_eq_ok` and `Cursor.readName_eq_error` say what a reader of a name gives,
  `Cursor.tokens_readParams` and `Cursor.breaksOff_readParams` what one of parameters does.
* `DeclClause.ReadsBinding`, `DeclClause.ReadsFunction`, `DeclClause.Reads`, `Clause.Reads` and
  `Attempt.ReadsOne` have one constructor for every way through a reader, with what is seen and
  read on the way, what the reader gives and where it stops.
* `DeclClause.readsBinding` and its siblings say that every run is one of these.

So a property of what is read, of the issue that makes a reader give up, or of where it stops is
shown by cases, and a change to a reader is a change to its constructors.
-/

set_option autoImplicit false

namespace ExprFrontEnd

/-! ### Names and flags -/

namespace Cursor

variable {c d : Cursor} {place : NamePlace}

/-- The token in place of a name is passed, whatever it is. -/
theorem readName_snd (place : NamePlace) (c : Cursor) :
    (c.readName place).2 = c.advance .stream := by
  simp only [readName]
  split <;> rfl

/-- A name that is read is the next token, and it is passed. -/
theorem readName_eq_ok {name : Identifier} (h : c.readName place = (.ok name, d)) :
    c.peek .stream = ⟨.identifier name.name, name.span⟩ ∧ d = c.advance .stream := by
  simp only [readName] at h
  split at h
  · rename_i text hk
    cases h
    exact ⟨by rw [← hk], rfl⟩
  · cases h

/-- A name that is missing is reported at the next token, which is passed as well. -/
theorem readName_eq_error {issue : Issue} (h : c.readName place = (.error issue, d)) :
    issue = ⟨.nameExpected place (c.peek .stream).kind, (c.peek .stream).span⟩ ∧
      d = c.advance .stream := by
  simp only [readName] at h
  split at h
  · cases h
  · cases h
    exact ⟨rfl, rfl⟩

/-- The cursor behind the flags of a declaration. -/
def behindFlags (c : Cursor) : Cursor := ((c.accept .exporting).2.accept .declaring).2

/-! ### Names in parentheses -/

/-- The names that are read are those of tokens ahead, and a token ahead is the parenthesis
behind them. -/
theorem tokens_readNames (finish : Span) (ahead : List Token) (position : Nat) :
    ∀ params, (readNames finish ahead position).1 = .ok params →
      (∀ name ∈ params.1, ∃ t ∈ ahead, t.kind = .identifier name.name ∧ name.span = t.span) ∧
        ∃ t ∈ ahead, params.2 = t.span := by
  fun_induction readNames finish ahead position with
  -- Readers that give up have no names.
  | case1 | case2 | case4 | case6 | case7 =>
    intro params h
    cases h
  | case3 t position name hk u rest hu names close d hd ih =>
    intro params h
    cases h
    rw [hd] at ih
    obtain ⟨hnames, v, hv, hclose⟩ := ih (names, close) rfl
    have hrest : ∀ {w : Token}, w ∈ rest → w ∈ t :: u :: rest := fun hw => .tail t (.tail u hw)
    refine ⟨List.forall_mem_cons.mpr ⟨⟨t, .head _, hk, rfl⟩, fun name hname => ?_⟩,
      v, hrest hv, hclose⟩
    obtain ⟨w, hw, hname⟩ := hnames name hname
    exact ⟨w, hrest hw, hname⟩
  | case5 t position name hk u rest hu =>
    intro params h
    cases h
    exact ⟨List.forall_mem_singleton.mpr ⟨t, .head _, hk, rfl⟩, u, .tail t (.head rest), rfl⟩

/-- The same for the parameters of a function, of which there may be none. -/
theorem tokens_readParams {c d : Cursor} {params : List Identifier × Span}
    (h : c.readParams = (.ok params, d)) :
    (∀ name ∈ params.1, ∃ t ∈ c.ahead, t.kind = .identifier name.name ∧ name.span = t.span) ∧
      ∃ t ∈ c.ahead, params.2 = t.span := by
  simp only [readParams] at h
  split at h
  · rename_i hclose
    cases h
    refine ⟨List.forall_mem_nil _, c.peek .stream, ?_, rfl⟩
    exact peek_mem_ahead (by rw [hclose]; nofun)
  · have hnames := tokens_readNames c.finish c.ahead c.position params
    rw [h] at hnames
    exact hnames rfl

/-- The issue of parameters that break off between two cursors: at one on the way there is neither
a name nor a delimiter next. -/
def BreaksOff (c d : Cursor) (issue : Issue) : Prop :=
  ∃ t : Cursor, c.Reaches t ∧ t.Reaches d ∧
    (issue = ⟨.nameExpected .parameter (t.peek .stream).kind, (t.peek .stream).span⟩ ∨
      issue = ⟨.delimiterExpected (t.peek .stream).kind, (t.peek .stream).span⟩)

/-- A list of names breaks off at a token that was found in place of a name or a delimiter. -/
theorem breaksOff_readNames (finish : Span) (ahead : List Token) (position : Nat) :
    ∀ issue, (readNames finish ahead position).1 = .error issue →
      BreaksOff ⟨ahead, finish, position⟩ (readNames finish ahead position).2 issue := by
  fun_induction readNames finish ahead position with
  -- No token is left, so the end of the input is what was found.
  | case1 position =>
    intro issue h
    cases h
    exact ⟨_, .refl _, .refl _, .inl rfl⟩
  -- The input ends behind a name.
  | case2 t position name hk =>
    intro issue h
    cases h
    exact ⟨⟨[], finish, position + 1⟩, reaches_cons t [] finish position, .refl _, .inr rfl⟩
  | case3 | case5 =>
    intro issue h
    cases h
  -- The issue is one of the names behind a comma, two tokens further on.
  | case4 t position name hk u rest hu issue d hd ih =>
    intro issue' h
    cases h
    rw [hd] at ih
    obtain ⟨v, hv, hbehind, hissue⟩ := ih issue rfl
    have hcomma := (reaches_cons t (u :: rest) finish position).trans (reaches_cons u rest finish _)
    exact ⟨v, hcomma.trans hv, hbehind, hissue⟩
  -- Neither a comma nor a parenthesis stands behind the name.
  | case6 t position name hk u rest =>
    intro issue h
    cases h
    exact ⟨⟨u :: rest, finish, position + 1⟩, reaches_cons t _ finish position,
      reaches_cons u rest finish _, .inr rfl⟩
  -- The token is no name.
  | case7 t rest position =>
    intro issue h
    cases h
    exact ⟨_, .refl _, reaches_cons t rest finish position, .inl rfl⟩

/-- The same for parameters, which break off as their names do. -/
theorem breaksOff_readParams {c d : Cursor} {issue : Issue}
    (h : c.readParams = (.error issue, d)) : BreaksOff c d issue := by
  simp only [readParams] at h
  split at h
  · cases h
  · have hnames := breaksOff_readNames c.finish c.ahead c.position issue
    rw [h] at hnames
    exact hnames rfl

end Cursor

namespace DeclClause

variable {head : DeclHead} {binding : Binding} {c d : Cursor} {result : Except Issue DeclClause}

/-- The head of a declaration: where it starts, and which flags it has. -/
def headAt (c : Cursor) : DeclHead :=
  ⟨(c.peek .stream).span, (c.accept .exporting).1, ((c.accept .exporting).2.accept .declaring).1⟩

/-! ### Variables -/

/-- What a variable behind its reserved word is read as, and where reading stops. -/
inductive ReadsBinding (head : DeclHead) (binding : Binding) (c : Cursor) :
    Except Issue DeclClause → Cursor → Prop
  /-- There is no name. -/
  | unnamed {issue : Issue} {d : Cursor} (hname : c.readName .binding = (.error issue, d)) :
      ReadsBinding head binding c (.error issue) d
  /-- A declared variable ends with its name. -/
  | declared {name : Identifier} {d : Cursor} (hname : c.readName .binding = (.ok name, d))
      (hdeclared : head.declared = true) :
      ReadsBinding head binding c (.ok (.binding head binding name none)) d
  /-- Any other variable has an initializer behind a sign of equality. -/
  | initialized {name : Identifier} {d : Cursor} (hname : c.readName .binding = (.ok name, d))
      (hdeclared : head.declared = false) (hequals : (d.peek .stream).kind = .symbol .equals) :
      ReadsBinding head binding c
        (.ok (.binding head binding name (some (Chain.read .statement (d.advance .stream)).1)))
        (Chain.read .statement (d.advance .stream)).2
  /-- The sign of equality is missing, and the token in its place is left. -/
  | unset {name : Identifier} {d : Cursor} (hname : c.readName .binding = (.ok name, d))
      (hdeclared : head.declared = false) (hequals : (d.peek .stream).kind ≠ .symbol .equals) :
      ReadsBinding head binding c
        (.error ⟨.equalsExpected (d.peek .stream).kind, (d.peek .stream).span⟩) d

/-- The reader of a variable goes one of its ways. -/
theorem readsBinding (h : readBinding head binding c = (result, d)) :
    ReadsBinding head binding c result d := by
  unfold readBinding at h
  split at h
  · rename_i hname
    cases h
    exact .unnamed hname
  · rename_i name e hname
    split at h
    · rename_i hdeclared
      cases h
      exact .declared hname hdeclared
    · rename_i hdeclared
      rw [Bool.not_eq_true] at hdeclared
      dsimp only at h
      split at h
      · rename_i hequals
        cases h
        exact .initialized hname hdeclared hequals
      · rename_i hequals
        cases h
        exact .unset hname hdeclared hequals

/-! ### Functions -/

/-- What a function behind its reserved word is read as, and where reading stops. -/
inductive ReadsFunction (head : DeclHead) (c : Cursor) : Except Issue DeclClause → Cursor → Prop
  /-- There is no name. -/
  | unnamed {issue : Issue} {d : Cursor} (hname : c.readName .function = (.error issue, d)) :
      ReadsFunction head c (.error issue) d
  /-- Without a parenthesis the function ends with its name. -/
  | bare {name : Identifier} {d : Cursor} (hname : c.readName .function = (.ok name, d))
      (hopen : (d.peek .stream).kind ≠ .symbol .openParen) :
      ReadsFunction head c (.ok (.function head name [] none)) d
  /-- The parameters are read up to their closing parenthesis. -/
  | listed {name : Identifier} {e : Cursor} {params : List Identifier} {close : Span} {d : Cursor}
      (hname : c.readName .function = (.ok name, e))
      (hopen : (e.peek .stream).kind = .symbol .openParen)
      (hparams : (e.advance .stream).readParams = (.ok (params, close), d)) :
      ReadsFunction head c (.ok (.function head name params (some close))) d
  /-- The parameters break off. -/
  | unlisted {name : Identifier} {e : Cursor} {issue : Issue} {d : Cursor}
      (hname : c.readName .function = (.ok name, e))
      (hopen : (e.peek .stream).kind = .symbol .openParen)
      (hparams : (e.advance .stream).readParams = (.error issue, d)) :
      ReadsFunction head c (.error issue) d

/-- The reader of a function goes one of its ways. -/
theorem readsFunction (h : readFunction head c = (result, d)) :
    ReadsFunction head c result d := by
  unfold readFunction at h
  split at h
  · rename_i hname
    cases h
    exact .unnamed hname
  · rename_i name e hname
    dsimp only at h
    split at h
    · rename_i hopen
      split at h
      · rename_i hparams
        cases h
        exact .unlisted hname hopen hparams
      · rename_i hparams
        cases h
        exact .listed hname hopen hparams
    · rename_i hopen
      cases h
      exact .bare hname hopen

/-! ### Declarations -/

/-- What a declaration is read as, and where reading stops. -/
inductive Reads (c : Cursor) : Except Issue DeclClause → Cursor → Prop
  /-- A variable behind its flags and its reserved word. -/
  | binding (binding : Binding) {result : Except Issue DeclClause} {d : Cursor}
      (hword : (c.behindFlags.peek .stream).kind = .keyword binding.keyword)
      (h : readBinding (headAt c) binding (c.behindFlags.advance .stream) = (result, d)) :
      Reads c result d
  /-- A function behind its flags and its reserved word. -/
  | function {result : Except Issue DeclClause} {d : Cursor}
      (hword : (c.behindFlags.peek .stream).kind = .keyword .fn)
      (h : readFunction (headAt c) (c.behindFlags.advance .stream) = (result, d)) :
      Reads c result d
  /-- The token behind the flags starts no declaration. It is passed as well. -/
  | neither
      (hbinding : ∀ binding : Binding,
        (c.behindFlags.peek .stream).kind ≠ .keyword binding.keyword)
      (hfunction : (c.behindFlags.peek .stream).kind ≠ .keyword .fn) :
      Reads c (.error ⟨.statementExpected (c.behindFlags.peek .stream).kind,
        (c.behindFlags.peek .stream).span⟩) (c.behindFlags.advance .stream)

/-- The reader of a declaration goes one of its ways. -/
theorem reads (h : read c = (result, d)) : Reads c result d := by
  simp only [read] at h
  split at h
  · rename_i hword
    exact .binding .val hword h
  · rename_i hword
    exact .binding .var hword h
  · rename_i hword
    exact .function hword h
  · rename_i hval hvar hfn
    cases h
    refine .neither (fun binding => ?_) hfn
    cases binding with
    | val => exact hval
    | var => exact hvar

end DeclClause

/-! ### Statements -/

namespace Clause

variable {c d : Cursor} {result : Except Issue Clause}

/-- In front of a token that starts no statement the reader gives up at once, and takes
nothing. -/
theorem read_of_not_keyword (h : (c.peek .stream).kind.startsStatement = false) :
    read c = (.error ⟨.statementExpected (c.peek .stream).kind, (c.peek .stream).span⟩, c) := by
  simp only [read]
  split <;> simp_all [TokenKind.startsStatement]

/-- Whether a `return` in front of a cursor has no argument: the next token ends an expression or
starts a statement. -/
def EndsReturn (c : Cursor) : Prop :=
  (TerminatorKind.ofKind? (c.peek .stream).kind).isSome = true ∨
    (c.peek .stream).kind.startsStatement = true

/-- What a statement is read as, and where reading stops. -/
inductive Reads (c : Cursor) : Except Issue Clause → Cursor → Prop
  /-- A `return` without an argument. -/
  | ret (hword : (c.peek .stream).kind = .keyword .returning)
      (hend : EndsReturn (c.advance .stream)) :
      Reads c (.ok (.ret (c.peek .stream) none)) (c.advance .stream)
  /-- A `return` with its argument. -/
  | retOf (hword : (c.peek .stream).kind = .keyword .returning)
      (hend : ¬EndsReturn (c.advance .stream)) :
      Reads c (.ok (.ret (c.peek .stream) (some (Chain.read .statement (c.advance .stream)).1)))
        (Chain.read .statement (c.advance .stream)).2
  /-- A declaration. -/
  | decl {word : Keyword} {declaration : DeclClause} {d : Cursor}
      (hword : (c.peek .stream).kind = .keyword word) (hne : word ≠ .returning)
      (h : DeclClause.read c = (.ok declaration, d)) :
      Reads c (.ok (.decl declaration)) d
  /-- A declaration that breaks off. -/
  | broken {word : Keyword} {issue : Issue} {d : Cursor}
      (hword : (c.peek .stream).kind = .keyword word) (hne : word ≠ .returning)
      (h : DeclClause.read c = (.error issue, d)) :
      Reads c (.error issue) d
  /-- The token starts no statement, and it is left. -/
  | neither (hstarts : (c.peek .stream).kind.startsStatement = false) :
      Reads c (.error ⟨.statementExpected (c.peek .stream).kind, (c.peek .stream).span⟩) c

/-- The reader of a statement goes one of its ways. -/
theorem reads (h : read c = (result, d)) : Reads c result d := by
  cases hstarts : (c.peek .stream).kind.startsStatement with
  | false =>
    rw [read_of_not_keyword hstarts] at h
    cases h
    exact .neither hstarts
  | true =>
    simp only [read] at h
    split at h
    · rename_i hword
      split at h
      · rename_i hend
        cases h
        exact .ret hword (by simpa [EndsReturn] using hend)
      · rename_i hend
        cases h
        exact .retOf hword (by simpa [EndsReturn] using hend)
    · rename_i word hne hword
      split at h
      · rename_i hdecl
        cases h
        exact .decl hword hne hdecl
      · rename_i hdecl
        cases h
        exact .broken hword hne hdecl
    · rename_i hword
      obtain ⟨word, hk⟩ := TokenKind.exists_of_startsStatement hstarts
      exact absurd hk (hword word)

end Clause

/-! ### Attempts -/

namespace Attempt

/-- What one attempt to read a statement gives, and where it stops. -/
inductive ReadsOne (c : Cursor) : Attempt → Cursor → Prop
  /-- A statement is read. -/
  | read {clause : Clause} {d : Cursor} (h : Clause.read c = (.ok clause, d)) :
      ReadsOne c (.read clause) d
  /-- The reader gives up, and tokens are skipped up to the next reserved word. -/
  | failed {issue : Issue} {d : Cursor} (h : Clause.read c = (.error issue, d)) :
      ReadsOne c (.failed issue d.recover.1) d.recover.2

/-- An attempt goes one of its ways. -/
theorem readsOne {c d : Cursor} {attempt : Attempt} (h : readOne c = (attempt, d)) :
    ReadsOne c attempt d := by
  unfold readOne at h
  split at h
  · rename_i hread
    cases h
    exact .read hread
  · rename_i hread
    cases h
    exact .failed hread

end Attempt

end ExprFrontEnd
