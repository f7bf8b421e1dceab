import ExprFrontEnd.Proofs.OnePass
import ExprFrontEnd.Proofs.Truncation

/-!
# `ExprFrontEnd.Proofs.BrokenHeads`: declarations that break off

The head of a declaration may break off in front of the next statement: a name is
missing, or the `=` of a variable that has to have a value, or the rest of a list
of parameters (`BrokenHead`). The attempt fails with one issue, which is about the
first reserved word of the next statement, and reading goes on at a reserved word.

Which one depends on the place. The reader of a variable looks for `=` and leaves
what else it finds, so the next statement is read as if nothing were in front of
it. The readers of names and of parameters take the token that they report. If
that is the first reserved word of a statement, then the statement is lost, and
reading goes on at the reserved word behind it (`HeadBreak.resume`).

* `DeclClause.read_brokenHead`: the reader of a declaration gives up behind that
  word or in front of it (`HeadBreak.giveUp`). There is one lemma for each place
  where a head can break off.
* `Attempt.parseAll_brokenHead`: **what becomes of the statements behind a head
  that breaks off**, for every such head and whatever follows.
* `Attempt.parseAll_ne_of_brokenHead`: the next statement is not always read.
-/

set_option autoImplicit false

namespace ExprFrontEnd

/-- Where a declaration breaks off, behind its own reserved word. -/
inductive HeadBreak where
  /-- The name of a variable is due. -/
  | binding (b : Binding)
  /-- The `=` of a variable is due. -/
  | equals (b : Binding) (name : String)
  /-- The name of a function is due. -/
  | function
  /-- Something is due in a list of parameters: a comma or the closing parenthesis
  if there is a last parameter, and a parameter if it ends in a comma or is empty. -/
  | params (name : String) (complete : List String) (last : Option String)
  deriving DecidableEq, Repr

namespace HeadBreak

/-- The reserved word of the declaration. -/
def word : HeadBreak → Keyword
  | binding b | equals b _ => b.keyword
  | function | params _ _ _ => .fn

/-- The declaration's own reserved word is no flag, and starts a declaration. -/
theorem word_ne (b : HeadBreak) :
    b.word ≠ .exporting ∧ b.word ≠ .declaring ∧ b.word ≠ .returning := by
  cases b with
  | binding b | equals b name => cases b <;> simp [word, Binding.keyword]
  | function | params name complete last => simp [word]

/-- The tokens behind the reserved word. -/
def kinds : HeadBreak → List TokenKind
  | binding _ | function => []
  | equals _ name => [.identifier name]
  | params name complete last =>
    .identifier name :: .symbol .openParen ::
      (complete.flatMap (fun p => [.identifier p, .symbol .comma])
        ++ last.toList.map TokenKind.identifier)

/-- What is wrong with the token that is found there. -/
def problem (found : TokenKind) : HeadBreak → Problem
  | binding _ => .nameExpected .binding found
  | equals _ _ => .equalsExpected found
  | function => .nameExpected .function found
  | params _ _ last =>
    last.elim (.nameExpected .parameter found) fun _ => .delimiterExpected found

/-- Where a reader gives up that finds something else: in front of that token if
it looks for `=`, and behind it otherwise. -/
def giveUp (c : Cursor) : HeadBreak → Cursor
  | equals _ _ => c
  | _ => c.advance .stream

/-- Where reading goes on: at the next reserved word from there. -/
def resume (c : Cursor) (b : HeadBreak) : Cursor := (b.giveUp c).recover.2

end HeadBreak

/-- The head of a declaration that breaks off. -/
structure BrokenHead where
  exported : Bool
  declared : Bool
  place : HeadBreak
  /-- No `=` is due if the variable is just declared. -/
  undeclared : ∀ b name, place = .equals b name → declared = false

/-- The tokens of the head. -/
def BrokenHead.kinds (h : BrokenHead) : List TokenKind :=
  flag h.exported .exporting ++ (flag h.declared .declaring ++ .keyword h.place.word
    :: h.place.kinds)

/-! ### Readers that give up -/

section
variable {c d : Cursor} {next : Token} {word : Keyword}

namespace Cursor

/-- The cursor is in front of a reserved word. -/
def AtWord (next : Token) (word : Keyword) (c : Cursor) : Prop :=
  c.ahead.head? = some next ∧ next.kind = .keyword word

/-- A cursor in front of a reserved word shows it, since nothing is out of scope in the stream. -/
theorem AtWord.peek_stream (h : d.AtWord next word) : d.peek .stream = next := by
  obtain ⟨ahead, finish, position⟩ := d
  cases ahead with
  | nil => cases h.1
  | cons t rest => exact Option.some.inj h.1

/-- A name that is due is looked for in the reserved word. -/
theorem AtWord.readName (h : d.AtWord next word) (place : NamePlace) :
    d.readName place = (.error ⟨.nameExpected place next.kind, next.span⟩, d.advance .stream) := by
  simp only [Cursor.readName, h.peek_stream, h.2]

/-- Nothing is skipped in front of a reserved word. -/
theorem AtWord.recover (h : d.AtWord next word) : d.recover = (0, d) := by
  obtain ⟨ahead, finish, position⟩ := d
  cases ahead with
  | nil => cases h.1
  | cons t rest =>
    obtain rfl : t = next := Option.some.inj h.1
    have hk : isBoundary t.kind = true := by
      rw [h.2]
      rfl
    simp only [Cursor.recover, List.takeWhile_cons, hk, Bool.not_true, Bool.false_eq_true,
      ↓reduceIte, List.length_nil, List.drop_zero, Nat.add_zero]

/-- Where only `=` is missing, reading goes on right there. -/
theorem AtWord.resume_equals (h : d.AtWord next word) (b : Binding) (name : String) :
    (HeadBreak.equals b name).resume d = d := by
  rw [HeadBreak.resume, HeadBreak.giveUp, h.recover]

/-- A list of parameters that breaks off. -/
theorem Passes.readNames_brokenOff {complete : List String} {last : Option String} (f : String)
    (h : Passes (complete.flatMap (fun p => [.identifier p, .symbol .comma])
      ++ last.toList.map TokenKind.identifier) c d) (hd : d.AtWord next word) :
    readNames c.finish c.ahead c.position
      = (.error ⟨(HeadBreak.params f complete last).problem next.kind, next.span⟩,
        d.advance .stream) := by
  induction complete generalizing c with
  | nil =>
    obtain ⟨ahead, finish, position⟩ := d
    cases ahead with
    | nil => cases hd.1
    | cons u more =>
      obtain rfl : u = next := Option.some.inj hd.1
      have hu := hd.2
      cases last with
      -- The word stands where a name should be.
      | none =>
        obtain rfl : c = ⟨u :: more, finish, position⟩ := h
        simp only [readNames, hu, HeadBreak.problem]
        rfl
      -- The word stands behind a name, where a comma or the parenthesis should be.
      | some p =>
        obtain ⟨t, rest, finish, position, rfl, ht, hrest⟩ := h.exists_cons
        cases hrest
        simp only [readNames, ht, hu, HeadBreak.problem]
        rfl
  | cons p complete ih =>
    rw [List.flatMap_cons, List.append_assoc] at h
    obtain ⟨t, rest, finish, position, rfl, ht, h₁⟩ := h.exists_cons
    obtain ⟨u, rest, _, _, hc, hu, h₂⟩ := h₁.exists_cons
    cases hc
    simp only [readNames, ht, hu, ih h₂]
    rfl

/-- The same behind the opening parenthesis. What is next there is no closing one. -/
theorem Passes.readParams_brokenOff {complete : List String} {last : Option String} (f : String)
    (h : Passes (complete.flatMap (fun p => [.identifier p, .symbol .comma])
      ++ last.toList.map TokenKind.identifier) c d) (hd : d.AtWord next word) :
    c.readParams = (.error ⟨(HeadBreak.params f complete last).problem next.kind, next.span⟩,
      d.advance .stream) := by
  -- The list is not empty or the word is next; neither is a closing parenthesis.
  have hopen : (c.peek .stream).kind ≠ .symbol .closeParen := by
    cases complete with
    | nil =>
      cases last with
      | none =>
        obtain rfl : c = d := h
        rw [hd.peek_stream, hd.2]
        nofun
      | some p =>
        rw [(Passes.next (s := .stream) h rfl).1]
        nofun
    | cons p complete =>
      rw [(Passes.next (s := .stream) h rfl).1]
      nofun
  rw [readParams, if_neg hopen]
  exact h.readNames_brokenOff f hd

end Cursor

namespace DeclClause

/-- Where a variable lacks its name, the reserved word is taken for it. -/
theorem readBinding_noName (head : DeclHead) (b : Binding) (hd : d.AtWord next word) :
    readBinding head b d = (.error ⟨(HeadBreak.binding b).problem next.kind, next.span⟩,
      (HeadBreak.binding b).giveUp d) := by
  simp only [readBinding, hd.readName, HeadBreak.problem, HeadBreak.giveUp]

/-- What is found in place of `=` is left there. -/
theorem readBinding_noEquals (head : DeclHead) (b : Binding) {name : String}
    (hdeclared : head.declared = false) (h : Cursor.Passes [.identifier name] c d)
    (hd : d.AtWord next word) :
    readBinding head b c = (.error ⟨(HeadBreak.equals b name).problem next.kind, next.span⟩,
      (HeadBreak.equals b name).giveUp d) := by
  obtain ⟨hname, hrest⟩ := h.next (s := .stream) rfl
  obtain rfl : c.advance .stream = d := hrest
  have hequals : next.kind ≠ .symbol .equals := by
    rw [hd.2]
    nofun
  simp only [readBinding, Cursor.readName, hname, hdeclared, hd.peek_stream, if_neg hequals,
    Bool.false_eq_true, ↓reduceIte, HeadBreak.problem, HeadBreak.giveUp]

/-- Where a function lacks its name, the reserved word is taken for it. -/
theorem readFunction_noName (head : DeclHead) (hd : d.AtWord next word) :
    readFunction head d = (.error ⟨HeadBreak.function.problem next.kind, next.span⟩,
      HeadBreak.function.giveUp d) := by
  simp only [readFunction, hd.readName, HeadBreak.problem, HeadBreak.giveUp]

/-- Where a list of parameters breaks off, the reserved word is taken for what is due there. -/
theorem readFunction_openParams (head : DeclHead) {name : String} {complete : List String}
    {last : Option String} (h : Cursor.Passes (HeadBreak.params name complete last).kinds c d)
    (hd : d.AtWord next word) :
    readFunction head c
      = (.error ⟨(HeadBreak.params name complete last).problem next.kind, next.span⟩,
        (HeadBreak.params name complete last).giveUp d) := by
  obtain ⟨hname, h₁⟩ := Cursor.Passes.next (s := .stream) h rfl
  obtain ⟨hopen, h₂⟩ := h₁.next (s := .stream) rfl
  simp only [readFunction, Cursor.readName, hname, hopen, ↓reduceIte,
    h₂.readParams_brokenOff name hd, HeadBreak.giveUp]

/-- A declaration whose head breaks off. -/
theorem read_brokenHead (h : BrokenHead) (hc : Cursor.Passes h.kinds c d)
    (hd : d.AtWord next word) :
    read c = (.error ⟨h.place.problem next.kind, next.span⟩, h.place.giveUp d) := by
  obtain ⟨exported, declared, place, hundeclared⟩ := h
  obtain ⟨hexporting, hdeclaring, -⟩ := place.word_ne
  -- The flags are accepted one after the other, and the declaration's own word is next.
  obtain ⟨c₁, hacc₁, h₁⟩ : ∃ c₁, c.accept .exporting = (exported, c₁) ∧
      Cursor.Passes (flag declared .declaring ++ .keyword place.word :: place.kinds) c₁ d := by
    cases declared with
    | true => exact Cursor.accept_print hc (by decide)
    | false => exact Cursor.accept_print hc (by simpa using hexporting)
  obtain ⟨c₂, hacc₂, h₂⟩ := Cursor.accept_print h₁ (by simpa using hdeclaring)
  obtain ⟨hword, h₃⟩ := h₂.next (s := .stream) rfl
  cases place with
  | binding b =>
    obtain rfl : c₂.advance .stream = d := h₃
    cases b <;> simpa only [read, hacc₁, hacc₂, hword, HeadBreak.word, Binding.keyword] using
      readBinding_noName _ _ hd
  | equals b name =>
    have hdeclared : declared = false := hundeclared b name rfl
    cases b <;> simpa only [read, hacc₁, hacc₂, hword, HeadBreak.word, Binding.keyword] using
      readBinding_noEquals ⟨_, _, _⟩ _ hdeclared h₃ hd
  | function =>
    obtain rfl : c₂.advance .stream = d := h₃
    simpa only [read, hacc₁, hacc₂, hword, HeadBreak.word] using readFunction_noName _ hd
  | params name complete last =>
    simpa only [read, hacc₁, hacc₂, hword, HeadBreak.word] using readFunction_openParams _ h₃ hd

end DeclClause

/-! ### Programs -/

/-- A head starts with a reserved word, and not with `return`. -/
theorem BrokenHead.exists_kinds_eq_cons (h : BrokenHead) :
    ∃ w kinds, h.kinds = .keyword w :: kinds ∧ w ≠ .returning := by
  obtain ⟨exported, declared, place, hundeclared⟩ := h
  cases exported with
  | true => exact ⟨_, _, rfl, nofun⟩
  | false =>
    cases declared with
    | true => exact ⟨_, _, rfl, nofun⟩
    | false => exact ⟨_, _, rfl, place.word_ne.2.2⟩

/-- The attempt fails with one issue, at the reserved word. -/
theorem Attempt.readOne_brokenHead (h : BrokenHead) (hc : Cursor.Passes h.kinds c d)
    (hd : d.AtWord next word) :
    (c.peek .stream).kind ≠ .eof ∧ ∃ skipped,
      readOne c = (.failed ⟨h.place.problem next.kind, next.span⟩ skipped, h.place.resume d) := by
  obtain ⟨w, kinds, hkinds, hw⟩ := h.exists_kinds_eq_cons
  have hr := DeclClause.read_brokenHead h hc hd
  rw [hkinds] at hc
  have hk := (hc.next (s := .stream) rfl).1
  refine ⟨by rw [hk]; nofun, (h.place.giveUp d).recover.1, ?_⟩
  have hclause : Clause.read c
      = (.error ⟨h.place.problem next.kind, next.span⟩, h.place.giveUp d) := by
    simp only [Clause.read, hk]
    cases w with
    -- The head is one of a declaration.
    | returning => exact absurd rfl hw
    | exporting | declaring | val | var | fn => rw [hr]
  simp only [readOne, hclause]
  rfl

end

namespace Cursor

/-- What is in front of some tokens does not change how they end. -/
theorem ofTokens_append (front : List Token) {rest : List Token} (hrest : rest ≠ []) :
    ofTokens (front ++ rest)
      = ⟨front ++ (ofTokens rest).ahead, (ofTokens rest).finish, 0⟩ := by
  obtain ⟨last, hlast⟩ : ∃ last, rest.getLast? = some last :=
    ⟨_, List.getLast?_eq_some_getLast hrest⟩
  have hboth : (front ++ rest).getLast? = some last := by
    rw [List.getLast?_append_of_ne_nil _ hrest, hlast]
  simp only [ofTokens, hlast, hboth]
  split
  · rw [List.dropLast_append_of_ne_nil hrest]
  · rfl

/-- The tokens in front are passed, whatever is behind them. -/
theorem passes_front (front behind : List Token) (finish : Span) (position : Nat) :
    Passes (front.map Token.kind) ⟨front ++ behind, finish, position⟩
      ⟨behind, finish, position + front.length⟩ := by
  induction front generalizing position with
  | nil => rfl
  | cons t front ih =>
    have h := ih (position + 1)
    rw [Nat.add_right_comm] at h
    exact ⟨rfl, h⟩

end Cursor

/-- Where reading goes on does not depend on the position. -/
theorem HeadBreak.resume_moved (b : HeadBreak) (n : Nat) (c : Cursor) :
    b.resume (c.moved n) = (b.resume c).moved n := by
  have hgiveUp : b.giveUp (c.moved n) = (b.giveUp c).moved n := by
    cases b with
    | equals b name => rfl
    | binding b | function | params name complete last => exact Cursor.advance_moved n .stream c
  rw [resume, hgiveUp, Cursor.recover_moved, resume]

/-- **What becomes of the statements behind a head that breaks off.** In front of
the next statement, every such head costs one issue, which is about the reserved
word there. Behind it come the statements and the issues that are read from where
reading goes on. If only `=` is missing, that is the reserved word itself. If not,
it is the one behind it, and the next statement is lost. -/
theorem Attempt.parseAll_brokenHead (mode : Reduction) (h : BrokenHead) {head : List Token}
    (hhead : head.map Token.kind = h.kinds) (word : Keyword) (span : Span) (more : List Token) :
    let next : Token := ⟨.keyword word, span⟩
    let whole := parseAll mode (.ofTokens (head ++ next :: more))
    let rest := parseAll mode (h.place.resume (.ofTokens (next :: more)))
    whole.value = none :: rest.value ∧
      whole.issues = ⟨h.place.problem next.kind, span⟩ :: rest.issues ∧
      ∀ b name, h.place = .equals b name → rest = parseAll mode (.ofTokens (next :: more)) := by
  intro next whole rest
  have hnext : next.kind ≠ .eof := nofun
  obtain ⟨others, finish, hstart⟩ := Cursor.ofTokens_append_cons hnext [] more
  rw [List.nil_append, List.nil_append] at hstart
  -- Behind the head is the start of the rest, only at another position.
  have hpasses : Cursor.Passes h.kinds (.ofTokens (head ++ next :: more))
      ((Cursor.ofTokens (next :: more)).moved head.length) := by
    rw [Cursor.ofTokens_append head (List.cons_ne_nil next more), ← hhead, hstart]
    exact Cursor.passes_front head (next :: others) finish 0
  have hword : (Cursor.ofTokens (next :: more)).AtWord next word := by
    rw [hstart]
    exact ⟨rfl, rfl⟩
  obtain ⟨hne, skipped, hone⟩ := readOne_brokenHead h hpasses hword
  rw [HeadBreak.resume_moved] at hone
  refine ⟨?_, ?_, fun b name hplace => ?_⟩
  · simp only [whole, rest, parseAll_eq, outcome, readAll_of_ne_eof hne, hone, readAll_moved]
    rfl
  · simp only [whole, rest, parseAll_eq, outcome, readAll_of_ne_eof hne, hone, readAll_moved]
    rfl
  · simp only [rest, hplace, hword.resume_equals]

/-- A list of parameters that lacks its end, in front of a variable and a `return`.
The variable is lost. -/
theorem Attempt.parseAll_brokenHead_params :
    let h : BrokenHead := ⟨true, false, .params "f" ["a"] (some "b"), nofun⟩
    let head := (lex "export fn f(a, b").tokens.dropLast
    let more := (lex "export fn f(a, b val x = 1 return x").tokens.drop 8
    let next : Token := ⟨.keyword .val, ⟨17, 20⟩⟩
    let whole := parseAll .cascading (.ofTokens (head ++ next :: more))
    let rest := parseAll .cascading (h.place.resume (.ofTokens (next :: more)))
    (lex "export fn f(a, b val x = 1 return x").tokens = head ++ next :: more ∧
      head.map Token.kind = h.kinds ∧
      whole.value = none :: rest.value ∧
      whole.issues = ⟨.delimiterExpected (.keyword .val), ⟨17, 20⟩⟩ :: rest.issues ∧
      (rest.value.filterMap id).map Stmt.span = [⟨27, 35⟩] := by
  intro h head more next whole rest
  have hhead : head.map Token.kind = h.kinds := by decide +kernel
  obtain ⟨hvalue, hissues, -⟩ := parseAll_brokenHead .cascading h hhead .val ⟨17, 20⟩ more
  exact ⟨by decide +kernel, hhead, hvalue, hissues, by decide +kernel⟩

/-- In `val val x = 1` the second `val` is taken for the name that the first one lacks, so
the variable behind it is not read. Alone it is. -/
theorem Attempt.parseAll_ne_of_brokenHead :
    let h : BrokenHead := ⟨false, false, .binding .val, nofun⟩
    let tokens := (lex "val val x = 1").tokens
    let statements (tokens : List Token) : List Stmt :=
      (parseAll .singleStep (.ofTokens tokens)).value.filterMap id
    (tokens.take 1).map Token.kind = h.kinds ∧
      (tokens.drop 1).head? = some ⟨.keyword .val, ⟨4, 7⟩⟩ ∧
      (statements tokens).map Stmt.span = [] ∧
      (statements (tokens.drop 1)).map Stmt.span = [⟨4, 13⟩] := by
  decide +kernel

end ExprFrontEnd
