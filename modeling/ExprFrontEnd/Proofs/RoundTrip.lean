import ExprFrontEnd.Lexed
import ExprFrontEnd.Proofs.Progress
import ExprFrontEnd.Proofs.ReadBack

/-!
# `ExprFrontEnd.Proofs.RoundTrip`: printed programs are read back

A program is printed as its statements one after the other, with nothing in
between. What keeps an initializer or a returned expression from running into
the next statement is the reserved word that every statement starts with: it
reads as the end of input there (`Cursor.EndsStatement`).

* `Clause.read_print`: a printed statement is read up to its last token, if a
  statement or the end of the stream is behind it.
* `Attempt.readAll_print`: **a printed program is read back**, in both modes,
  up to the places in its trees, with no issues and nothing left over.
-/

set_option autoImplicit false

namespace ExprFrontEnd

/-! ### The end of a statement -/

/-- Nothing is next, or a reserved word. -/
def Cursor.EndsStatement (c : Cursor) : Prop :=
  ∀ t ∈ c.ahead.head?, t.kind.startsStatement = true

section
variable {c : Cursor}

/-- In the scope of a statement it reads as the end of input. -/
theorem Cursor.EndsStatement.peek_statement (h : c.EndsStatement) :
    (c.peek .statement).kind = .eof := by
  obtain ⟨ahead, finish, position⟩ := c
  cases ahead with
  | nil => rfl
  | cons t rest =>
    have ht : Scope.statement.bars t.kind = true := h t rfl
    simp only [peek, ht, ↓reduceIte]
    rfl

/-- It is not passed there. -/
theorem Cursor.EndsStatement.advance_statement (h : c.EndsStatement) :
    c.advance .statement = c := by
  obtain ⟨ahead, finish, position⟩ := c
  cases ahead with
  | nil => rfl
  | cons t rest =>
    have ht : Scope.statement.bars t.kind = true := h t rfl
    simp only [advance, ht, ↓reduceIte]

/-- In the stream it is the end of input or a reserved word. -/
theorem Cursor.EndsStatement.peek_stream (h : c.EndsStatement) :
    (c.peek .stream).kind = .eof ∨ (c.peek .stream).kind.startsStatement = true := by
  obtain ⟨ahead, finish, position⟩ := c
  cases ahead with
  | nil => exact .inl rfl
  | cons t rest => exact .inr (h t rfl)

end

/-- Statements are in front of the end of the stream, or there are none. -/
theorem Cursor.Passes.endsStatement {stmts : List Stmt} {c d : Cursor}
    (h : Passes (stmts.flatMap Stmt.print) c d) (hd : d.ahead = []) : c.EndsStatement := by
  intro t ht
  cases stmts with
  | nil =>
    obtain rfl : c = d := h
    rw [hd] at ht
    cases ht
  | cons st stmts =>
    -- Every printed statement starts with a reserved word.
    obtain ⟨word, kinds, hst⟩ := st.exists_print_eq_cons
    rw [List.flatMap_cons, hst] at h
    obtain ⟨t', rest, finish, position, rfl, hk, -⟩ := h.exists_cons
    obtain rfl : t' = t := Option.some.inj ht
    rw [hk]
    rfl

/-- At the end of a statement, a printed expression is all that is read. -/
theorem Chain.read_print {e : Expr} (he : e.Printable) {c d : Cursor}
    (h : Cursor.Passes e.print c d) (hd : d.EndsStatement) :
    ∃ r : Chain, read .statement c = (r, d) ∧ r.issues = [] ∧
      ∀ mode, (r.toExpr mode).eraseSpans = e.eraseSpans := by
  -- The chain ends at `d`, as at an end of input, and stays in front of it.
  have heof : TerminatorKind.ofKind? (d.peek .statement).kind = some .eof := by
    rw [hd.peek_statement]
    rfl
  obtain ⟨r, hr, -, hi, ht⟩ := (e.readBack .statement he).chain h heof
  rw [hd.advance_statement] at hr
  exact ⟨r, read_eq hr, hi, ht⟩

/-! ### Names and flags -/

/-- A printed name is one token. -/
theorem Cursor.readName_print (place : NamePlace) {name : Identifier} {kinds : List TokenKind}
    {c e : Cursor} (h : Passes (.identifier name.name :: kinds) c e) :
    ∃ (i : Identifier) (d : Cursor), c.readName place = (.ok i, d) ∧
      i.eraseSpans = name.eraseSpans ∧ Passes kinds d e := by
  obtain ⟨hk, hp⟩ := h.next (s := .stream) rfl
  exact ⟨⟨name.name, (c.peek .stream).span⟩, _, by simp only [readName, hk], rfl, hp⟩

/-- A list of parameters is read to its closing parenthesis. -/
theorem Cursor.readNames_print {params : List Identifier} (hne : params ≠ []) {c e : Cursor}
    (h : Passes (commas (params.map fun p => [.identifier p.name]) ++ [.symbol .closeParen]) c e) :
    ∃ (names : List Identifier) (close : Span),
      readNames c.finish c.ahead c.position = (.ok (names, close), e) ∧
        names.map Identifier.eraseSpans = params.map Identifier.eraseSpans := by
  induction params generalizing c with
  -- The last name has the parenthesis behind it.
  | nil => exact absurd rfl hne
  | cons p params ih =>
    cases params with
    | nil =>
      rw [List.map_cons, List.map_nil, commas_singleton] at h
      obtain ⟨t, rest, finish, position, rfl, hk, h₁⟩ := h.exists_cons
      obtain ⟨u, rest', _, _, hc, hu, h₂⟩ := h₁.exists_cons
      cases hc
      obtain rfl : _ = e := h₂
      exact ⟨[⟨p.name, t.span⟩], u.span, by simp only [readNames, hk, hu], rfl⟩
    | cons p' params =>
      rw [List.map_cons, List.map_cons, commas_cons_cons, List.append_assoc] at h
      obtain ⟨t, rest, finish, position, rfl, hk, h₁⟩ := h.exists_cons
      obtain ⟨u, rest', _, _, hc, hu, h₂⟩ := h₁.exists_cons
      cases hc
      obtain ⟨names, close, hn, he⟩ := ih (List.cons_ne_nil _ _) h₂
      refine ⟨⟨p.name, t.span⟩ :: names, close, ?_, ?_⟩
      · simp only [readNames, hk, hu, hn]
      · rw [List.map_cons, he, List.map_cons]
        rfl

/-- A list of parameters is read, also if it is empty. -/
theorem Cursor.readParams_print {params : List Identifier} {c e : Cursor}
    (h : Passes (commas (params.map fun p => [.identifier p.name]) ++ [.symbol .closeParen]) c e) :
    ∃ (names : List Identifier) (close : Span), c.readParams = (.ok (names, close), e) ∧
      names.map Identifier.eraseSpans = params.map Identifier.eraseSpans := by
  cases params with
  | nil =>
    obtain ⟨hclose, rfl⟩ := Passes.next (s := .stream) h rfl
    exact ⟨[], (c.peek .stream).span, by simp only [readParams, hclose, ↓reduceIte], rfl⟩
  | cons p params =>
    obtain ⟨names, close, hn, he⟩ := readNames_print (List.cons_ne_nil _ _) h
    refine ⟨names, close, ?_, he⟩
    -- The first token is a name, so the list is not taken for an empty one.
    have hk : (c.peek .stream).kind = .identifier p.name := by
      cases params with
      | nil =>
        rw [List.map_cons, List.map_nil, commas_singleton] at h
        exact (h.next (s := .stream) rfl).1
      | cons p' params =>
        rw [List.map_cons, List.map_cons, commas_cons_cons] at h
        exact (h.next (s := .stream) rfl).1
    rw [readParams, if_neg (by simp [hk]), hn]

/-- A flag is accepted exactly if it is set. -/
theorem Cursor.accept_print {set : Bool} {word : Keyword} {kind : TokenKind}
    {kinds : List TokenKind} {c e : Cursor} (h : Passes (flag set word ++ kind :: kinds) c e)
    (hne : kind ≠ .keyword word) :
    ∃ d, c.accept word = (set, d) ∧ Passes (kind :: kinds) d e := by
  cases set with
  | true =>
    obtain ⟨hw, hp⟩ := Passes.next (s := .stream) h rfl
    exact ⟨_, by rw [accept, if_pos hw], hp⟩
  | false =>
    have hk := (Passes.next (s := .stream) h rfl).1
    exact ⟨c, by rw [accept, if_neg (by rw [hk]; exact hne)], h⟩

/-! ### Declarations -/

section
variable {c d : Cursor} {name : Identifier} (head : DeclHead) (span : Span)

/-- Name and initializer are read back one after the other; that there is an initializer just in
case the head is not declared says which branch is taken. -/
theorem DeclClause.readBinding_print (b : Binding) {init : Option Expr}
    (hset : init.isSome = true ↔ head.declared = false) (hinit : ∀ e ∈ init, e.Printable)
    (h : Cursor.Passes
      (.identifier name.name :: init.elim [] fun e => .symbol .equals :: e.print) c d)
    (hd : d.EndsStatement) :
    ∃ r : DeclClause, readBinding head b c = (.ok r, d) ∧ r.issues = [] ∧
      ∀ mode, (r.toDecl mode).eraseSpans
        = (⟨.binding b name init, head.exported, head.declared, span⟩ : Decl).eraseSpans := by
  obtain ⟨i, c₁, hname, hi, h₁⟩ := Cursor.readName_print .binding h
  cases init with
  | none =>
    -- Without an initializer the variable is declared, and no `=` is looked for.
    have hdecl : head.declared = true := by
      rw [← Bool.not_eq_false, ← hset]
      nofun
    obtain rfl : c₁ = d := h₁
    refine ⟨.binding head b i none, ?_, rfl, ?_⟩
    · simp only [readBinding, hname, hdecl, ↓reduceIte]
    · intro mode
      simp only [toDecl, Decl.eraseSpans, DeclKind.eraseSpans, hi, Option.map_none]
  | some e =>
    have hdecl : head.declared = false := hset.mp rfl
    obtain ⟨hequals, h₂⟩ := Cursor.Passes.next (s := .stream) h₁ rfl
    obtain ⟨r, hr, hissues, ht⟩ := Chain.read_print (hinit e rfl) h₂ hd
    refine ⟨.binding head b i (some r), ?_, hissues, ?_⟩
    · simp only [readBinding, hname, hdecl, hequals, hr, Bool.false_eq_true, ↓reduceIte]
    · intro mode
      simp only [toDecl, Decl.eraseSpans, DeclKind.eraseSpans, hi, Option.map_some, ht]

/-- Name and parameters are read back, with no issues in either mode. -/
theorem DeclClause.readFunction_print {params : List Identifier}
    (h : Cursor.Passes (.identifier name.name :: .symbol .openParen ::
      (commas (params.map fun p => [.identifier p.name]) ++ [.symbol .closeParen])) c d) :
    ∃ r : DeclClause, readFunction head c = (.ok r, d) ∧ r.issues = [] ∧
      ∀ mode, (r.toDecl mode).eraseSpans
        = (⟨.function name params, head.exported, head.declared, span⟩ : Decl).eraseSpans := by
  obtain ⟨i, c₁, hname, hi, h₁⟩ := Cursor.readName_print .function h
  obtain ⟨hopen, h₂⟩ := h₁.next (s := .stream) rfl
  obtain ⟨names, close, hparams, hn⟩ := Cursor.readParams_print h₂
  refine ⟨.function head i names (some close), ?_, rfl, ?_⟩
  · simp only [readFunction, hname, hopen, hparams, ↓reduceIte]
  · intro mode
    simp only [toDecl, Decl.eraseSpans, DeclKind.eraseSpans, hi, hn]

end

/-- A printed declaration is read back. -/
theorem DeclClause.read_print {t : Decl} (ht : t.Printable) {c d : Cursor}
    (h : Cursor.Passes t.print c d) (hd : d.EndsStatement) :
    ∃ r : DeclClause, read c = (.ok r, d) ∧ r.issues = [] ∧
      ∀ mode, (r.toDecl mode).eraseSpans = t.eraseSpans := by
  obtain ⟨kind, exported, declared, span⟩ := t
  obtain ⟨word, kinds, hk, hexport, hdeclare, -⟩ := kind.exists_print_eq_cons
  -- The flags are accepted one after the other, and the declaration's own word is next.
  obtain ⟨c₁, hacc₁, h₁⟩ : ∃ c₁, c.accept .exporting = (exported, c₁) ∧
      Cursor.Passes (flag declared .declaring ++ .keyword word :: kinds) c₁ d := by
    rw [Decl.print, hk] at h
    cases declared with
    | true => exact Cursor.accept_print h (by decide)
    | false => exact Cursor.accept_print h (by simpa using hexport)
  obtain ⟨c₂, hacc₂, h₂⟩ := Cursor.accept_print h₁ (by simpa using hdeclare)
  let head : DeclHead := ⟨(c.peek .stream).span, exported, declared⟩
  cases kind with
  | binding b name init =>
    obtain ⟨hset, hinit⟩ := ht
    cases hk
    obtain ⟨hword, h₃⟩ := h₂.next (s := .stream) rfl
    obtain ⟨r, hr, hi, htree⟩ := readBinding_print head span b hset hinit h₃ hd
    refine ⟨r, ?_, hi, htree⟩
    cases b <;> simpa only [read, hacc₁, hacc₂, hword, Binding.keyword] using hr
  | function name params =>
    cases hk
    obtain ⟨hword, h₃⟩ := h₂.next (s := .stream) rfl
    obtain ⟨r, hr, hi, htree⟩ := readFunction_print head span h₃
    refine ⟨r, ?_, hi, htree⟩
    simpa only [read, hacc₁, hacc₂, hword] using hr

/-! ### Statements -/

/-- Any reserved word but `return` starts a declaration. -/
theorem Clause.read_of_keyword {c : Cursor} {word : Keyword}
    (h : (c.peek .stream).kind = .keyword word) (hne : word ≠ .returning) {r : DeclClause}
    {d : Cursor} (hr : DeclClause.read c = (.ok r, d)) : read c = (.ok (.decl r), d) := by
  simp only [read, h]
  cases word with
  | returning => exact absurd rfl hne
  | exporting | declaring | val | var | fn => rw [hr]

/-- A token that starts an operand neither ends an expression nor starts a
statement. -/
theorem TokenKind.not_bare_of_opensOperand {kind : TokenKind} (h : kind.opensOperand = true) :
    ((TerminatorKind.ofKind? kind).isSome || kind.startsStatement) = false := by
  revert h
  unfold opensOperand
  split <;> simp [TerminatorKind.ofKind?, startsStatement]

/-- A printed statement is read up to its last token. -/
theorem Clause.read_print {st : Stmt} (hst : st.Printable) {c d : Cursor}
    (h : Cursor.Passes st.print c d) (hd : d.EndsStatement) :
    ∃ r : Clause, read c = (.ok r, d) ∧ r.issues = [] ∧
      ∀ mode, (r.toStmt mode).eraseSpans = st.eraseSpans := by
  cases st with
  | decl t span =>
    obtain ⟨r, hr, hi, ht⟩ := DeclClause.read_print hst h hd
    obtain ⟨word, kinds, hprint, hword⟩ := t.exists_print_eq_cons
    have hk : (c.peek .stream).kind = .keyword word := by
      rw [Stmt.print, hprint] at h
      exact (h.next (s := .stream) rfl).1
    refine ⟨.decl r, read_of_keyword hk hword hr, hi, ?_⟩
    intro mode
    rw [toStmt, Stmt.eraseSpans, Stmt.eraseSpans, ht]
  | ret arg span =>
    rw [Stmt.print] at h
    obtain ⟨hreturn, h₁⟩ := h.next (s := .stream) rfl
    cases arg with
    | none =>
      obtain rfl : c.advance .stream = d := h₁
      refine ⟨.ret (c.peek .stream) none, ?_, rfl, fun _ => rfl⟩
      -- What follows is the end or the next statement, so there is no argument.
      have hbare : ((TerminatorKind.ofKind? ((c.advance .stream).peek .stream).kind).isSome ||
          ((c.advance .stream).peek .stream).kind.startsStatement) = true := by
        rcases hd.peek_stream with heof | hword
        · rw [heof]
          rfl
        · rw [hword, Bool.or_true]
      simp only [read, hreturn, hbare, ↓reduceIte]
    | some e =>
      have he : e.Printable := hst e rfl
      have hbare := TokenKind.not_bare_of_opensOperand ((e.readBack .stream he).opens h₁)
      obtain ⟨r, hr, hi, ht⟩ := Chain.read_print he h₁ hd
      refine ⟨.ret (c.peek .stream) (some r), ?_, hi, ?_⟩
      · simp only [read, hreturn, hbare, hr, Bool.false_eq_true, ↓reduceIte]
      · intro mode
        simp only [toStmt, Stmt.eraseSpans, Option.map_some, ht]

/-! ### Programs -/

/-- A printed program is read in as many attempts as it has statements, and
all of them succeed. -/
theorem Attempt.readUpTo_print {stmts : List Stmt} (hst : ∀ st ∈ stmts, st.Printable)
    {c d : Cursor} (h : Cursor.Passes (stmts.flatMap Stmt.print) c d) (hd : d.ahead = [])
    {fuel : Nat} (hf : c.remaining ≤ fuel) :
    ∃ clauses : List Clause, readUpTo fuel c = (clauses.map .read, d) ∧
      (∀ r ∈ clauses, r.issues = []) ∧
        ∀ mode, clauses.map (fun r => (r.toStmt mode).eraseSpans) = stmts.map Stmt.eraseSpans := by
  induction stmts generalizing c fuel with
  | nil =>
    obtain rfl : c = d := h
    have heof : (c.peek .stream).kind = .eof := by
      rw [Cursor.peek, hd]
      rfl
    refine ⟨[], ?_, List.forall_mem_nil _, fun _ => rfl⟩
    cases fuel with
    | zero => rfl
    | succ fuel => rw [readUpTo, if_pos heof, List.map_nil]
  | cons st stmts ih =>
    rw [List.flatMap_cons, Cursor.passes_append] at h
    obtain ⟨c₁, h₁, h₂⟩ := h
    obtain ⟨r, hr, hi, ht⟩ :=
      Clause.read_print (hst st List.mem_cons_self) h₁ (h₂.endsStatement hd)
    have hne : (c.peek .stream).kind ≠ .eof := by
      obtain ⟨word, kinds, hprint⟩ := st.exists_print_eq_cons
      rw [hprint] at h₁
      rw [(h₁.next (s := .stream) rfl).1]
      intro heof
      cases heof
    have hone : readOne c = (.read r, c₁) := by
      simp only [readOne, hr]
    -- The statement takes a token, so the bound allows for one more attempt.
    have hlt : c₁.remaining < c.remaining := by
      have hlt := remaining_readOne_lt hne
      rwa [hone] at hlt
    cases fuel with
    | zero => omega
    | succ fuel =>
      have hf' : c₁.remaining ≤ fuel := by omega
      obtain ⟨clauses, hc, hci, hct⟩ := ih (fun x hx => hst x (List.mem_cons_of_mem _ hx)) h₂ hf'
      refine ⟨r :: clauses, ?_, ?_, ?_⟩
      · simp only [readUpTo, hne, hone, hc, ↓reduceIte, List.map_cons]
      · intro x hx
        cases hx with
        | head => exact hi
        | tail _ hx => exact hci x hx
      · intro mode
        rw [List.map_cons, List.map_cons, ht, hct]

/-- The start of a stream that ends with an end of input. -/
theorem Cursor.ofTokens_concat {t : Token} (ht : t.kind = .eof) (tokens : List Token) :
    ofTokens (tokens ++ [t]) = ⟨tokens, t.span, 0⟩ := by
  simp [ofTokens, ht]

/-- **Parsing undoes printing.** Read in either mode, the tokens of a printed
program and an end of input give back its statements up to places, with no
issues, and every token is taken but the end of input. -/
theorem Attempt.readAll_print {stmts : List Stmt} (hst : ∀ st ∈ stmts, st.Printable)
    {tokens : List Token} (h : tokens.map Token.kind = stmts.flatMap Stmt.print ++ [.eof])
    (mode : Reduction) :
    let r := readAll (.ofTokens tokens)
    (r.1.filterMap (toStmt? mode)).map Stmt.eraseSpans = stmts.map Stmt.eraseSpans ∧
      r.1.flatMap issues = [] ∧ r.2.ahead = [] ∧ r.2.position + 1 = tokens.length := by
  obtain ⟨printed, last, rfl, hprinted, hlast⟩ := List.map_eq_append_iff.mp h
  obtain ⟨t, rfl, ht⟩ := List.map_eq_singleton_iff.mp hlast
  intro r
  -- The stream is what was printed; its end of input is not ahead, but behind it.
  have hp := Cursor.passes_map_kind printed t.span 0
  rw [hprinted] at hp
  obtain ⟨clauses, hc, hi, htrees⟩ := readUpTo_print hst hp rfl (Nat.le_refl _)
  have hr : r = (clauses.map .read, ⟨[], t.span, 0 + printed.length⟩) := by
    show readAll (.ofTokens (printed ++ [t])) = _
    rw [Cursor.ofTokens_concat ht, readAll, hc]
  have hstmts : (clauses.map Attempt.read).filterMap (toStmt? mode)
      = clauses.map (Clause.toStmt mode) := by
    rw [List.filterMap_map]
    exact congrFun (List.filterMap_eq_map (f := Clause.toStmt mode)) clauses
  rw [hr]
  refine ⟨?_, ?_, rfl, ?_⟩
  · rw [hstmts, List.map_map]
    exact htrees mode
  · rw [List.flatMap_map]
    exact List.flatMap_eq_nil_iff.mpr hi
  · simp

/-- A program with a statement of each kind, which has no separators but its
reserved words. -/
theorem Attempt.readAll_print_lex :
    let source := "export declare var a fn f(x, y) val b=(f([a], \"s\")?.c+(-a[b])) return b return"
    let place := Span.empty 0
    let a : Expr := .identifier ⟨"a", place⟩
    let b : Expr := .identifier ⟨"b", place⟩
    let f : Expr := .identifier ⟨"f", place⟩
    let call : Expr := .call f [.array [a] place, .string "s" place] false place
    let sum : Expr := .binary (.member call ⟨"c", place⟩ true place) .plus
      (.unary .minus (.index a b false place) place) place
    let stmts : List Stmt :=
      [.decl ⟨.binding .var ⟨"a", place⟩ none, true, true, place⟩ place,
        .decl ⟨.function ⟨"f", place⟩ [⟨"x", place⟩, ⟨"y", place⟩], false, false, place⟩ place,
        .decl ⟨.binding .val ⟨"b", place⟩ (some sum), false, false, place⟩ place,
        .ret (some b) place, .ret none place]
    (∀ st ∈ stmts, st.Printable) ∧
      (lex source).tokens.map Token.kind = stmts.flatMap Stmt.print ++ [.eof] ∧
      let r := readAll (.ofTokens (lex source).tokens)
      (r.1.filterMap (toStmt? .singleStep)).map Stmt.eraseSpans = stmts.map Stmt.eraseSpans ∧
        r.1.flatMap issues = [] ∧ r.2.ahead = [] ∧
          r.2.position + 1 = (lex source).tokens.length := by
  intro source place a b f call sum stmts
  have hst : ∀ st ∈ stmts, st.Printable := by
    simp [stmts, sum, call, f, b, a, Stmt.Printable, Decl.Printable, Expr.Printable,
      Expr.AllPrintable]
  have h : (lex source).tokens.map Token.kind = stmts.flatMap Stmt.print ++ [.eof] := by
    decide +kernel
  exact ⟨hst, h, readAll_print hst h .singleStep⟩

end ExprFrontEnd
