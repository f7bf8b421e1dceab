import ExprFrontEnd.Proofs.Derivation
import ExprFrontEnd.Proofs.LexedTokens
import ExprFrontEnd.Source

/-!
# `ExprFrontEnd.Proofs.Acceptance`: the programs that are read without issues

A program is read without issues exactly if it derives from the grammar.

* `Derives.reads`: what derives is read without issues, by induction on the
  derivation, with a lemma for every alternative of the grammar.
* `issues_parseProgram_eq_iff`: **the issues of a program are those of its
  lexemes exactly if its tokens derive.**

A derivation may stop a repetition anywhere, while a reader goes on up to the
first token that does not fit. So what is read depends on what stands behind
it. `Category.Reads` says what each category has to have there: no accessor
behind an operand, a terminator behind an expression, a boundary behind a
statement.
-/

set_option autoImplicit false

namespace ExprFrontEnd

/-! ### What derives is read without issues -/

/-- No token that starts an accessor is in front. -/
def NoAccessor (kinds : List TokenKind) : Prop := ∀ k ∈ kinds.head?, k.accessor? = none

/-- A terminator starts no accessor. -/
theorem Terminates.noAccessor {kind : TerminatorKind} {kinds rest : List TokenKind}
    (h : Terminates kind kinds rest) : NoAccessor kinds := by
  intro k hk
  cases h with
  | symbol hs =>
    obtain rfl := Option.some.inj hk
    exact TokenKind.accessor?_eq_none_of_terminator hs
  | @boundary kind hb =>
    obtain rfl := Option.some.inj hk
    cases kind <;> first | rfl | cases hb

/-- Neither does an operator. -/
theorem Derives.noAccessor_of_operations {kind : TerminatorKind}
    {kinds kinds' rest : List TokenKind} (h : Derives .operations kinds kinds')
    (ends : Terminates kind kinds' rest) : NoAccessor kinds := by
  cases h with
  | noOperation => exact ends.noAccessor
  | operation op right others =>
    intro k hk
    obtain rfl := Option.some.inj hk
    exact TokenKind.accessor?_symbol_binaryOp op

/-- A reader that comes to tokens that do not go on with an accessor sees none. -/
theorem Cursor.Shows.accessor? {s : Scope} {c : Cursor} {kinds : List TokenKind}
    (h : c.Shows kinds) (hkinds : NoAccessor kinds) : (c.peek s).kind.accessor? = none := by
  by_cases heof : (c.peek s).kind = .eof
  · rw [heof]
    rfl
  · obtain ⟨kinds', rfl, -⟩ := h.of_peek rfl heof
    exact hkinds _ rfl

/-- What reading does at a cursor where something of a category stands, with
the right thing behind it. -/
def Category.Reads : Category → List TokenKind → List TokenKind → Prop
  | .program, kinds, rest => rest = [.eof] → ∀ {c : Cursor} {fuel : Nat}, c.Shows kinds →
      c.remaining ≤ fuel → (Attempt.readUpTo fuel c).1.flatMap Attempt.issues = []
  | .statement, kinds, rest => (∃ k rest', rest = k :: rest' ∧ Cursor.isBoundary k = true) →
      ∀ {c : Cursor}, c.Shows kinds →
        ∃ r d, Clause.read c = (.ok r, d) ∧ r.issues = [] ∧ d.Shows rest
  | .expression, kinds, rest => ∀ {kind : TerminatorKind} {rest' : List TokenKind},
      Terminates kind rest rest' → ∀ {c : Cursor}, c.Shows kinds →
        ∃ (r : Chain) (d : Cursor), r.Between .statement c d ∧ r.terminator.kind = kind ∧
          r.issues = [] ∧ d.Shows rest'
  | .operations, kinds, rest => ∀ {kind : TerminatorKind} {rest' : List TokenKind},
      Terminates kind rest rest' → ∀ {c : Cursor}, c.Shows kinds →
        ∃ (r : Links) (d : Cursor), r.Between .statement c d ∧ r.terminator.kind = kind ∧
          r.issues = [] ∧ d.Shows rest'
  | .operand, kinds, rest => NoAccessor rest → ∀ {c : Cursor}, c.Shows kinds →
      ∃ (r : Operand) (d : Cursor), r.Between .statement c d ∧ r.issues = [] ∧ d.Shows rest
  | .primary, kinds, rest => ∀ {c : Cursor}, c.Shows kinds →
      UnaryOp.ofKind? (c.peek .statement).kind = none ∧
        ∃ (r : Atom) (d : Cursor), r.Between .statement c d ∧ r.issues = [] ∧ d.Shows rest
  | .postfixes, kinds, rest => NoAccessor rest → ∀ {c : Cursor}, c.Shows kinds →
      ∃ (r : Accessors) (d : Cursor), r.Between .statement c d ∧ r.issues = [] ∧ d.Shows rest
  | .sequence, kinds, rest => ∀ {c : Cursor}, c.Shows kinds →
      ∃ (r : Items) (d : Cursor), r.Between .statement c d ∧ r.issues = [] ∧ d.Shows rest

/-! #### Expressions -/

namespace Category.Reads

variable {kinds kinds' kinds'' rest : List TokenKind} {kind : TerminatorKind}

/-- An operand and the operations behind it, read up to the terminator. -/
theorem expression (first : Reads .operand kinds kinds') (hothers : Derives .operations kinds' rest)
    (others : Reads .operations kinds' rest) : Reads .expression kinds rest := by
  intro kind rest' ends c hc
  -- Behind the operand is an operator or the terminator, so no accessor is read beyond it.
  obtain ⟨o, d, ho, hio, hd⟩ := first (hothers.noAccessor_of_operations ends) hc
  obtain ⟨l, e, hl, hk, hil, he⟩ := others ends hd
  refine ⟨.mk o l, e, ⟨d, ho, hl⟩, ?_, ?_, he⟩
  · rw [Chain.terminator, hk]
  · rw [Chain.issues, hio, hil, List.append_nil]

/-- No operation: the terminator is next, and is taken. -/
theorem noOperation (rest : List TokenKind) : Reads .operations rest rest := by
  intro kind rest' ends c hc
  obtain ⟨hk, hd⟩ := hc.terminator ends
  exact ⟨.done ⟨kind, c.peek .statement⟩, _, ⟨rfl, hk, rfl⟩, rfl, rfl, hd⟩

/-- An operation is passed with its operand, and others follow. -/
theorem operation (op : BinaryOp) (right : Reads .operand kinds kinds')
    (hothers : Derives .operations kinds' rest) (others : Reads .operations kinds' rest) :
    Reads .operations (.symbol op.symbol :: kinds) rest := by
  intro kind rest' ends c hc
  obtain ⟨hop, hd⟩ := hc.next (s := .statement) (by simp) rfl
  obtain ⟨o, e, ho, hio, he⟩ := right (hothers.noAccessor_of_operations ends) hd
  obtain ⟨l, f, hl, hk, hil, hf⟩ := others ends he
  refine ⟨.link op (c.peek .statement) o l, f,
    ⟨rfl, BinaryOp.ofKind?_eq_some_iff.mpr hop, e, ho, hl⟩, ?_, ?_, hf⟩
  · rw [Links.terminator, hk]
  · rw [Links.issues, hio, hil, List.append_nil]

/-- A sign is passed, and its operand follows. -/
theorem signed (op : UnaryOp) (arg : Reads .operand kinds rest) :
    Reads .operand (.symbol op.symbol :: kinds) rest := by
  intro hrest c hc
  obtain ⟨hop, hd⟩ := hc.next (s := .statement) (by simp) rfl
  obtain ⟨o, e, ho, hi, he⟩ := arg hrest hd
  exact ⟨.signed op (c.peek .statement) o, e, ⟨rfl, UnaryOp.ofKind?_eq_some_iff.mpr hop, ho⟩,
    by rw [Operand.issues, hi], he⟩

/-- Without a sign there is an atom. Its accessors are all that could start one. -/
theorem bare (primary : Reads .primary kinds kinds') (postfixes : Reads .postfixes kinds' rest) :
    Reads .operand kinds rest := by
  intro hrest c hc
  obtain ⟨hsign, a, d, ha, hia, hd⟩ := primary hc
  obtain ⟨p, e, hp, hip, he⟩ := postfixes hrest hd
  exact ⟨.bare (.atom a p), e, ⟨hsign, d, ha, hp⟩,
    by rw [Operand.issues, Primary.issues, hia, hip, List.append_nil], he⟩

/-- A token that is an operand by itself. -/
theorem leaf (k : TokenKind) (atom : Span → Atom) (hne : k ≠ .eof)
    (hbars : k.startsStatement = false) (hsign : UnaryOp.ofKind? k = none)
    (hatom : ∀ {c : Cursor} {span : Span}, c.peek .statement = ⟨k, span⟩ →
      (atom span).Between .statement c (c.advance .statement) ∧ (atom span).issues = [])
    (rest : List TokenKind) : Reads .primary (k :: rest) rest := by
  intro c hc
  obtain ⟨hk, hd⟩ := hc.next (s := .statement) hne hbars
  obtain ⟨hb, hi⟩ := @hatom c (c.peek .statement).span (by rw [← hk])
  exact ⟨by rw [hk, hsign], atom (c.peek .statement).span, _, hb, hi, hd⟩

/-- A group is read up to the terminator of its inner expression. -/
theorem group (inner : Reads .expression kinds kinds') (ends : Terminates kind kinds' rest) :
    Reads .primary (.symbol .openParen :: kinds) rest := by
  intro c hc
  obtain ⟨hk, hd⟩ := hc.next (s := .statement) (by simp) rfl
  obtain ⟨r, e, hr, -, hi, he⟩ := inner ends hd
  exact ⟨by rw [hk]; rfl, .group (c.peek .statement) r, e, ⟨rfl, hk, hr⟩, hi, he⟩

/-- An array is read up to the terminator of its last item. -/
theorem array (elems : Reads .sequence kinds rest) :
    Reads .primary (.symbol .openBracket :: kinds) rest := by
  intro c hc
  obtain ⟨hk, hd⟩ := hc.next (s := .statement) (by simp) rfl
  obtain ⟨r, e, hr, hi, he⟩ := elems hd
  exact ⟨by rw [hk]; rfl, .array (c.peek .statement) r, e, ⟨rfl, hk, hr⟩, hi, he⟩

/-- Where no accessor may follow, none is read. -/
theorem noPostfix (rest : List TokenKind) : Reads .postfixes rest rest :=
  fun hrest c hc => ⟨.none, c, ⟨hc.accessor? hrest, rfl⟩, rfl, hc⟩

/-- A call is passed with its arguments, and other accessors follow. -/
theorem call (optional : Bool) (args : Reads .sequence kinds kinds')
    (others : Reads .postfixes kinds' rest) :
    Reads .postfixes (.symbol (AccessorKind.call.symbol optional) :: kinds) rest := by
  intro hrest c hc
  obtain ⟨hk, hd⟩ := hc.next (s := .statement) (by simp) rfl
  obtain ⟨r, e, hr, hi, he⟩ := args hd
  obtain ⟨p, f, hp, hip, hf⟩ := others hrest he
  exact ⟨.call optional (c.peek .statement) r p, f,
    ⟨rfl, by rw [hk, AccessorKind.accessor?_symbol], e, hr, hp⟩,
    by rw [Accessors.issues, hi, hip, List.append_nil], hf⟩

/-- An index is passed with its expression and what ends that, and other accessors follow. -/
theorem index (optional : Bool) (inner : Reads .expression kinds kinds')
    (ends : Terminates kind kinds' kinds'') (others : Reads .postfixes kinds'' rest) :
    Reads .postfixes (.symbol (AccessorKind.index.symbol optional) :: kinds) rest := by
  intro hrest c hc
  obtain ⟨hk, hd⟩ := hc.next (s := .statement) (by simp) rfl
  obtain ⟨r, e, hr, -, hi, he⟩ := inner ends hd
  obtain ⟨p, f, hp, hip, hf⟩ := others hrest he
  exact ⟨.index optional (c.peek .statement) r p, f,
    ⟨rfl, by rw [hk, AccessorKind.accessor?_symbol], e, hr, hp⟩,
    by rw [Accessors.issues, hi, hip, List.append_nil], hf⟩

/-- A member has a name behind its dot, so the dot is not an issue. -/
theorem member (optional : Bool) (name : String) (others : Reads .postfixes kinds rest) :
    Reads .postfixes
      (.symbol (AccessorKind.member.symbol optional) :: .identifier name :: kinds) rest := by
  intro hrest c hc
  obtain ⟨hk, hd⟩ := hc.next (s := .statement) (by simp) rfl
  obtain ⟨hname, he⟩ := hd.next (s := .statement) (by simp) rfl
  obtain ⟨p, f, hp, hip, hf⟩ := others hrest he
  exact ⟨.member optional (c.peek .statement) ((c.advance .statement).peek .statement) p, f,
    ⟨rfl, by rw [hk, AccessorKind.accessor?_symbol], rfl, hp⟩,
    by rw [Accessors.issues, hip, memberIssues_eq_nil_iff.mpr ⟨name, hname⟩, List.append_nil], hf⟩

/-- The last item ends the sequence, as no comma follows. -/
theorem last (item : Reads .expression kinds kinds') (ends : Terminates kind kinds' rest)
    (hkind : kind ≠ .comma) : Reads .sequence kinds rest := by
  intro c hc
  obtain ⟨r, d, hr, rfl, hi, hd⟩ := item ends hc
  exact ⟨.last r, d, ⟨hr, hkind⟩, hi, hd⟩

/-- A comma ends an item and stands in front of the next one. -/
theorem separated (item : Reads .expression kinds (.symbol .comma :: kinds'))
    (others : Reads .sequence kinds' rest) : Reads .sequence kinds rest := by
  intro c hc
  -- The comma terminates the expression, which takes it.
  obtain ⟨r, d, hr, hk, hi, hd⟩ := item (.symbol rfl kinds') hc
  obtain ⟨l, e, hl, hil, he⟩ := others hd
  exact ⟨.more r l, e, ⟨d, hr, hk, hl⟩, by rw [Items.issues, hi, hil, List.append_nil], he⟩

end Category.Reads

/-! #### Statements -/

namespace Cursor

variable {c : Cursor} {k : TokenKind} {kinds rest : List TokenKind}

/-- A flag that may be in front is accepted if it is. -/
theorem Shows.accept_flag {set : Bool} {word : Keyword}
    (h : c.Shows (flag set word ++ k :: kinds)) (hne : k ≠ .keyword word) :
    ∃ d, c.accept word = (set, d) ∧ d.Shows (k :: kinds) := by
  cases set with
  | true =>
    obtain ⟨hk, hd⟩ := h.next (s := .stream) (by simp) rfl
    exact ⟨_, by rw [Cursor.accept, if_pos hk], hd⟩
  | false =>
    refine ⟨c, if_neg fun hk => ?_, h⟩
    obtain ⟨kinds', he, -⟩ := h.of_peek hk (by simp)
    exact hne (List.cons.inj he).1

/-- Both flags of a declaration are accepted, and its own word is next. -/
theorem Shows.accept_flags {exported declared : Bool} {word : Keyword}
    (h : c.Shows (flag exported .exporting ++ (flag declared .declaring
      ++ .keyword word :: kinds)))
    (hword : word ≠ .exporting ∧ word ≠ .declaring) :
    ∃ c₁ c₂, c.accept .exporting = (exported, c₁) ∧ c₁.accept .declaring = (declared, c₂) ∧
      (c₂.peek .stream).kind = .keyword word ∧ (c₂.advance .stream).Shows kinds := by
  obtain ⟨c₁, hexported, h₁⟩ : ∃ c₁, c.accept .exporting = (exported, c₁) ∧
      c₁.Shows (flag declared .declaring ++ .keyword word :: kinds) := by
    cases declared with
    | true => exact h.accept_flag (by simp)
    | false => exact h.accept_flag (by simpa using hword.1)
  obtain ⟨c₂, hdeclared, h₂⟩ := h₁.accept_flag (by simpa using hword.2)
  obtain ⟨hk, h₃⟩ := h₂.next (s := .stream) (by simp) rfl
  exact ⟨c₁, c₂, hexported, hdeclared, hk, h₃⟩

/-- A variable is read behind its flags and its word. -/
theorem Shows.exists_readBinding (exported declared : Bool) (b : Binding)
    (h : c.Shows (flag exported .exporting ++ (flag declared .declaring
      ++ .keyword b.keyword :: kinds))) :
    ∃ head d, DeclClause.read c = DeclClause.readBinding head b d ∧ head.declared = declared ∧
      d.Shows kinds := by
  obtain ⟨c₁, c₂, hexported, hdeclared, hk, h₃⟩ := h.accept_flags (by cases b <;> decide)
  refine ⟨⟨(c.peek .stream).span, exported, declared⟩, _, ?_, rfl, h₃⟩
  cases b <;> simp only [DeclClause.read, hexported, hdeclared, hk, Binding.keyword]

/-- A function is read behind its flags and its word. -/
theorem Shows.exists_readFunction (exported declared : Bool)
    (h : c.Shows (flag exported .exporting ++ (flag declared .declaring
      ++ .keyword .fn :: kinds))) :
    ∃ head d, DeclClause.read c = DeclClause.readFunction head d ∧ d.Shows kinds := by
  obtain ⟨c₁, c₂, hexported, hdeclared, hk, h₃⟩ := h.accept_flags (by decide)
  refine ⟨⟨(c.peek .stream).span, exported, declared⟩, _, ?_, h₃⟩
  simp only [DeclClause.read, hexported, hdeclared, hk]

/-- The kinds in front are passed one by one, if something is behind them. -/
theorem Shows.passes (h : c.Shows (kinds ++ k :: rest)) :
    ∃ d, Passes kinds c d ∧ d.Shows (k :: rest) := by
  induction kinds generalizing c with
  | nil => exact ⟨c, rfl, h⟩
  | cons k' kinds ih =>
    rcases h.exists_cons with ⟨-, he⟩ | ⟨t, _, _, hc, he, hne, -⟩
    · have hnil : kinds ++ k :: rest = [] := (List.cons.inj he).2
      exact absurd hnil (List.append_ne_nil_of_right_ne_nil _ (List.cons_ne_nil _ _))
    · obtain ⟨rfl, -⟩ := List.cons.inj he
      obtain ⟨d, hd, hrest⟩ := ih (h.next (s := .stream) hne rfl).2
      exact ⟨d, ⟨by rw [hc]; rfl, hd⟩, hrest⟩

end Cursor

/-- A declaration that is read is read as a statement. -/
theorem Clause.read_of_decl {c d : Cursor} {r : DeclClause} (h : DeclClause.read c = (.ok r, d)) :
    read c = (.ok (.decl r), d) := by
  cases hk : (c.peek .stream).kind with
  | keyword word =>
    refine read_of_keyword hk ?_ h
    rintro rfl
    simp [DeclClause.read, Cursor.accept, hk] at h
  | _ => simp [DeclClause.read, Cursor.accept, hk] at h

namespace Category.Reads

variable {kinds kinds' rest : List TokenKind} {kind : TerminatorKind}

/-- A declared variable ends with its name, and what is behind it is not looked at. -/
theorem declared (exported : Bool) (b : Binding) (name : String) (rest : List TokenKind) :
    Reads .statement
      (flag exported .exporting ++ .keyword .declaring :: .keyword b.keyword
        :: .identifier name :: rest) rest := by
  intro _ c hc
  obtain ⟨head, c₁, hread, hdecl, h₁⟩ := Cursor.Shows.exists_readBinding exported true b hc
  obtain ⟨hname, hd⟩ := h₁.next (s := .stream) (by simp) rfl
  refine ⟨_, _, Clause.read_of_decl (r := .binding head b ⟨name, (c₁.peek .stream).span⟩ none) ?_,
    rfl, hd⟩
  simp only [hread, DeclClause.readBinding, Cursor.readName, hname, hdecl, ↓reduceIte]

/-- A variable with an initializer ends where the expression does. -/
theorem initialized (exported : Bool) (b : Binding) (name : String)
    (init : Reads .expression kinds kinds') (ends : Terminates kind kinds' rest) :
    Reads .statement
      (flag exported .exporting ++ .keyword b.keyword :: .identifier name
        :: .symbol .equals :: kinds) rest := by
  intro _ c hc
  obtain ⟨head, c₁, hread, hdecl, h₁⟩ := Cursor.Shows.exists_readBinding exported false b hc
  obtain ⟨hname, h₂⟩ := h₁.next (s := .stream) (by simp) rfl
  obtain ⟨hequals, h₃⟩ := h₂.next (s := .stream) (by simp) rfl
  obtain ⟨r, d, hr, -, hi, hd⟩ := init ends h₃
  refine ⟨_, d, Clause.read_of_decl
    (r := .binding head b ⟨name, (c₁.peek .stream).span⟩ (some r)) ?_, hi, hd⟩
  simp only [hread, DeclClause.readBinding, Cursor.readName, hname, hdecl, hequals,
    Chain.read_eq hr, Bool.false_eq_true, ↓reduceIte]

/-- A function without parentheses ends with its name, since no boundary opens any. -/
theorem function (exported declared : Bool) (name : String) (rest : List TokenKind) :
    Reads .statement
      (flag exported .exporting ++ (flag declared .declaring ++ .keyword .fn
        :: .identifier name :: rest)) rest := by
  rintro ⟨k, rest, rfl, hb⟩ c hc
  obtain ⟨head, c₁, hread, h₁⟩ := Cursor.Shows.exists_readFunction exported declared hc
  obtain ⟨hname, hd⟩ := h₁.next (s := .stream) (by simp) rfl
  -- No parenthesis is behind the name.
  have hopen : ¬ ((c₁.advance .stream).peek .stream).kind = .symbol .openParen := by
    intro hopen
    obtain ⟨kinds', he, -⟩ := hd.of_peek hopen (by simp)
    rw [(List.cons.inj he).1] at hb
    cases hb
  refine ⟨_, _, Clause.read_of_decl
    (r := .function head ⟨name, (c₁.peek .stream).span⟩ [] none) ?_, rfl, hd⟩
  simp only [hread, DeclClause.readFunction, Cursor.readName, hname, hopen, ↓reduceIte]

/-- A function with parameters ends with its closing parenthesis. -/
theorem functionOf (exported declared : Bool) (name : String) (params : List String)
    (rest : List TokenKind) :
    Reads .statement
      (flag exported .exporting ++ (flag declared .declaring ++ .keyword .fn
        :: .identifier name :: .symbol .openParen
        :: (commas (params.map fun p => [.identifier p]) ++ .symbol .closeParen :: rest)))
      rest := by
  rintro ⟨k, rest, rfl, -⟩ c hc
  obtain ⟨head, c₁, hread, h₁⟩ := Cursor.Shows.exists_readFunction exported declared hc
  obtain ⟨hname, h₂⟩ := h₁.next (s := .stream) (by simp) rfl
  obtain ⟨hopen, h₃⟩ := h₂.next (s := .stream) (by simp) rfl
  -- The parameters are read as those that are printed.
  let printed : List Identifier := params.map fun p => ⟨p, .empty 0⟩
  have hprinted : printed.map (fun p => [TokenKind.identifier p.name])
      = params.map fun p => [.identifier p] := by
    rw [List.map_map]
    rfl
  rw [← List.singleton_append, ← List.append_assoc, ← hprinted] at h₃
  obtain ⟨d, hpasses, hd⟩ := h₃.passes
  obtain ⟨names, close, hparams, -⟩ := Cursor.readParams_print hpasses
  refine ⟨_, _, Clause.read_of_decl
    (r := .function head ⟨name, (c₁.peek .stream).span⟩ names (some close)) ?_, rfl, hd⟩
  simp only [hread, DeclClause.readFunction, Cursor.readName, hname, hopen, hparams, ↓reduceIte]

/-- A `return` in front of a boundary has no argument. -/
theorem returning (rest : List TokenKind) :
    Reads .statement (.keyword .returning :: rest) rest := by
  rintro ⟨k, rest, rfl, hb⟩ c hc
  obtain ⟨hk, hd⟩ := hc.next (s := .stream) (by simp) rfl
  -- A boundary is behind the word, so it stands alone.
  have hbare : ((TerminatorKind.ofKind? ((c.advance .stream).peek .stream).kind).isSome ||
      ((c.advance .stream).peek .stream).kind.startsStatement) = true := by
    rcases (hd.endsStatement hb).peek_stream with heof | hword
    · rw [heof]
      rfl
    · rw [hword, Bool.or_true]
  exact ⟨.ret (c.peek .stream) none, _, by simp only [Clause.read, hk, hbare, ↓reduceIte], rfl, hd⟩

/-- A `return` in front of the start of an operand has an argument, up to its terminator. -/
theorem returningOf (harg : Derives .expression kinds kinds')
    (arg : Reads .expression kinds kinds') (ends : Terminates kind kinds' rest) :
    Reads .statement (.keyword .returning :: kinds) rest := by
  intro _ c hc
  obtain ⟨hk, h₁⟩ := hc.next (s := .stream) (by simp) rfl
  obtain ⟨r, d, hr, -, hi, hd⟩ := arg ends h₁
  -- The first token of the expression says that there is one.
  have hbare : ((TerminatorKind.ofKind? ((c.advance .stream).peek .stream).kind).isSome ||
      ((c.advance .stream).peek .stream).kind.startsStatement) = false := by
    obtain ⟨k, kinds₁, rfl, hopens⟩ := harg.exists_opening
    have hne : k ≠ .eof := by
      rintro rfl
      cases hopens
    rw [(h₁.next (s := .stream) hne rfl).1, hopens]
  refine ⟨.ret (c.peek .stream) (some r), d, ?_, hi, hd⟩
  simp only [Clause.read, hk, hbare, Chain.read_eq hr, Bool.false_eq_true, ↓reduceIte]

/-! #### Programs -/

/-- At the end of input no attempt is made. -/
theorem done (rest : List TokenKind) : Reads .program rest rest := by
  rintro rfl c fuel hc _
  have heof : (c.peek .stream).kind = .eof := by
    rcases hc.exists_cons with ⟨hahead, -⟩ | ⟨t, _, _, -, he, hne, -⟩
    · rw [Cursor.peek, hahead]
      rfl
    · exact absurd (List.cons.inj he).1.symm hne
  cases fuel with
  | zero => rfl
  | succ fuel =>
    rw [Attempt.readUpTo, if_pos heof]
    rfl

/-- The first statement is read up to a boundary: the next one starts with a reserved word, or the
input ends. The bound is large enough for the others, since a statement takes a token. -/
theorem more (hfirst : Derives .statement kinds kinds') (first : Reads .statement kinds kinds')
    (hothers : Derives .program kinds' rest) (others : Reads .program kinds' rest) :
    Reads .program kinds rest := by
  rintro rfl c fuel hc hf
  obtain ⟨r, d, hr, hi, hd⟩ := first hothers.exists_boundary hc
  have hone : Attempt.readOne c = (.read r, d) := by simp only [Attempt.readOne, hr]
  have hne : (c.peek .stream).kind ≠ .eof := by
    obtain ⟨word, kinds₁, rfl⟩ := hfirst.exists_keyword
    rw [(hc.next (s := .stream) (by simp) rfl).1]
    simp
  -- The statement takes a token, so the bound allows for one more attempt.
  have hlt : d.remaining < c.remaining := by
    have := Attempt.remaining_readOne_lt hne
    rwa [hone] at this
  cases fuel with
  | zero => exact absurd hlt (by omega)
  | succ fuel =>
    rw [Attempt.readUpTo, if_neg hne, hone, List.flatMap_cons, others rfl hd (by omega),
      List.append_nil]
    exact hi

end Category.Reads

/-- What derives is read without issues. -/
theorem Derives.reads {category : Category} {kinds rest : List TokenKind}
    (h : Derives category kinds rest) : category.Reads kinds rest := by
  -- One lemma for each rule of the grammar.
  induction h with
  | done rest => exact Category.Reads.done rest
  | more hfirst hothers first others => exact Category.Reads.more hfirst first hothers others
  | declared exported b name rest => exact Category.Reads.declared exported b name rest
  | initialized exported b name _ ends init =>
    exact Category.Reads.initialized exported b name init ends
  | function exported declared name rest =>
    exact Category.Reads.function exported declared name rest
  | functionOf exported declared name params rest =>
    exact Category.Reads.functionOf exported declared name params rest
  | returning rest => exact Category.Reads.returning rest
  | returningOf harg ends arg => exact Category.Reads.returningOf harg arg ends
  | expression _ hothers first others => exact Category.Reads.expression first hothers others
  | noOperation rest => exact Category.Reads.noOperation rest
  | operation op _ hothers right others => exact Category.Reads.operation op right hothers others
  | signed op _ arg => exact Category.Reads.signed op arg
  | bare _ _ primary postfixes => exact Category.Reads.bare primary postfixes
  -- Leaves differ in the token and in the atom that it gives.
  | number value rest =>
    exact Category.Reads.leaf (.number value) (.number value) (by simp) rfl rfl
      (fun hv => ⟨⟨hv, rfl⟩, rfl⟩) rest
  | string value rest =>
    exact Category.Reads.leaf (.string value) (.string value) (by simp) rfl rfl
      (fun hv => ⟨⟨hv, rfl⟩, rfl⟩) rest
  | name name rest =>
    exact Category.Reads.leaf (.identifier name) (.name name) (by simp) rfl rfl
      (fun hv => ⟨⟨hv, rfl⟩, rfl⟩) rest
  | group _ ends inner => exact Category.Reads.group inner ends
  | array _ elems => exact Category.Reads.array elems
  | noPostfix rest => exact Category.Reads.noPostfix rest
  | call optional _ _ args others => exact Category.Reads.call optional args others
  | index optional _ ends _ inner others => exact Category.Reads.index optional inner ends others
  | member optional name _ others => exact Category.Reads.member optional name others
  | last _ ends hkind item => exact Category.Reads.last item ends hkind
  | separated _ _ item others => exact Category.Reads.separated item others

/-! ### Programs -/

/-- Issues that are in order are those of two stages exactly if the second one
has none. -/
theorem mergeIssues_eq_left_iff {earlier later : List Issue}
    (h : earlier.Pairwise fun i j => i.span.start ≤ j.span.start) :
    mergeIssues earlier later = earlier ↔ later = [] := by
  constructor
  · intro he
    have hlen := congrArg List.length he
    rw [mergeIssues, List.length_mergeSort, List.length_append] at hlen
    exact List.length_eq_zero_iff.mp (by omega)
  · rintro rfl
    rw [mergeIssues, List.append_nil]
    exact List.mergeSort_of_pairwise (h.imp fun hle => decide_eq_true hle)

/-- **Readers are silent exactly on the grammar.** Whatever the mode, the
issues of a program are just those of its lexemes if and only if its tokens
derive. -/
theorem issues_parseProgram_eq_iff (mode : Reduction) (source : String) :
    (parseProgram mode source).issues = (lex source).issues ↔
      Derives .program ((lex source).tokens.map Token.kind) [.eof] := by
  obtain ⟨front, hstart, htokens, hfront⟩ := ofTokens_lex source
  have hshows : (Cursor.ofTokens (lex source).tokens).Shows
      ((lex source).tokens.map Token.kind) := by
    rw [hstart, htokens, List.map_append]
    exact ⟨rfl, fun t ht => (hfront t ht).kind⟩
  refine (mergeIssues_eq_left_iff (pairwise_issues_lex source)).trans ⟨fun hi => ?_, fun h => ?_⟩
  · exact Attempt.derives_readUpTo (Nat.le_refl _) hi hshows
  · exact h.reads rfl hshows (Nat.le_refl _)

/-- A closing delimiter of another kind will do, and the next statement closes
all that is open. -/
example : (parseProgram .cascading "val x = (a] fn f return g([1, 2").issues = [] := by
  decide +kernel

end ExprFrontEnd
