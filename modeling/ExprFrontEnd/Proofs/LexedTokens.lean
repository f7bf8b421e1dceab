import ExprFrontEnd.Lexed
import ExprFrontEnd.Proofs.Order

/-!
# `ExprFrontEnd.Proofs.LexedTokens`: the tokens of a source text

What every lexed list of tokens has, whatever the text. It ends in the only
end of input (`exists_tokens_lex`), it is in order (`inOrder_lex`), and each
token in front of the end takes up at least one byte (`Token.IsLexed`). So a
token that stands in the text is known by its place.

The places come from the widths of the lexemes (`pairwise_place`), and the
kinds from the first lexeme of a text, which is each lexeme in its turn
(`exists_eq_first_of_mem_lexemes`).
-/

set_option autoImplicit false

namespace ExprFrontEnd

/-! ### Places -/

/-- Characters take up as many bytes as the text of them. -/
theorem byteLength_eq_utf8ByteSize_ofList (cs : List Char) :
    byteLength cs = (String.ofList cs).utf8ByteSize := by
  induction cs with
  | nil => rfl
  | cons c cs ih =>
    rw [byteLength_cons, ih, String.ofList_cons, String.utf8ByteSize_append,
      String.utf8ByteSize_singleton]

/-- No character is without bytes. -/
theorem byteLength_pos {cs : List Char} (h : cs ≠ []) : 0 < byteLength cs := by
  cases cs with
  | nil => exact absurd rfl h
  | cons c cs =>
    have := c.utf8Size_pos
    rw [byteLength_cons]
    omega

/-- A lexeme is placed behind the offset, takes up its width, and stops before
the end of all lexemes. -/
theorem mem_place {offset : Nat} {ls : List Lexeme} {p : Lexeme × Span} (h : p ∈ place offset ls) :
    p.1 ∈ ls ∧ offset ≤ p.2.start ∧ p.2.stop = p.2.start + p.1.width ∧
      p.2.stop ≤ offset + byteLength (ls.flatMap Lexeme.chars) := by
  induction ls generalizing offset with
  | nil => cases h
  | cons l ls ih =>
    rw [List.flatMap_cons, byteLength_append]
    rcases List.mem_cons.mp h with rfl | h
    · exact ⟨List.mem_cons_self, Nat.le_refl _, rfl, by simp only [Lexeme.width]; omega⟩
    · obtain ⟨hmem, hstart, hstop, hend⟩ := ih h
      rw [Lexeme.width] at hstart hend
      exact ⟨List.mem_cons_of_mem _ hmem, by omega, hstop, by omega⟩

/-- Lexemes are placed one behind the other. -/
theorem pairwise_place (offset : Nat) (ls : List Lexeme) :
    (place offset ls).Pairwise fun p q => p.2.stop ≤ q.2.start := by
  induction ls generalizing offset with
  | nil => exact .nil
  | cons l ls ih => exact List.pairwise_cons.mpr ⟨fun q hq => (mem_place hq).2.1, ih _⟩

/-! ### Kinds -/

/-- Every lexeme of a text is the first one of the text that it starts. -/
theorem exists_eq_first_of_mem_lexemes {cs : List Char} {l : Lexeme} (h : l ∈ lexemes cs) :
    ∃ c rest, l = (Lexeme.first c rest).1 := by
  match cs with
  | [] => cases h
  | c :: rest =>
    rw [lexemes_cons, List.mem_cons] at h
    rcases h with rfl | h
    · exact ⟨c, rest, rfl⟩
    · exact exists_eq_first_of_mem_lexemes h
termination_by cs.length
decreasing_by exact Nat.lt_succ_of_le (Lexeme.length_rest_first_le c rest)

/-- A token that stands in a source text. -/
structure Token.IsLexed (t : Token) : Prop where
  kind : t.kind ≠ .eof
  named : t.kind ≠ .identifier ""
  span : t.span.start < t.span.stop

/-- The first lexeme of a text is no end of input and no empty name. -/
theorem Lexeme.kind_first {c : Char} {rest : List Char} {kind : TokenKind} {flaw : Option Problem}
    (h : (first c rest).1.kind = .token kind flaw) : kind ≠ .eof ∧ kind ≠ .identifier "" := by
  revert h
  unfold first
  -- Blanks and comments are no tokens.
  split
  · nofun
  split
  · nofun
  -- A string.
  split
  · intro h
    obtain ⟨rfl, -⟩ := LexemeKind.token.inj h
    exact ⟨nofun, nofun⟩
  -- A name or a reserved word, which has a first character.
  split
  · intro h
    obtain ⟨rfl, -⟩ := LexemeKind.token.inj h
    have hword : String.ofList (c :: rest.takeWhile isNameChar) ≠ "" := by simp
    constructor <;> split <;> simp_all
  -- A number.
  split
  · intro h
    obtain ⟨rfl, -⟩ := LexemeKind.token.inj h
    exact ⟨nofun, nofun⟩
  -- A symbol or an unknown character.
  · split <;> intro h <;> obtain ⟨rfl, -⟩ := LexemeKind.token.inj h <;> exact ⟨nofun, nofun⟩

/-! ### Lexed lists -/

/-- The tokens of a source text are those that stand in it, one behind the
other, and an end of input behind them. -/
theorem exists_tokens_lex (source : String) :
    ∃ front : List Token, (lex source).tokens
        = front ++ [.eofAt (.empty source.utf8ByteSize)] ∧
      (∀ t ∈ front, t.IsLexed ∧ t.span.stop ≤ source.utf8ByteSize) ∧
      front.Pairwise fun t u => t.span.stop ≤ u.span.start := by
  let placed := place 0 (lexemes source.toList)
  let toToken? : Lexeme × Span → Option Token :=
    fun p => (SourceToken.ofLexeme? p.1 p.2).map SourceToken.toToken
  -- A token is at the place of its lexeme and of the kind that the lexeme gives it.
  have htoken : ∀ {p : Lexeme × Span} {t : Token}, toToken? p = some t →
      t.span = p.2 ∧ ∃ flaw, p.1.kind = .token t.kind flaw := by
    intro p t ht
    obtain ⟨st, hst, rfl⟩ := Option.map_eq_some_iff.mp ht
    unfold SourceToken.ofLexeme? at hst
    split at hst
    · rename_i kind flaw hk
      cases hst
      exact ⟨rfl, flaw, hk⟩
    · cases hst
  refine ⟨placed.filterMap toToken?, ?_, fun t ht => ?_, ?_⟩
  · rw [Lexed.tokens, lex, List.map_append, List.map_filterMap]
    rfl
  · obtain ⟨p, hp, ht⟩ := List.mem_filterMap.mp ht
    obtain ⟨hspan, flaw, hk⟩ := htoken ht
    obtain ⟨hmem, -, hstop, hend⟩ := mem_place hp
    -- The lexemes make up the text, so they stop where it does.
    rw [← hspan, flatMap_chars_lexemes, byteLength_eq_utf8ByteSize_ofList,
      String.ofList_toList, Nat.zero_add] at hend
    have hspans : t.span.start < t.span.stop := by
      have hwidth : 0 < p.1.width := byteLength_pos (chars_ne_nil_of_mem_lexemes hmem)
      rw [← hspan] at hstop
      omega
    obtain ⟨c, rest, hfirst⟩ := exists_eq_first_of_mem_lexemes hmem
    obtain ⟨heof, hname⟩ := Lexeme.kind_first (hfirst ▸ hk)
    exact ⟨⟨heof, hname, hspans⟩, hend⟩
  · refine List.pairwise_filterMap.mpr ((pairwise_place 0 _).imp ?_)
    intro p q hpq t ht u hu
    rw [(htoken ht).1, (htoken hu).1]
    exact hpq

/-- Lexed lists are in order. -/
theorem inOrder_lex (source : String) : Token.InOrder (lex source).tokens := by
  obtain ⟨front, htokens, hfront, hpw⟩ := exists_tokens_lex source
  rw [htokens]
  refine ⟨?_, ?_, ?_⟩
  · exact List.forall_mem_append.mpr ⟨fun t ht => Nat.le_of_lt (hfront t ht).1.span,
      List.forall_mem_singleton.mpr (Nat.le_refl _)⟩
  · refine List.Pairwise.isChain (List.pairwise_append.mpr
      ⟨hpw, List.pairwise_singleton _ _, fun t ht u hu => ?_⟩)
    rw [List.mem_singleton.mp hu]
    exact (hfront t ht).2
  · intro t ht _
    rw [List.getLast?_concat] at ht
    rw [← Option.some.inj ht]
    rfl

/-- A lexeme is reported at its place. -/
theorem Issue.span_ofLexeme? {l : Lexeme} {span : Span} {i : Issue}
    (h : ofLexeme? l span = some i) : i.span = span := by
  unfold ofLexeme? at h
  split at h
  · obtain ⟨_, -, rfl⟩ := Option.map_eq_some_iff.mp h
    rfl
  · cases h

/-- The issues of the lexemes are in order. -/
theorem pairwise_issues_lex (source : String) :
    (lex source).issues.Pairwise fun i j => i.span.start ≤ j.span.start := by
  refine List.pairwise_filterMap.mpr ((pairwise_place 0 _).imp_of_mem ?_)
  intro p q hp _ hpq i hi j hj
  have hstop := (mem_place hp).2.2.1
  rw [Issue.span_ofLexeme? hi, Issue.span_ofLexeme? hj]
  omega

/-- What is ahead at the start of a lexed list stands in the source text. -/
theorem ofTokens_lex (source : String) :
    ∃ front : List Token, Cursor.ofTokens (lex source).tokens
        = ⟨front, .empty source.utf8ByteSize, 0⟩ ∧
      (lex source).tokens = front ++ [.eofAt (.empty source.utf8ByteSize)] ∧
      ∀ t ∈ front, t.IsLexed := by
  obtain ⟨front, htokens, hfront, -⟩ := exists_tokens_lex source
  refine ⟨front, ?_, htokens, fun t ht => (hfront t ht).1⟩
  rw [htokens, Cursor.ofTokens, List.getLast?_concat, List.dropLast_concat]
  rfl

end ExprFrontEnd
