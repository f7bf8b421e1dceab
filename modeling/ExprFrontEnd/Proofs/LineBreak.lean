import ExprFrontEnd.Proofs.Scanning

/-!
# `ExprFrontEnd.Proofs.LineBreak`: a line break parts two texts

Nothing that the lexer looks for runs over the end of a line: no literal, no
comment, no word, no numeral and no symbol of two characters. So a line break
between two texts is as good as the end of the first one, whatever that text
stops in the middle of, and the second one is read as if it stood alone.

* `Lexeme.Fits.cut`: a lexeme that fits still does if the text behind it is cut
  off by the end of a line, at any place. All the looking ahead of the lexer is
  in this lemma.
* `Scans.append_newline`: readings of two texts make one of both.
* `lexAt_add`: a text further to the right has the same lexemes.
* `lex_append_newline`: the tokens and issues of the first text are followed by
  those of the second one, which are moved behind the line break.
* `lex_line_break`: the same of the tokens and the diagnostics, labels included.
-/

set_option autoImplicit false

namespace ExprFrontEnd

/-! ### The end of a line behind a lexeme -/

section
variable {kept behind ending : List Char}

/-- A line ends in front of a line feed or of nothing. -/
theorem EndsLine.head? (h : EndsLine ending) : ∀ d ∈ ending.head?, d = '\n' :=
  fun d hd => bne_eq_false_iff_eq.mp (h d hd)

/-- A text that is cut off starts as before, or with a line break. -/
theorem EndsLine.head?_append (hend : EndsLine ending) (hkept : kept <+: behind) :
    ∀ d ∈ (kept ++ ending).head?, d ∈ behind.head? ∨ d = '\n' := by
  intro d hd
  cases kept with
  | nil => exact .inr (hend.head? d hd)
  | cons c kept =>
    obtain ⟨rest, rfl⟩ := hkept
    exact .inl hd

/-- What does not start a text does not start it when it is cut short at the end of a line. -/
theorem StartsWithout.cut {p : Char → Bool} (h : StartsWithout p behind) (hp : p '\n' = false)
    (hkept : kept <+: behind) (hend : EndsLine ending) : StartsWithout p (kept ++ ending) := by
  intro d hd
  rcases hend.head?_append hkept d hd with hd | rfl
  · exact h d hd
  · exact hp

/-- No symbol has a line break in it. -/
theorem Symbol.chars_ne_newline (s : Symbol) (c : Char) : s.chars ≠ [c, '\n'] := by
  intro h
  have hmem : '\n' ∈ s.chars := by rw [h]; exact List.mem_cons_of_mem _ List.mem_cons_self
  exact absurd (Symbol.of_mem_chars hmem).1 (by decide)

/-- A character that makes no symbol with the one behind it makes none if that
is cut off. -/
theorem EndsLine.no_pair {c : Char} (hend : EndsLine ending) (hkept : kept <+: behind)
    (h : ∀ d ∈ behind.head?, ∀ s : Symbol, s.chars ≠ [c, d]) :
    ∀ d ∈ (kept ++ ending).head?, ∀ s : Symbol, s.chars ≠ [c, d] := by
  intro d hd s
  rcases hend.head?_append hkept d hd with hd | rfl
  · exact h d hd s
  · exact s.chars_ne_newline c

variable {before before' : List Char}

/-- A word stays a word in front of a cut. -/
theorem Word.cut {text : List Char} (h : Word before text behind)
    (hleft : EndsWithout isNameChar before → EndsWithout isNameChar before')
    (hkept : kept <+: behind) (hend : EndsLine ending) : Word before' text (kept ++ ending) :=
  ⟨h.start, h.chars, hleft h.left, h.right.cut (by decide) hkept hend⟩

/-- A numeral stays a numeral in front of a cut. -/
theorem Numeral.cut {whole fraction tail : List Char}
    (h : Numeral before whole fraction tail behind)
    (hleft : EndsWithout isNameChar before → EndsWithout isNameChar before')
    (hkept : kept <+: behind) (hend : EndsLine ending) :
    Numeral before' whole fraction tail (kept ++ ending) := by
  have htail : tail ++ kept <+: tail ++ behind := (List.prefix_append_right_inj tail).mpr hkept
  refine ⟨h.ne_nil, h.whole_digits, h.fraction_digits, h.tail_chars, ?_, ?_, hleft h.left,
    h.right.cut (by decide) hkept hend⟩
  · rw [← List.append_assoc]
    exact h.longest.cut (by decide) htail hend
  · intro hfraction c cs heq
    rw [← List.append_assoc] at heq
    generalize tail ++ kept = text at heq htail
    match text, heq, htail with
    | [], heq, _ =>
      -- The point itself is cut off.
      have hpoint := hend.head? '.' (by rw [show ending = '.' :: c :: cs from heq]; rfl)
      exact absurd hpoint (by decide)
    | [d], heq, _ =>
      -- The character behind the point is cut off.
      obtain ⟨-, rfl⟩ := List.cons.inj heq
      rw [hend.head? c rfl]
      decide
    | d :: e :: text, heq, ⟨rest, hrest⟩ =>
      obtain ⟨hd, htext⟩ := List.cons.inj heq
      obtain ⟨he, -⟩ := List.cons.inj htext
      rw [hd, he] at hrest
      exact h.point hfraction c (text ++ rest) hrest.symm

/-- **A lexeme does not depend on what is behind the end of its line.** The text
behind it may be cut off at any place, if a line ends there. -/
theorem Lexeme.Fits.cut {l : Lexeme} (h : l.Fits before behind)
    (hleft : EndsWithout isNameChar before → EndsWithout isNameChar before')
    (hkept : kept <+: behind) (hend : EndsLine ending) : l.Fits before' (kept ++ ending) := by
  -- Lexemes that close themselves do not look ahead. All others look ahead up to the end of the
  -- line at most.
  cases h with
  | blank blank => exact .blank blank
  | comment line right => exact .comment line (right.cut rfl hkept hend)
  | keyword word spelled => exact .keyword (word.cut hleft hkept hend) spelled
  | identifier word free => exact .identifier (word.cut hleft hkept hend) free
  | number numeral spelled => exact .number (numeral.cut hleft hkept hend) spelled
  | string inside => exact .string inside
  | unclosed inside right => exact .unclosed inside (right.cut rfl hkept hend)
  | unclosedEscape inside right => exact .unclosedEscape inside (right.cut rfl hkept hend)
  | pair spelled => exact .pair spelled
  | single spelled alone slashes =>
    exact .single spelled (hend.no_pair hkept alone)
      fun hc => (slashes hc).cut (by decide) hkept hend
  | unknown blank quote name alone pair =>
    exact .unknown blank quote name alone (hend.no_pair hkept pair)

end

/-! ### Two texts -/

/-- There is always an end of input. -/
theorem Scans.ne_nil {before cs : List Char} {ts : List SourceToken} {is : List Issue}
    (h : Scans before cs ts is) : ts ≠ [] := by
  induction h with
  | done => exact List.cons_ne_nil _ _
  | gap kind fits rest ih => exact ih
  | token fits place rest ih => exact List.cons_ne_nil _ _

/-- Behind a reading of a text and a line break, a reading of another text. -/
theorem Scans.append_newline {before cs rest : List Char} {ts ts' : List SourceToken}
    {is is' : List Issue} (h : Scans before cs ts is)
    (h' : Scans (before ++ cs ++ ['\n']) rest ts' is') :
    Scans before (cs ++ '\n' :: rest) (ts.dropLast ++ ts') (is ++ is') := by
  have hend : EndsLine ('\n' :: rest) := startsWithout_cons.mpr rfl
  induction h with
  | @done before =>
    -- The line break is a gap of its own.
    rw [List.append_nil] at h'
    exact .gap (l := ⟨['\n'], .blank⟩) (.inl rfl) (.blank (by decide)) h'
  | gap kind fits _ ih =>
    rw [List.append_assoc]
    rw [← List.append_assoc] at h'
    exact .gap kind (fits.cut id (List.prefix_refl _) hend) (ih h')
  | token fits place others ih =>
    rw [List.append_assoc, List.append_assoc, List.dropLast_cons_of_ne_nil others.ne_nil]
    rw [← List.append_assoc] at h'
    exact .token (fits.cut id (List.prefix_refl _) hend) place (ih h')

/-! ### Texts further to the right -/

/-- The same token with its text further to the right. -/
def SourceToken.shift (distance : Nat) (t : SourceToken) : SourceToken :=
  ⟨t.kind, t.text, t.span.shift distance⟩

/-- Lexemes further to the right have places further to the right. -/
theorem place_add (distance offset : Nat) (ls : List Lexeme) :
    place (offset + distance) ls = (place offset ls).map fun p => (p.1, p.2.shift distance) := by
  induction ls generalizing offset with
  | nil => rfl
  | cons l ls ih =>
    simp only [place, List.map_cons, Span.shift, Nat.add_right_comm offset distance, ih]

/-- A token further to the right has its span there, and is the same otherwise. -/
theorem SourceToken.ofLexeme?_shift (distance : Nat) (l : Lexeme) (span : Span) :
    ofLexeme? l (span.shift distance) = (ofLexeme? l span).map (shift distance) := by
  unfold ofLexeme?
  split <;> rfl

/-- An issue further to the right has its span there, and is the same otherwise. -/
theorem Issue.ofLexeme?_shift (distance : Nat) (l : Lexeme) (span : Span) :
    ofLexeme? l (span.shift distance) = (ofLexeme? l span).map (shift distance) := by
  unfold ofLexeme?
  split
  · rename_i flaw _
    cases flaw <;> rfl
  · rfl

/-- A text that starts further to the right has the same tokens and issues
there. -/
theorem lexAt_add (distance offset : Nat) (cs : List Char) :
    lexAt (offset + distance) cs
      = ⟨(lexAt offset cs).sourceTokens.map (SourceToken.shift distance),
        (lexAt offset cs).issues.map (Issue.shift distance)⟩ := by
  simp only [lexAt, place_add, List.filterMap_map, List.map_append, List.map_filterMap,
    Function.comp_def, SourceToken.ofLexeme?_shift, Issue.ofLexeme?_shift]
  simp only [List.map_cons, List.map_nil, SourceToken.shift, Span.shift, Span.empty,
    Nat.add_right_comm offset distance]

/-! ### Source texts -/

/-- **A line break parts two texts.** Behind the tokens and issues of the first
one come those of the second one, moved behind the line break. -/
theorem lex_append_newline (a b : String) :
    lex (a ++ "\n" ++ b)
      = ⟨(lex a).sourceTokens.dropLast
          ++ (lex b).sourceTokens.map (SourceToken.shift (a.utf8ByteSize + 1)),
        (lex a).issues ++ (lex b).issues.map (Issue.shift (a.utf8ByteSize + 1))⟩ := by
  -- No word and no numeral runs over the line break.
  have hparts : Parts (a.toList ++ ['\n']) b.toList :=
    .inl (endsWithout_concat.mpr (by decide))
  have hsecond := scans_lexAt hparts
  have hwidth : byteLength (a.toList ++ ['\n']) = 0 + (a.utf8ByteSize + 1) := by
    rw [byteLength_append, byteLength_toList, Nat.zero_add]
    rfl
  rw [hwidth, lexAt_add, lexAt_zero] at hsecond
  have hboth := ((scans_lex a).append_newline hsecond).eq_lexAt
  have htext : a.toList ++ '\n' :: b.toList = (a ++ "\n" ++ b).toList := by
    rw [String.toList_append, String.toList_append, List.append_assoc]
    rfl
  rwa [htext, byteLength_nil, lexAt_zero] at hboth

/-- The same remark further to the right. -/
def Label.shift (distance : Nat) (l : Label) : Label := ⟨l.message, l.span.shift distance⟩

/-- The same diagnostic further to the right, with its labels. -/
def Diagnostic.shift (distance : Nat) (d : Diagnostic) : Diagnostic :=
  ⟨d.code, d.message, d.span.shift distance, d.labels.map (Label.shift distance)⟩

/-- A diagnostic has its span and its labels where its issue is. -/
theorem Issue.toDiagnostic_shift (distance : Nat) (i : Issue) :
    (i.shift distance).toDiagnostic = i.toDiagnostic.shift distance := by
  obtain ⟨problem, span⟩ := i
  cases problem with
  | unterminatedString =>
    -- The label marks the quote, one byte from the start of the literal on.
    simp only [toDiagnostic, shift, labels, Diagnostic.shift, List.map_cons, List.map_nil,
      Label.shift, Span.shift, Nat.add_right_comm span.start distance]
  | _ => rfl

/-- **A line break splits lexing.** The tokens of two texts with a line break
between them are those of the first one without its end of input, and then those
of the second one at their places behind the line break. The diagnostics of the
first one, too, are followed by those of the second one. -/
theorem lex_line_break (a b : String) :
    (lex a).tokens.getLast? = some (.eofAt (.empty a.utf8ByteSize)) ∧
      (lex (a ++ "\n" ++ b)).tokens
        = (lex a).tokens.dropLast ++ (lex b).tokens.map (Token.shift (a.utf8ByteSize + 1)) ∧
      (lex (a ++ "\n" ++ b)).issues.map Issue.toDiagnostic
        = (lex a).issues.map Issue.toDiagnostic
          ++ ((lex b).issues.map Issue.toDiagnostic).map
            (Diagnostic.shift (a.utf8ByteSize + 1)) := by
  obtain ⟨front, hfront, -⟩ := exists_tokens_lex a
  -- Moving tokens and forgetting their texts can be done in any order.
  have hkeep : SourceToken.toToken ∘ SourceToken.shift (a.utf8ByteSize + 1)
      = Token.shift (a.utf8ByteSize + 1) ∘ SourceToken.toToken := rfl
  have hreport : Issue.toDiagnostic ∘ Issue.shift (a.utf8ByteSize + 1)
      = Diagnostic.shift (a.utf8ByteSize + 1) ∘ Issue.toDiagnostic :=
    funext (Issue.toDiagnostic_shift _)
  refine ⟨by rw [hfront, List.getLast?_concat], ?_, ?_⟩
  · rw [lex_append_newline]
    simp only [Lexed.tokens, List.map_append, List.map_map, List.map_dropLast]
    rw [hkeep]
  · rw [lex_append_newline]
    simp only [List.map_append, List.map_map]
    rw [hreport]

/-- The first text stops in a literal with a backslash at its end, and the
second one starts with what would close it. -/
example : (lex "a = \"b\\\n\" 1.").issues.map Issue.toDiagnostic
    = (lex "a = \"b\\").issues.map Issue.toDiagnostic
      ++ ((lex "\" 1.").issues.map Issue.toDiagnostic).map (Diagnostic.shift 8) := by
  decide +kernel

end ExprFrontEnd
