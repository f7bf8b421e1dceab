import ExprFrontEnd.Proofs.LineBreak
import ExprFrontEnd.Proofs.Relocation
import ExprFrontEnd.Proofs.Reports
import ExprFrontEnd.Proofs.Tiling
import ExprFrontEnd.Source

/-!
# `ExprFrontEnd.Proofs.Layout`: layout does not matter

The tokens of a source text may be written down again one below the other,
without the blanks and the comments that were between them. Each of them is
still the same token, with the same flaws, and what is read is the same up to
places. The issues of the lexer and of the reader also come in the same order,
although they are sorted by places and no place is the same.

To compare two texts, tokens are given their numbers for places
(`Lexed.numbering`). This is a relocation, and it keeps the order of the starts
of tokens, which are the only starts of issues.

* `tokenLexemes_relaid`: the text of a token, in front of a line break or of the
  end, is read as that token.
* `relocate_lex`: the numbered tokens and issues of a text depend on nothing but
  the lexemes of its tokens.
* `relocate_mergeIssues`: issues can be merged before they are numbered, or after.
* `parse_relaid`: so nothing that is parsed depends on the layout.
-/

set_option autoImplicit false

namespace ExprFrontEnd

/-! ### The lexemes of tokens -/

/-- Whether a lexeme is a token. -/
def Lexeme.isToken (l : Lexeme) : Bool :=
  match l.kind with
  | .token _ _ => true
  | _ => false

/-- The lexemes of a text without its blanks and comments. -/
def tokenLexemes (cs : List Char) : List Lexeme := (lexemes cs).filter Lexeme.isToken

/-- The lexemes of a text without its blanks and comments, with their places. -/
def placedTokens (cs : List Char) : List (Lexeme × Span) :=
  (place 0 (lexemes cs)).filter fun p => p.1.isToken

/-- Giving lexemes their places leaves the lexemes as they are. -/
theorem map_fst_place (offset : Nat) (ls : List Lexeme) : (place offset ls).map Prod.fst = ls := by
  induction ls generalizing offset with
  | nil => rfl
  | cons l ls ih => rw [place, List.map_cons, ih]

/-- The lexemes with places are those without. -/
theorem map_fst_placedTokens (cs : List Char) :
    (placedTokens cs).map Prod.fst = tokenLexemes cs := by
  show ((place 0 (lexemes cs)).filter (Lexeme.isToken ∘ Prod.fst)).map Prod.fst = _
  rw [← List.filter_map, map_fst_place, tokenLexemes]

/-- Blanks and comments do not count where they make nothing. -/
theorem filterMap_placedTokens {α : Type} {g : Lexeme × Span → Option α}
    (hblank : ∀ chars span, g (⟨chars, .blank⟩, span) = none)
    (hcomment : ∀ chars span, g (⟨chars, .comment⟩, span) = none) (cs : List Char) :
    (placedTokens cs).filterMap g = (place 0 (lexemes cs)).filterMap g := by
  have hg : ∀ p : Lexeme × Span, (if p.1.isToken then g p else none) = g p := by
    rintro ⟨⟨chars, kind⟩, span⟩
    cases kind with
    | token kind flaw => rfl
    | blank => exact (hblank chars span).symm
    | comment => exact (hcomment chars span).symm
  rw [placedTokens, List.filterMap_filter]
  simp only [hg]

/-- The tokens of a source are those of its lexemes, and an end of input at its end. -/
theorem sourceTokens_lex (source : String) :
    (lex source).sourceTokens
      = (placedTokens source.toList).filterMap (fun p => SourceToken.ofLexeme? p.1 p.2)
        ++ [⟨.eof, "", .empty source.utf8ByteSize⟩] := by
  rw [filterMap_placedTokens (fun _ _ => rfl) fun _ _ => rfl]
  rfl

/-- The issues of lexing are those of its lexemes. -/
theorem issues_lex (source : String) :
    (lex source).issues
      = (placedTokens source.toList).filterMap fun p => Issue.ofLexeme? p.1 p.2 := by
  rw [filterMap_placedTokens (fun _ _ => rfl) fun _ _ => rfl]
  rfl

/-- Each lexeme of a token makes one. -/
theorem map_filterMap_ofLexeme? {α : Type} {g : SourceToken → α} {h : Lexeme × Span → α}
    (hgh : ∀ chars kind flaw span,
      g ⟨kind, String.ofList chars, span⟩ = h (⟨chars, .token kind flaw⟩, span)) (cs : List Char) :
    ((placedTokens cs).filterMap fun p => SourceToken.ofLexeme? p.1 p.2).map g
      = (placedTokens cs).map h := by
  have hone : ∀ p ∈ placedTokens cs, (SourceToken.ofLexeme? p.1 p.2).map g = some (h p) := by
    rintro ⟨⟨chars, kind⟩, span⟩ hp
    have htoken := (List.mem_filter.mp hp).2
    cases kind with
    | token kind flaw => exact congrArg some (hgh chars kind flaw span)
    | _ => cases htoken
  rw [List.map_filterMap, List.filterMap_congr hone]
  exact congrFun List.filterMap_eq_map (placedTokens cs)

/-! ### Tokens one below the other -/

/-- A lexeme of a text is the first one of its own characters, if its line ends
behind them. -/
theorem lexemes_append_of_mem {cs ending : List Char} {l : Lexeme} (h : l ∈ lexemes cs)
    (hend : EndsLine ending) : lexemes (l.chars ++ ending) = l :: lexemes ending := by
  obtain ⟨c, rest, hl⟩ := exists_eq_first_of_mem_lexemes h
  -- It fits with nothing in front of it, and then what is behind it may be cut off.
  have hfits : l.Fits [] (Lexeme.first c rest).2 := hl ▸ Lexeme.fits_first (.inl nofun)
  obtain ⟨d, behind, htext, hfirst⟩ :=
    (hfits.cut id List.nil_prefix hend).exists_first_eq
  rw [List.nil_append] at htext hfirst
  rw [htext, lexemes_cons, hfirst]

/-- Tokens with line breaks between them are read as these tokens. -/
theorem tokenLexemes_intercalate {cs : List Char} {ls : List Lexeme}
    (h : ∀ l ∈ ls, l ∈ tokenLexemes cs) :
    tokenLexemes (['\n'].intercalate (ls.map Lexeme.chars)) = ls := by
  induction ls with
  | nil => rfl
  | cons l ls ih =>
    obtain ⟨hfirst, hls⟩ := List.forall_mem_cons.mp h
    obtain ⟨hl, htoken⟩ := List.mem_filter.mp hfirst
    cases ls with
    | nil =>
      have hlexemes : lexemes (l.chars ++ []) = [l] :=
        lexemes_append_of_mem hl (startsWithout_nil _)
      rw [List.append_nil] at hlexemes
      rw [List.map_cons, List.map_nil, List.intercalate_singleton, tokenLexemes, hlexemes,
        List.filter_cons_of_pos htoken]
      rfl
    | cons l' ls =>
      -- The line break is a blank.
      have hbreak : ∀ rest, lexemes ('\n' :: rest) = ⟨['\n'], .blank⟩ :: lexemes rest := by
        intro rest
        rw [lexemes_cons, Lexeme.first_of_isBlank (by decide)]
      rw [List.map_cons, List.map_cons, List.intercalate_cons_cons, List.append_assoc,
        tokenLexemes, List.singleton_append,
        lexemes_append_of_mem hl (startsWithout_cons.mpr rfl), hbreak,
        List.filter_cons_of_pos htoken]
      exact congrArg (l :: ·) (ih hls)

/-- The texts of the tokens of a source text, without the end of input, with
line breaks between them. -/
def relaid (source : String) : String :=
  "\n".intercalate
    (((lex source).sourceTokens.filter fun t => decide (t.kind ≠ .eof)).map SourceToken.text)

/-- These are the texts of the lexemes. -/
theorem toList_relaid (source : String) :
    (relaid source).toList
      = ['\n'].intercalate ((tokenLexemes source.toList).map Lexeme.chars) := by
  obtain ⟨front, hfront, hlexed, -⟩ := exists_sourceTokens_lex source
  have hplaced := List.append_cancel_right (hfront.symm.trans (sourceTokens_lex source))
  -- Every token but the last one is printed.
  have hkeep : front.filter (fun t => decide (t.kind ≠ .eof)) = front :=
    List.filter_eq_self.mpr fun t ht => decide_eq_true (hlexed t ht).1.kind
  have htexts : front.map (fun t => t.text.toList)
      = (tokenLexemes source.toList).map Lexeme.chars := by
    rw [hplaced, map_filterMap_ofLexeme? (h := fun p => p.1.chars)
      fun _ _ _ _ => String.toList_ofList, ← map_fst_placedTokens, List.map_map]
    rfl
  have hlast : [SourceToken.mk .eof "" (.empty source.utf8ByteSize)].filter
      (fun t => decide (t.kind ≠ .eof)) = [] := rfl
  rw [relaid, String.toList_intercalate, hfront, List.filter_append, hkeep, hlast,
    List.append_nil, List.map_map]
  exact congrArg (['\n'].intercalate ·) htexts

/-- **A source text that is laid out anew has the same tokens**: the lexeme of
each of them is found again. -/
theorem tokenLexemes_relaid (source : String) :
    tokenLexemes (relaid source).toList = tokenLexemes source.toList := by
  rw [toList_relaid]
  exact tokenLexemes_intercalate fun _ h => h

/-! ### Numbers for places -/

/-- How many of some offsets are in front of an offset. -/
def rank (starts : List Nat) (n : Nat) : Nat := starts.countP fun m => decide (m < n)

/-- Offsets in two lists are counted in each of them. -/
theorem rank_append (front behind : List Nat) (n : Nat) :
    rank (front ++ behind) n = rank front n + rank behind n := List.countP_append

/-- An offset in front counts one more. -/
theorem rank_cons (m : Nat) (starts : List Nat) (n : Nat) :
    rank (m :: starts) n = rank starts n + if m < n then 1 else 0 := by
  simp only [rank, List.countP_cons, decide_eq_true_eq]

/-- The ranks of ascending offsets are their numbers. -/
theorem map_rank {starts : List Nat} (h : starts.Pairwise fun m n => m < n) :
    starts.map (rank starts) = List.range starts.length := by
  induction starts with
  | nil => rfl
  | cons n starts ih =>
    obtain ⟨hn, hstarts⟩ := List.pairwise_cons.mp h
    -- Nothing is in front of the first offset, and it is in front of all others.
    have hfirst : rank (n :: starts) n = 0 := by
      rw [rank_cons, if_neg (Nat.lt_irrefl n)]
      refine List.countP_eq_zero.mpr fun m hm => ?_
      have hlt := hn m hm
      simp only [decide_eq_true_eq]
      omega
    have hrest : starts.map (rank (n :: starts)) = (starts.map (rank starts)).map Nat.succ := by
      rw [List.map_map]
      refine List.map_congr_left fun m hm => ?_
      rw [rank_cons, if_pos (hn m hm)]
      rfl
    rw [List.map_cons, hfirst, hrest, ih hstarts, List.length_cons, List.range_succ_eq_map]

/-- Behind a later place there are no fewer offsets. -/
theorem rank_mono (starts : List Nat) {m n : Nat} (h : m ≤ n) : rank starts m ≤ rank starts n :=
  List.countP_mono_left fun _ _ hk =>
    decide_eq_true (Nat.lt_of_lt_of_le (of_decide_eq_true hk) h)

/-- Ranks are in the order of the offsets. -/
theorem rank_le_rank_iff {starts : List Nat} {m n : Nat} (h : n ∈ starts) :
    rank starts m ≤ rank starts n ↔ m ≤ n := by
  refine ⟨fun hle => Nat.le_of_not_lt fun hlt => ?_, rank_mono starts⟩
  -- The smaller one is itself in front of the greater one, and not of itself.
  obtain ⟨front, behind, rfl⟩ := List.append_of_mem h
  have hfront := rank_mono front (Nat.le_of_lt hlt)
  have hbehind := rank_mono behind (Nat.le_of_lt hlt)
  rw [rank_append, rank_append, rank_cons, rank_cons, if_pos hlt, if_neg (Nat.lt_irrefl n)] at hle
  omega

/-- The starts of the tokens of a text. -/
def Lexed.starts (l : Lexed) : List Nat := l.tokens.map fun t => t.span.start

/-- The numbers of tokens for places. -/
def Lexed.numbering (l : Lexed) : Relocation where
  move span := .empty (rank l.starts span.start)
  empty_start _ := rfl

/-- Lexemes with numbers for places. -/
def numbered (ls : List Lexeme) : List (Lexeme × Span) :=
  (ls.zip (List.range ls.length)).map fun p => (p.1, .empty p.2)

/-- Tokens start one behind the other, and the end behind all of them. -/
theorem pairwise_starts_lex (source : String) :
    (lex source).starts.Pairwise fun m n => m < n := by
  obtain ⟨front, htokens, hlexed, hord⟩ := exists_tokens_lex source
  rw [Lexed.starts, htokens, List.map_append]
  refine List.pairwise_append.mpr ⟨List.pairwise_map.mpr (hord.imp_of_mem ?_),
    List.pairwise_singleton _ _, ?_⟩
  · intro t u ht _ htu
    exact Nat.lt_of_lt_of_le (hlexed t ht).1.span htu
  · refine List.forall_mem_map.mpr fun t ht => List.forall_mem_singleton.mpr ?_
    exact Nat.lt_of_lt_of_le (hlexed t ht).1.span (hlexed t ht).2

/-- The starts of the tokens are those of the lexemes with places, and the end of the source. -/
theorem starts_lex (source : String) :
    (lex source).starts
      = (placedTokens source.toList).map (fun p => p.2.start) ++ [source.utf8ByteSize] := by
  rw [Lexed.starts, Lexed.tokens, sourceTokens_lex, List.map_map, List.map_append,
    map_filterMap_ofLexeme? (h := fun p => p.2.start) fun _ _ _ _ => rfl]
  rfl

/-- The lexemes of tokens get their numbers, and the end the number of all of
them. -/
theorem move_numbering_lex (source : String) :
    (placedTokens source.toList).map (fun p => (p.1, (lex source).numbering.move p.2))
        = numbered (tokenLexemes source.toList) ∧
      (lex source).numbering.move (.empty source.utf8ByteSize)
        = .empty (tokenLexemes source.toList).length := by
  have hlength : (placedTokens source.toList).length = (tokenLexemes source.toList).length := by
    rw [← map_fst_placedTokens, List.length_map]
  -- The numbers of all tokens are a range, of which the last one belongs to the end.
  have hranks := map_rank (pairwise_starts_lex source)
  have hstarts := starts_lex source
  rw [hstarts, List.map_append, List.length_append, List.length_map, List.map_map,
    List.length_singleton, List.range_succ, hlength, ← hstarts] at hranks
  obtain ⟨hplaced, hend⟩ := List.append_inj hranks
    (by rw [List.length_map, List.length_range, hlength])
  constructor
  · have hzip := List.zip_map' (f := Prod.fst)
      (g := rank (lex source).starts ∘ fun p => p.2.start) (l := placedTokens source.toList)
    rw [hplaced, map_fst_placedTokens] at hzip
    rw [numbered, hzip, List.map_map]
    rfl
  · exact congrArg Span.empty (List.cons.inj hend).1

/-! ### Numbered texts -/

/-- The same token and its text at its new place. -/
def SourceToken.relocate (f : Relocation) (t : SourceToken) : SourceToken :=
  ⟨t.kind, t.text, f.move t.span⟩

/-- The same tokens and issues at their new places. -/
def Lexed.relocate (f : Relocation) (l : Lexed) : Lexed :=
  ⟨l.sourceTokens.map (SourceToken.relocate f), l.issues.map (Issue.relocate f)⟩

/-- Moving a token moves its span alone. -/
theorem SourceToken.ofLexeme?_relocate (f : Relocation) (l : Lexeme) (span : Span) :
    (ofLexeme? l span).map (relocate f) = ofLexeme? l (f.move span) := by
  unfold ofLexeme?
  split <;> rfl

/-- Moving an issue moves its span alone. -/
theorem Issue.ofLexeme?_relocate (f : Relocation) (l : Lexeme) (span : Span) :
    (ofLexeme? l span).map (relocate f) = ofLexeme? l (f.move span) := by
  unfold ofLexeme?
  split
  · rw [Option.map_map]
    rfl
  · rfl

/-- **The numbered tokens and issues of a source text** depend on nothing but the
lexemes of its tokens. -/
theorem relocate_lex (source : String) :
    (lex source).relocate (lex source).numbering
      = ⟨(numbered (tokenLexemes source.toList)).filterMap
            (fun p => SourceToken.ofLexeme? p.1 p.2)
          ++ [⟨.eof, "", .empty (tokenLexemes source.toList).length⟩],
        (numbered (tokenLexemes source.toList)).filterMap fun p => Issue.ofLexeme? p.1 p.2⟩ := by
  obtain ⟨hplaced, hend⟩ := move_numbering_lex source
  rw [← hplaced, ← hend, Lexed.relocate, sourceTokens_lex, issues_lex]
  simp only [List.map_append, List.map_filterMap, List.filterMap_map, Function.comp_def,
    SourceToken.ofLexeme?_relocate, Issue.ofLexeme?_relocate]
  rfl

/-- The start of a numbered list of tokens. -/
theorem ofTokens_relocate_lex (f : Relocation) (source : String) :
    Cursor.ofTokens ((lex source).relocate f).tokens
      = (Cursor.ofTokens (lex source).tokens).relocate f := by
  obtain ⟨front, htokens, -⟩ := exists_tokens_lex source
  have hrelocate : ((lex source).relocate f).tokens
      = (lex source).tokens.map (Token.relocate f) := by
    simp only [Lexed.tokens, Lexed.relocate, List.map_map]
    rfl
  rw [hrelocate, htokens, List.map_append]
  simp only [Cursor.ofTokens, List.map_cons, List.map_nil, List.getLast?_concat,
    List.dropLast_concat]
  rfl

/-! ### Issues of numbered texts -/

/-- Whatever place of a source text is next, a token starts there. -/
theorem Cursor.Reaches.offset_mem_starts {source : String} {d : Cursor}
    (h : (ofTokens (lex source).tokens).Reaches d) : d.offset ∈ (lex source).starts := by
  obtain ⟨front, hstart, htokens, -⟩ := ofTokens_lex source
  rw [hstart] at h
  rw [Lexed.starts, htokens]
  obtain ⟨ahead, finish, position⟩ := d
  cases ahead with
  | nil =>
    obtain rfl : finish = .empty source.utf8ByteSize := h.finish
    exact List.mem_map.mpr ⟨.eofAt _, List.mem_concat_self, rfl⟩
  | cons t rest =>
    have ht := h.mem_ahead (t := t) List.mem_cons_self
    exact List.mem_map.mpr ⟨t, List.mem_append_left _ ht, rfl⟩

/-- Readers report tokens. -/
theorem Reports.start_mem_starts {source : String} {s : Scope} {e : Cursor} {issues : List Issue}
    (h : Reports s (.ofTokens (lex source).tokens) e issues) :
    ∀ i ∈ issues, i.span.start ∈ (lex source).starts := by
  intro i hi
  obtain ⟨d, hd, hstart⟩ := h.seen i hi
  exact hstart ▸ hd.offset_mem_starts

/-- So does the lexer. -/
theorem start_mem_starts_lex (source : String) :
    ∀ i ∈ (lex source).issues, i.span.start ∈ (lex source).starts := by
  intro i hi
  rw [issues_lex] at hi
  obtain ⟨p, hp, hi⟩ := List.mem_filterMap.mp hi
  rw [starts_lex, Issue.span_ofLexeme? hi]
  exact List.mem_append_left _ (List.mem_map.mpr ⟨p, hp, rfl⟩)

/-- Issues that start at tokens can be merged before or after they are numbered. -/
theorem relocate_mergeIssues {l : Lexed} {earlier later : List Issue}
    (hearlier : ∀ i ∈ earlier, i.span.start ∈ l.starts)
    (hlater : ∀ i ∈ later, i.span.start ∈ l.starts) :
    (mergeIssues earlier later).map (Issue.relocate l.numbering)
      = mergeIssues (earlier.map (Issue.relocate l.numbering))
        (later.map (Issue.relocate l.numbering)) := by
  have hall := List.forall_mem_append.mpr ⟨hearlier, hlater⟩
  rw [mergeIssues, mergeIssues, ← List.map_append]
  -- Sorting looks at nothing but the order of starts, and numbers have that order.
  refine List.map_mergeSort fun i _ j hj => decide_eq_decide.mpr ?_
  exact (rank_le_rank_iff (hall j hj)).symm

/-- A remark without its place. -/
def Label.eraseSpans (l : Label) : Label := ⟨l.message, .empty 0⟩

/-- A diagnostic without places: its code, its message and the remarks on it. -/
def Diagnostic.eraseSpans (d : Diagnostic) : Diagnostic :=
  ⟨d.code, d.message, .empty 0, d.labels.map Label.eraseSpans⟩

/-- A diagnostic without its places is the same wherever its issue is. -/
theorem Issue.eraseSpans_relocate (f : Relocation) (i : Issue) :
    (i.relocate f).toDiagnostic.eraseSpans = i.toDiagnostic.eraseSpans := by
  obtain ⟨problem, span⟩ := i
  cases problem <;> rfl

/-- Issues that are the same up to places are reported in the same words. -/
theorem eraseSpans_toDiagnostic {f g : Relocation} {is js : List Issue}
    (h : is.map (Issue.relocate f) = js.map (Issue.relocate g)) :
    (is.map Issue.toDiagnostic).map Diagnostic.eraseSpans
      = (js.map Issue.toDiagnostic).map Diagnostic.eraseSpans := by
  have hwords : ∀ (f : Relocation) (is : List Issue),
      (is.map Issue.toDiagnostic).map Diagnostic.eraseSpans
        = (is.map (Issue.relocate f)).map fun i => i.toDiagnostic.eraseSpans := by
    intro f is
    simp only [List.map_map, Function.comp_def, Issue.eraseSpans_relocate]
  rw [hwords f, hwords g, h]

/-! ### Source texts with the same tokens -/

/-- What is the same of two source texts that differ in their layout only. -/
structure SameUpToPlaces (mode : Reduction) (a b : String) : Prop where
  /-- The tokens, with their values. -/
  kinds : (lex a).tokens.map Token.kind = (lex b).tokens.map Token.kind
  statements : (parseProgram mode a).statements.map Stmt.eraseSpans
    = (parseProgram mode b).statements.map Stmt.eraseSpans
  expr : (parseExpression mode a).expr.eraseSpans = (parseExpression mode b).expr.eraseSpans
  /-- Codes, messages and remarks of all issues, in their final order. -/
  programDiagnostics : (parseProgram mode a).diagnostics.map Diagnostic.eraseSpans
    = (parseProgram mode b).diagnostics.map Diagnostic.eraseSpans
  expressionDiagnostics : (parseExpression mode a).diagnostics.map Diagnostic.eraseSpans
    = (parseExpression mode b).diagnostics.map Diagnostic.eraseSpans

section
variable {a b : String}

/-- The issues of both stages, merged, are the same up to places if those of the
reader are. -/
theorem eraseSpans_mergeIssues {is js : List Issue}
    (hlexer : (lex a).issues.map (Issue.relocate (lex a).numbering)
      = (lex b).issues.map (Issue.relocate (lex b).numbering))
    (hreader : is.map (Issue.relocate (lex a).numbering)
      = js.map (Issue.relocate (lex b).numbering))
    (his : ∀ i ∈ is, i.span.start ∈ (lex a).starts)
    (hjs : ∀ j ∈ js, j.span.start ∈ (lex b).starts) :
    ((mergeIssues (lex a).issues is).map Issue.toDiagnostic).map Diagnostic.eraseSpans
      = ((mergeIssues (lex b).issues js).map Issue.toDiagnostic).map Diagnostic.eraseSpans := by
  refine eraseSpans_toDiagnostic (f := (lex a).numbering) (g := (lex b).numbering) ?_
  rw [relocate_mergeIssues (start_mem_starts_lex a) his,
    relocate_mergeIssues (start_mem_starts_lex b) hjs, hlexer, hreader]

/-- Two source texts with the same tokens are the same up to places. -/
theorem sameUpToPlaces_of_tokenLexemes_eq (mode : Reduction)
    (h : tokenLexemes a.toList = tokenLexemes b.toList) : SameUpToPlaces mode a b := by
  have hlex : (lex a).relocate (lex a).numbering = (lex b).relocate (lex b).numbering := by
    rw [relocate_lex, relocate_lex, h]
  have hissues : (lex a).issues.map (Issue.relocate (lex a).numbering)
      = (lex b).issues.map (Issue.relocate (lex b).numbering) := congrArg Lexed.issues hlex
  have hstart : (Cursor.ofTokens (lex a).tokens).relocate (lex a).numbering
      = (Cursor.ofTokens (lex b).tokens).relocate (lex b).numbering := by
    rw [← ofTokens_relocate_lex, ← ofTokens_relocate_lex, hlex]
  -- What is read at the two starts is the same as well, when it is numbered.
  have hchain := congrArg (fun c => (Chain.read .stream c).1) hstart
  have hattempts := congrArg (fun c => (Attempt.readAll c).1) hstart
  simp only [Chain.read_relocate] at hchain
  simp only [Attempt.readAll_relocate] at hattempts
  have hkinds : ∀ l : Lexed, l.tokens.map Token.kind
      = (l.relocate l.numbering).sourceTokens.map SourceToken.kind := fun l => by
    simp only [Lexed.tokens, Lexed.relocate, List.map_map]
    rfl
  refine ⟨?_, ?_, ?_, ?_, ?_⟩
  · rw [hkinds, hkinds, hlex]
  · show ((Attempt.readAll _).1.filterMap _).map _ = ((Attempt.readAll _).1.filterMap _).map _
    rw [← Attempt.eraseSpans_relocate (lex a).numbering, hattempts, Attempt.eraseSpans_relocate]
  · show ((Chain.read .stream _).1.toExpr mode).eraseSpans
      = ((Chain.read .stream _).1.toExpr mode).eraseSpans
    rw [← Chain.eraseSpans_relocate (lex a).numbering, hchain, Chain.eraseSpans_relocate]
  · refine eraseSpans_mergeIssues hissues ?_
      (Attempt.reports_readAll (Cursor.inText_ofTokens_lex a)).start_mem_starts
      (Attempt.reports_readAll (Cursor.inText_ofTokens_lex b)).start_mem_starts
    rw [← Attempt.flatMap_issues_relocate, hattempts, Attempt.flatMap_issues_relocate]
  · refine eraseSpans_mergeIssues hissues ?_
      (Chain.reports_read (Cursor.inText_ofTokens_lex a)).start_mem_starts
      (Chain.reports_read (Cursor.inText_ofTokens_lex b)).start_mem_starts
    rw [← Chain.issues_relocate, hchain, Chain.issues_relocate]

end

/-- **Layout does not matter.** The tokens of a source text with nothing but
line breaks between them are the same tokens, and what is read, by both entry
points and in both modes, is the same up to places: the statements, the
expression, and the diagnostics in their merged order. -/
theorem parse_relaid (mode : Reduction) (source : String) :
    SameUpToPlaces mode (relaid source) source :=
  sameUpToPlaces_of_tokenLexemes_eq mode (tokenLexemes_relaid source)

/-- An operand that is missing, behind a comment, and a literal that is not
closed. -/
example : relaid "val x=1+//\n) 2x; \"a" = "val\nx\n=\n1\n+\n)\n2x\n;\n\"a" := by
  decide +kernel

end ExprFrontEnd
