import ExprFrontEnd.Proofs.CharVector

/-!
# `ExprFrontEnd.Proofs.LexInPlace`: a source text in place

The lexer on a vector of characters. In each turn it looks at the character at the
index, moves the index, and takes the place and the text of a token from offsets.
Every look-up of a character, every slice of the text and every span is checked, also
the span of a label.

* `Piece`: what one turn gives. It is that of a lexeme (`Piece.ofLexeme`).
* `CharVector.Cut.piece?_eq`: a turn never fails, and comes to the lexeme that is
  first in the characters ahead, one branch at a time.
* `CharVector.lex?_ofText`: so the whole text is lexed in place, whatever its
  characters, and the tokens and diagnostics are those of `lex`.
-/

set_option autoImplicit false

namespace ExprFrontEnd

/-- What a turn gives: tokens, diagnostics, and the next index. -/
structure Piece where
  tokens : List Token
  diagnostics : List Diagnostic
  next : Nat
  deriving DecidableEq, Repr

/-- What a lexeme at an offset and an index gives. -/
def Piece.ofLexeme (offset index : Nat) (l : Lexeme) : Piece :=
  let span : Span := ⟨offset, offset + l.width⟩
  ⟨(SourceToken.ofLexeme? l span).toList.map SourceToken.toToken,
    (Issue.ofLexeme? l span).toList.map Issue.toDiagnostic, index + l.chars.length⟩

/-- A word is a reserved word or an identifier. -/
def wordKind (text : String) : TokenKind :=
  match Keyword.ofSpelling? text with
  | some k => .keyword k
  | none => .identifier text

/-- The number that is written as digits, maybe with a point and further digits. -/
def numberOfText (text : String) : Binary64 :=
  let cs := text.toList
  .ofNumeral (cs.takeWhile Char.isDigit) ((cs.dropWhile Char.isDigit).drop 1)

/-- Digits with a point between them are the two parts of their number. -/
theorem numberOfText_eq {whole fraction : List Char} (hwhole : ∀ c ∈ whole, c.isDigit = true) :
    numberOfText (String.ofList (whole ++ withPoint fraction)) = .ofNumeral whole fraction := by
  have hstop : StartsWithout Char.isDigit (withPoint fraction ++ []) :=
    Lexeme.startsWithout_withPoint (startsWithout_nil _)
  rw [List.append_nil] at hstop
  simp only [numberOfText, String.toList_ofList, takeWhile_of_startsWithout hwhole hstop,
    dropWhile_of_startsWithout hwhole hstop]
  cases fraction <;> rfl

namespace CharVector

/-! ### The lexer -/

/-- A comment runs to the end of its line. -/
def comment? (v : CharVector) (index : Nat) : Option Piece := do
  let next ← v.skipWhile? (· != '\n') index
  return ⟨[], [], next⟩

/-- A string literal at an opening quote. -/
def string? (v : CharVector) (start index : Nat) : Option Piece := do
  let literal ← v.quoted? (index + 1) []
  let next := literal.2.2
  let span ← Span.new? start (v.offsetAt next)
  let token : Token := ⟨.string (String.ofList literal.1), span⟩
  if literal.2.1 then return ⟨[token], [], next⟩
  else do
    let label ← Span.new? start (start + 1)
    return ⟨[token], [⟨"E1001", "unterminated string literal", span,
      [⟨"string literal started here", label⟩]⟩], next⟩

/-- A reserved word or an identifier. -/
def word? (v : CharVector) (start index : Nat) : Option Piece := do
  let next ← v.skipWhile? isNameChar index
  let text ← slice? v.text ⟨start, v.offsetAt next⟩
  let span ← Span.new? start (v.offsetAt next)
  return ⟨[⟨wordKind text, span⟩], [], next⟩

/-- The index behind a point and the digits that follow it, if they do. -/
def fraction? (v : CharVector) (index : Nat) : Option Nat :=
  if index + 1 < v.chars.size then do
    let point ← v.char? index
    let digit ← v.char? (index + 1)
    if point = '.' ∧ digit.isDigit then v.skipWhile? Char.isDigit (index + 1)
    else return index
  else return index

/-- What there is to say of a numeral whose digits stop at an offset: whether a name
runs on behind them. -/
def runOn? (v : CharVector) (digitsStop : Nat) (span : Span) : Option (List Diagnostic) :=
  if digitsStop < span.stop then do
    let text ← slice? v.text span
    return [⟨"E1002", "invalid number literal `" ++ text ++ "`", span, []⟩]
  else return []

/-- A numeral, with the name that runs on behind it. -/
def number? (v : CharVector) (start index : Nat) : Option Piece := do
  let whole ← v.skipWhile? Char.isDigit index
  let digits ← v.fraction? whole
  let next ← v.skipWhile? isNameChar digits
  let span ← Span.new? start (v.offsetAt next)
  let diagnostics ← v.runOn? (v.offsetAt digits) span
  let text ← slice? v.text ⟨start, v.offsetAt digits⟩
  return ⟨[⟨.number (numberOfText text), span⟩], diagnostics, next⟩

/-- A symbol at an index, one of two characters if possible, and its length. -/
def symbolAt? (v : CharVector) (index : Nat) : Option (Option (Symbol × Nat)) := do
  let c ← v.char? index
  if index + 1 < v.chars.size then do
    let d ← v.char? (index + 1)
    match Symbol.pair? c d with
    | some s => return some (s, 2)
    | none => return (Symbol.single? c).map (·, 1)
  else return (Symbol.single? c).map (·, 1)

/-- A symbol, or a character that starts no token. -/
def symbol? (v : CharVector) (c : Char) (start index : Nat) : Option Piece := do
  let found ← v.symbolAt? index
  match found with
  | some (s, length) => do
    let span ← Span.new? start (v.offsetAt (index + length))
    return ⟨[⟨.symbol s, span⟩], [], index + length⟩
  | none => do
    let span ← Span.new? start (v.offsetAt (index + 1))
    return ⟨[⟨.unknown c, span⟩],
      [⟨"E1000", "unexpected character '" ++ c.toString ++ "'", span, []⟩], index + 1⟩

/-- A turn of the lexer. -/
def piece? (v : CharVector) (index : Nat) : Option Piece := do
  let entry ← v.chars[index]?
  let start := entry.1
  let c := entry.2
  if Text.isBlank c then return ⟨[], [], index + 1⟩
  else if c = '/' ∧ v.char? (index + 1) = some '/' then v.comment? index
  else if c = '"' then v.string? start index
  else if isNameStart c then v.word? start index
  else if c.isDigit then v.number? start index
  else v.symbol? c start index

/-- The text from an index on, in at most so many turns. -/
def lexUpTo (v : CharVector) : Nat → Nat → Option (List Token × List Diagnostic)
  | 0, _ => none
  | turns + 1, index =>
    if index < v.chars.size then do
      let piece ← v.piece? index
      let rest ← lexUpTo v turns piece.next
      return (piece.tokens ++ rest.1, piece.diagnostics ++ rest.2)
    else return ([.eofAt (.empty v.text.utf8ByteSize)], [])

/-- The tokens and the diagnostics of the text. -/
def lex? (v : CharVector) : Option (List Token × List Diagnostic) := v.lexUpTo (v.chars.size + 1) 0

namespace Cut

variable {v : CharVector} {index : Nat} {before cs rest : List Char} {c : Char}

/-! ### Its branches -/

/-- A comment in place is the first lexeme there. -/
theorem comment?_eq (h : Cut v index before ('/' :: '/' :: rest)) :
    v.comment? index
      = some (.ofLexeme (byteLength before) index (Lexeme.first '/' ('/' :: rest)).1) := by
  rw [comment?, h.skipWhile?_eq, Lexeme.first_slash_slash]
  rfl

/-- A literal in place is the first lexeme there, with its value and its flaw. -/
theorem string?_eq (h : Cut v index before ('"' :: rest)) :
    v.string? (byteLength before) index
      = some (.ofLexeme (byteLength before) index (Lexeme.first '"' rest).1) := by
  -- The loop starts behind the opening quote, which belongs to the piece.
  have hloop := h.next.quoted?_eq []
  have hsplit : '"' :: rest = ('"' :: (Quote.read rest).chars) ++ (Quote.read rest).rest := by
    rw [List.cons_append, Quote.chars_append_rest_read]
  rw [Nat.add_assoc, Nat.add_comm 1] at hloop
  rw [hsplit] at h
  have hstop := h.offsetAt_skip
  rw [List.length_cons] at hstop
  rw [Lexeme.first_quote]
  simp only [string?, hloop, hstop, Span.new?_add, Option.bind_eq_bind, Option.bind_some,
    List.nil_append]
  cases hclosed : (Quote.read rest).closed with
  | true =>
    rw [Lexeme.ofQuote, hclosed]
    rfl
  | false =>
    rw [Lexeme.ofQuote, hclosed]
    rfl

/-- A word is a lexeme with its own text. -/
theorem word?_eq (h : Cut v index before (c :: rest)) (hc : isNameStart c = true) :
    v.word? (byteLength before) index
      = some (.ofLexeme (byteLength before) index (Lexeme.first c rest).1) := by
  have hloop := h.skipWhile?_eq isNameChar
  rw [List.takeWhile_cons_of_pos (isNameChar_of_isNameStart hc)] at hloop
  have hsplit : c :: rest = (c :: rest.takeWhile isNameChar) ++ rest.dropWhile isNameChar := by
    rw [List.cons_append, List.takeWhile_append_dropWhile]
  rw [hsplit] at h
  rw [Lexeme.first_of_isNameStart hc]
  simp only [word?, hloop, h.offsetAt_skip, h.slice?_eq, Span.new?_add, Option.bind_eq_bind,
    Option.bind_some]
  rfl

/-- A point is passed if a digit is behind it. -/
theorem fraction?_of_digit {d : Char} (h : Cut v index before ('.' :: d :: rest))
    (hd : d.isDigit = true) :
    v.fraction? index = some (index + (withPoint (d :: rest.takeWhile Char.isDigit)).length) := by
  have hlt : index + 1 < v.chars.size := h.next.lt_size
  have hloop := h.next.skipWhile?_eq Char.isDigit
  rw [List.takeWhile_cons_of_pos hd, Nat.add_assoc, Nat.add_comm 1] at hloop
  simp only [fraction?, if_pos hlt, h.char?_eq, h.next.char?_eq, List.head?_cons, hloop,
    Option.bind_eq_bind, Option.bind_some, hd, and_self, ↓reduceIte]
  rfl

/-- If none is, it is left alone. -/
theorem fraction?_of_no_digit (h : Cut v index before cs)
    (hpoint : ∀ d rest, cs = '.' :: d :: rest → d.isDigit = false) :
    v.fraction? index = some index := by
  rw [fraction?]
  split
  · rename_i hlt
    rw [h.size_eq] at hlt
    -- Two characters are there to be looked at, but they are no point and digit.
    obtain ⟨c, d, rest, rfl⟩ : ∃ c d rest, cs = c :: d :: rest := by
      match cs with
      | [] | [_] => exact absurd hlt (by simp)
      | c :: d :: rest => exact ⟨c, d, rest, rfl⟩
    have hne : ¬(c = '.' ∧ d.isDigit = true) := by
      rintro ⟨rfl, hd⟩
      rw [hpoint d rest rfl] at hd
      cases hd
    simp only [h.char?_eq, h.next.char?_eq, List.head?_cons, Option.bind_eq_bind,
      Option.bind_some, if_neg hne]
    rfl
  · rfl

/-- The index behind a fraction: behind its digits, and where it started if there are none. -/
theorem fraction?_eq (h : Cut v index before cs) :
    v.fraction? index
      = some (index + (withPoint (Lexeme.splitFraction cs).1).length) := by
  by_cases hpoint : ∃ d rest, cs = '.' :: d :: rest ∧ d.isDigit = true
  · obtain ⟨d, rest, rfl, hd⟩ := hpoint
    rw [Lexeme.splitFraction_of_digits rest hd, h.fraction?_of_digit hd]
  · have hpoint : ∀ d rest, cs = '.' :: d :: rest → d.isDigit = false := by
      intro d rest hcs
      rw [Bool.eq_false_iff]
      exact fun hd => hpoint ⟨d, rest, hcs, hd⟩
    rw [Lexeme.splitFraction_of_no_digit hpoint, h.fraction?_of_no_digit hpoint]
    rfl

/-- A name that runs on makes the span longer than its digits. -/
theorem runOn?_eq {digits tail : List Char} (h : Cut v index before (digits ++ tail ++ rest)) :
    let span : Span := ⟨byteLength before, byteLength before + byteLength (digits ++ tail)⟩
    v.runOn? (byteLength before + byteLength digits) span
      = some (if tail = [] then []
          else
            [(Issue.mk (.invalidNumber (String.ofList (digits ++ tail))) span).toDiagnostic]) := by
  intro span
  have hstop : span.stop = byteLength before + byteLength digits + byteLength tail := by
    rw [Nat.add_assoc, ← byteLength_append]
  rw [runOn?, h.slice?_eq, hstop]
  -- Without a tail the numeral stops where its digits do.
  by_cases htail : tail = []
  · rw [htail, byteLength_nil, Nat.add_zero, if_neg (Nat.lt_irrefl _), if_pos rfl]
    rfl
  · have hpos := byteLength_pos htail
    rw [if_pos (by omega), if_neg htail]
    rfl

/-- A number in place is the first lexeme there, be it a numeral or one that runs into a name. -/
theorem number?_eq (h : Cut v index before (c :: rest)) (hc : c.isDigit = true) :
    v.number? (byteLength before) index
      = some (.ofLexeme (byteLength before) index (Lexeme.first c rest).1) := by
  have hwhole := h.skipWhile?_eq Char.isDigit
  rw [List.takeWhile_cons_of_pos hc] at hwhole
  obtain ⟨fraction, behind, hsplit, hpoint, -⟩ :=
    Lexeme.splitFraction_longest (startsWithout_dropWhile Char.isDigit rest)
  rw [Lexeme.first_of_isDigit hc, hsplit, Lexeme.ofNumeral_eq]
  have hall : ∀ d ∈ c :: rest.takeWhile Char.isDigit, d.isDigit = true :=
    List.forall_mem_cons.mpr ⟨hc, fun _ hd => List.mem_takeWhile_imp hd⟩
  have htext : c :: rest = (c :: rest.takeWhile Char.isDigit) ++ rest.dropWhile Char.isDigit := by
    rw [List.cons_append, List.takeWhile_append_dropWhile]
  rw [htext] at h
  generalize c :: rest.takeWhile Char.isDigit = whole at h hwhole hall ⊢
  -- The digits, and the characters of a name that run on behind them.
  have hfraction := h.skip.fraction?_eq
  rw [hsplit, Nat.add_assoc, ← List.length_append] at hfraction
  rw [← hpoint, ← List.append_assoc] at h
  have hnext := h.skip.skipWhile?_eq isNameChar
  rw [Nat.add_assoc, ← List.length_append] at hnext
  have hstop := h.offsetAt_skip
  have hslice := h.slice?_eq
  rw [← List.takeWhile_append_dropWhile (p := isNameChar) (l := behind), ← List.append_assoc] at h
  simp only [number?, hwhole, hfraction, hnext, h.offsetAt_skip, hstop, hslice, h.runOn?_eq,
    Span.new?_add, Option.bind_eq_bind, Option.bind_some, numberOfText_eq hall]
  split <;> rfl

/-- The symbol at an index is that of the characters there: the longer one of two. -/
theorem symbolAt?_eq (h : Cut v index before (c :: rest)) :
    v.symbolAt? index
      = some ((Lexeme.symbolAt? c rest).map fun p => (p.1, p.1.chars.length)) := by
  have hsingle (behind : List Char) : (Symbol.single? c).map (·, 1)
      = ((Symbol.single? c).map (·, behind)).map fun p => (p.1, p.1.chars.length) := by
    cases hs : Symbol.single? c with
    | none => rfl
    | some s =>
      show some (s, 1) = some (s, s.chars.length)
      rw [Symbol.single?_eq_some_iff.mp hs]
      rfl
  cases rest with
  | nil =>
    -- The last character has no other one to make a pair with.
    have hlast : ¬index + 1 < v.chars.size := h.next.not_lt_size
    simp only [symbolAt?, h.char?_eq, List.head?_cons, Option.bind_eq_bind, Option.bind_some,
      if_neg hlast, hsingle []]
    rfl
  | cons d rest =>
    have hlt : index + 1 < v.chars.size := h.next.lt_size
    simp only [symbolAt?, h.char?_eq, h.next.char?_eq, List.head?_cons, Option.bind_eq_bind,
      Option.bind_some, if_pos hlt, Lexeme.symbolAt?]
    cases hs : Symbol.pair? c d with
    | none =>
      rw [hsingle (d :: rest)]
      rfl
    | some s =>
      show some (some (s, 2)) = some (some (s, s.chars.length))
      rw [Symbol.pair?_eq_some_iff.mp hs]
      rfl

/-- A symbol in place, or a character that starts nothing, is the first lexeme there. -/
theorem symbol?_eq (h : Cut v index before (c :: rest)) (hblank : Text.isBlank c = false)
    (hquote : c ≠ '"') (hname : isNameChar c = false)
    (hslash : c = '/' → StartsWithout (· == '/') rest) :
    v.symbol? c (byteLength before) index
      = some (.ofLexeme (byteLength before) index (Lexeme.first c rest).1) := by
  rw [Lexeme.first_of_isNameChar_eq_false hblank hquote hname hslash]
  simp only [symbol?, h.symbolAt?_eq, Option.bind_eq_bind, Option.bind_some]
  cases hsymbol : Lexeme.symbolAt? c rest with
  | none =>
    have hstop : v.offsetAt (index + 1) = byteLength before + byteLength [c] := by
      rw [h.next.offsetAt_eq, byteLength_append]
    simp only [Option.map_none, hstop, Span.new?_add]
    rfl
  | some p =>
    obtain ⟨s, behind⟩ := p
    rw [← Lexeme.symbolAt?_append hsymbol] at h
    simp only [Option.map_some, h.offsetAt_skip, Span.new?_add]
    rfl

/-- A turn never fails. It comes to the lexeme that is first in the characters ahead. -/
theorem piece?_eq (h : Cut v index before (c :: rest)) :
    v.piece? index
      = some (.ofLexeme (byteLength before) index (Lexeme.first c rest).1) := by
  rw [piece?, h.entry_eq]
  simp only [List.head?_cons, Option.map_some, Option.bind_eq_bind, Option.bind_some]
  -- The branches come in the order of `Lexeme.first`. Each knows that those in front of
  -- it do not apply, and only the last one needs that.
  split
  · rename_i hblank
    rw [Lexeme.first_of_isBlank hblank]
    rfl
  rename_i hblank
  rw [h.next.char?_eq]
  split
  · rename_i hcomment
    obtain ⟨rfl, hhead⟩ := hcomment
    obtain ⟨rest, rfl⟩ := List.head?_eq_some_iff.mp hhead
    exact h.comment?_eq
  rename_i hcomment
  split
  · rename_i hquote
    subst hquote
    exact h.string?_eq
  rename_i hquote
  split
  · rename_i hname
    exact h.word?_eq hname
  rename_i hname
  split
  · rename_i hdigit
    exact h.number?_eq hdigit
  rename_i hdigit
  rw [Bool.not_eq_true] at hblank hname hdigit
  refine h.symbol?_eq hblank hquote (Bool.or_eq_false_iff.mpr ⟨hname, hdigit⟩) fun hc d hd => ?_
  rw [beq_eq_false_iff_ne]
  rintro rfl
  exact hcomment ⟨hc, hd⟩

/-! ### The whole text -/

/-- At the end of the text there is one token more. -/
theorem lexUpTo_nil (turns : Nat) (h : Cut v index before []) :
    v.lexUpTo (turns + 1) index
      = some ((lexAt (byteLength before) []).tokens,
          (lexAt (byteLength before) []).issues.map Issue.toDiagnostic) := by
  have hend : v.text.utf8ByteSize = byteLength before + byteLength [] := by
    rw [← byteLength_toList, h.text_eq, byteLength_append]
  rw [lexUpTo, if_neg h.not_lt_size, hend]
  rfl

/-- The loop takes a turn for each lexeme, and there are no more of them than
characters. -/
theorem lexUpTo_eq (turns : Nat) (h : Cut v index before cs) (hturns : cs.length ≤ turns) :
    v.lexUpTo (turns + 1) index
      = some ((lexAt (byteLength before) cs).tokens,
          (lexAt (byteLength before) cs).issues.map Issue.toDiagnostic) := by
  induction turns generalizing index before cs with
  | zero =>
    obtain rfl := List.length_eq_zero_iff.mp (Nat.le_zero.mp hturns)
    exact h.lexUpTo_nil 0
  | succ turns ih =>
    cases cs with
    | nil => exact h.lexUpTo_nil (turns + 1)
    | cons c rest =>
      rw [lexUpTo, if_pos h.lt_size, h.piece?_eq, lexAt_of_first _ rfl]
      have hlength := Lexeme.length_rest_first_le c rest
      -- The next index is behind the lexeme, and the offset there is that of the next one.
      rw [← Lexeme.chars_append_first c rest] at h
      have hrest := ih h.skip (Nat.le_trans hlength (Nat.le_of_succ_le_succ hturns))
      rw [byteLength_append] at hrest
      simp only [Option.bind_eq_bind, Option.bind_some, Piece.ofLexeme, hrest, Lexed.tokens,
        List.map_append]
      rfl

end Cut

/-- **A source text is lexed in place without a fault**, whatever its characters: each
character that is looked up is there, no slice cuts a character, and the ends of every
span are in order. The tokens and the diagnostics are those of `lex`. -/
theorem lex?_ofText (source : String) :
    (ofText source).lex?
      = some ((lex source).tokens, (lex source).issues.map Issue.toDiagnostic) := by
  have h := cut_ofText source
  have hsize := h.size_eq
  rw [lex?, ← lexAt_zero]
  exact h.lexUpTo_eq _ (by omega)

end CharVector

end ExprFrontEnd
