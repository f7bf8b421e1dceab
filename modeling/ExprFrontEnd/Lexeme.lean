import ExprFrontEnd.Problem
import ExprFrontEnd.Text.Blank
import ExprFrontEnd.Text.Utf8

/-!
# `ExprFrontEnd.Lexeme`: a source text cut into pieces

A source text is a row of lexemes: white space, comments and the texts of tokens. `lexemes` cuts a
text from left to right, always taking the longest piece (`Lexeme.first`). No character is lost
(`flatMap_chars_lexemes`) and no lexeme is empty (`chars_ne_nil_of_mem_lexemes`), so a lexeme's
place is the width of the lexemes before it.

### Main definitions

* `Lexeme.first`: the lexeme at the start of a text, and the text behind it;
* `Quote.read`: a string literal behind its opening quote;
* `lexemes`: all lexemes of a text.
-/

set_option autoImplicit false

namespace ExprFrontEnd

/-! ### Character classes of names and numerals -/

/-- The first character of a name: an ASCII letter or an underscore. -/
def isNameStart (c : Char) : Bool := c.isAlpha || c == '_'

/-- The further characters of a name: those that start names, and the ASCII digits. -/
def isNameChar (c : Char) : Bool := isNameStart c || c.isDigit

/-! ### String literals -/

/-- The character that a backslash and this character stand for. Characters without a meaning of
their own stand for themselves. -/
def unescape (c : Char) : Char :=
  match c with
  | 'n' => '\n'
  | 'r' => '\r'
  | 't' => '\t'
  | c => c

/-- A string literal behind its opening quote. -/
structure Quote where
  /-- The text that the literal denotes. -/
  value : List Char
  /-- The characters of the literal, with its closing quote if it has one. -/
  chars : List Char
  /-- Whether the literal has a closing quote. -/
  closed : Bool
  /-- The text behind the literal. -/
  rest : List Char
  deriving DecidableEq, Repr

namespace Quote

/-- The literal with one more denoted character and its spelling in front. -/
def prepend (c : Char) (spelling : List Char) (q : Quote) : Quote :=
  ⟨c :: q.value, spelling ++ q.chars, q.closed, q.rest⟩

/-- Reads up to the first quote that is not escaped. A literal does not run over the end of its
line; there a backslash is a character like any other. -/
def read : List Char → Quote
  | [] => ⟨[], [], false, []⟩
  | '"' :: rest => ⟨[], ['"'], true, rest⟩
  | '\n' :: rest => ⟨[], [], false, '\n' :: rest⟩
  | '\\' :: '\n' :: rest => ⟨['\\'], ['\\'], false, '\n' :: rest⟩
  | '\\' :: c :: rest => (read rest).prepend (unescape c) ['\\', c]
  | c :: rest => (read rest).prepend c [c]

/-- What is read as a literal and what is left make up the text. -/
theorem chars_append_rest_read (cs : List Char) : (read cs).chars ++ (read cs).rest = cs := by
  fun_induction read cs <;> simp_all [prepend]

end Quote

/-! ### Lexemes -/

/-- The kinds of lexemes. -/
inductive LexemeKind where
  /-- One character of white space. -/
  | blank
  /-- A comment, without the line break that ends it. -/
  | comment
  /-- The text of a token, and what is wrong with it. -/
  | token (kind : TokenKind) (flaw : Option Problem)
  deriving DecidableEq, Repr

/-- A piece of a source text. -/
structure Lexeme where
  chars : List Char
  kind : LexemeKind
  deriving DecidableEq, Repr

namespace Lexeme

/-- A string literal, from its opening quote on. -/
def ofQuote (q : Quote) : Lexeme :=
  ⟨'"' :: q.chars, .token (.string (String.ofList q.value))
    (if q.closed then none else some .unterminatedString)⟩

/-- A word is a reserved word or an identifier. -/
def ofWord (word : List Char) : Lexeme :=
  let text := String.ofList word
  ⟨word, .token (match Keyword.ofSpelling? text with
    | some k => .keyword k
    | none => .identifier text) none⟩

/-- A numeral is a row of digits, with a point and further digits if a digit follows the point. The
name characters that run on behind it belong to its text but not to its value. -/
def ofNumeral (whole fraction tail : List Char) : Lexeme :=
  let point := if fraction.isEmpty then [] else ['.']
  let chars := whole ++ point ++ fraction ++ tail
  ⟨chars, .token (.number (.ofNumeral whole fraction))
    (if tail.isEmpty then none else some (.invalidNumber (String.ofList chars)))⟩

/-- The digits of a fraction and the text behind them, if the text starts with one. -/
def splitFraction (cs : List Char) : List Char × List Char :=
  match cs with
  | '.' :: rest =>
    let digits := rest.takeWhile Char.isDigit
    if digits.isEmpty then ([], cs) else (digits, rest.dropWhile Char.isDigit)
  | _ => ([], cs)

/-- A symbol at the start of a text, one of two characters if possible. -/
def symbolAt? (c : Char) (rest : List Char) : Option (Symbol × List Char) :=
  match rest with
  | [] => (Symbol.single? c).map (·, [])
  | d :: behind =>
    match Symbol.pair? c d with
    | some s => some (s, behind)
    | none => (Symbol.single? c).map (·, rest)

/-- The lexeme at the start of the text `c :: rest`, and the text behind it. -/
def first (c : Char) (rest : List Char) : Lexeme × List Char :=
  if Text.isBlank c then
    (⟨[c], .blank⟩, rest)
  else if c = '/' ∧ rest.head? = some '/' then
    (⟨c :: rest.takeWhile (· != '\n'), .comment⟩, rest.dropWhile (· != '\n'))
  else if c = '"' then
    let q := Quote.read rest
    (ofQuote q, q.rest)
  else if isNameStart c then
    (ofWord (c :: rest.takeWhile isNameChar), rest.dropWhile isNameChar)
  else if c.isDigit then
    let whole := c :: rest.takeWhile Char.isDigit
    let (fraction, behind) := splitFraction (rest.dropWhile Char.isDigit)
    (ofNumeral whole fraction (behind.takeWhile isNameChar), behind.dropWhile isNameChar)
  else match symbolAt? c rest with
    | some (s, behind) => (⟨s.chars, .token (.symbol s) none⟩, behind)
    | none => (⟨[c], .token (.unknown c) (some (.unexpectedCharacter c))⟩, rest)

/-- A fraction, with its point if it has digits, and what is left make up the text. -/
theorem splitFraction_append (cs : List Char) :
    (if (splitFraction cs).1.isEmpty then [] else ['.']) ++ (splitFraction cs).1
      ++ (splitFraction cs).2 = cs := by
  unfold splitFraction
  split
  · rename_i rest
    by_cases h : rest.takeWhile Char.isDigit = [] <;> simp [h]
  · simp

/-- A symbol and what is left make up the text, its first character included. -/
theorem symbolAt?_append {c : Char} {rest : List Char} {s : Symbol} {behind : List Char}
    (h : symbolAt? c rest = some (s, behind)) : s.chars ++ behind = c :: rest := by
  unfold symbolAt? at h
  split at h
  · simp only [Option.map_eq_some_iff, Prod.mk.injEq] at h
    obtain ⟨t, ht, rfl, rfl⟩ := h
    simp [Symbol.single?_eq_some_iff.1 ht]
  · split at h
    · rename_i hs
      simp only [Option.some.injEq, Prod.mk.injEq] at h
      obtain ⟨rfl, rfl⟩ := h
      simp [Symbol.pair?_eq_some_iff.1 hs]
    · simp only [Option.map_eq_some_iff, Prod.mk.injEq] at h
      obtain ⟨t, ht, rfl, rfl⟩ := h
      simp [Symbol.single?_eq_some_iff.1 ht]

/-- No symbol is written with no characters. -/
theorem symbol_chars_ne_nil (s : Symbol) : s.chars ≠ [] := by
  cases s <;> decide

/-- The first lexeme and the text behind it make up the text. -/
theorem chars_append_first (c : Char) (rest : List Char) :
    (first c rest).1.chars ++ (first c rest).2 = c :: rest := by
  unfold first
  split
  · rfl
  split
  · simp
  split
  · rename_i hq
    simp [ofQuote, Quote.chars_append_rest_read, hq]
  split
  · simp [ofWord]
  split
  -- A numeral consists of digits, a fraction and a tail, cut off one after the other.
  · have h := splitFraction_append (rest.dropWhile Char.isDigit)
    generalize splitFraction (rest.dropWhile Char.isDigit) = p at h ⊢
    simp only [List.append_assoc] at h
    simp only [ofNumeral, List.append_assoc, List.takeWhile_append_dropWhile, List.cons_append, h]
  · split
    -- At last a symbol or, if there is none, the character alone.
    · rename_i hs
      exact symbolAt?_append hs
    · rfl

/-- Every lexeme takes a character, so reading lexemes comes to an end. -/
theorem chars_first_ne_nil (c : Char) (rest : List Char) : (first c rest).1.chars ≠ [] := by
  unfold first
  split
  · simp
  split
  · simp
  split
  · simp [ofQuote]
  split
  · simp [ofWord]
  split
  · simp [ofNumeral]
  · split
    · exact symbol_chars_ne_nil _
    · simp

/-- What is left behind a lexeme is no longer than what stood behind its first character. -/
theorem length_rest_first_le (c : Char) (rest : List Char) :
    (first c rest).2.length ≤ rest.length := by
  have h := congrArg List.length (chars_append_first c rest)
  have := List.length_pos_iff.2 (chars_first_ne_nil c rest)
  simp only [List.length_append, List.length_cons] at h
  omega

/-- The number of bytes of a lexeme in UTF-8. -/
def width (l : Lexeme) : Nat := byteLength l.chars

end Lexeme

/-- The first lexemes of a text, at most as many as `fuel` says. -/
def lexemesUpTo : Nat → List Char → List Lexeme
  | 0, _ => []
  | _ + 1, [] => []
  | fuel + 1, c :: rest =>
    let (lexeme, behind) := Lexeme.first c rest
    lexeme :: lexemesUpTo fuel behind

/-- All lexemes of a text. There are no more of them than characters. -/
def lexemes (cs : List Char) : List Lexeme := lexemesUpTo cs.length cs

/-- A bound that is not less than the length of the text changes nothing. -/
theorem lexemesUpTo_eq_of_length_le (fuel : Nat) (cs : List Char) (h : cs.length ≤ fuel) :
    lexemesUpTo fuel cs = lexemes cs := by
  suffices ∀ m n cs, List.length cs ≤ m → cs.length ≤ n → lexemesUpTo m cs = lexemesUpTo n cs from
    this _ _ _ h (Nat.le_refl _)
  intro m
  induction m with
  | zero =>
    intro n cs hm hn
    obtain rfl : cs = [] := List.length_eq_zero_iff.1 (by omega)
    cases n <;> rfl
  | succ m ih =>
    intro n cs hm hn
    match cs, n with
    | [], 0 => rfl
    | [], n + 1 => rfl
    | c :: rest, n + 1 =>
      have := Lexeme.length_rest_first_le c rest
      simp only [List.length_cons] at hm hn
      simp only [lexemesUpTo]
      rw [ih n _ (by omega) (by omega)]

/-- The lexemes of a text are the first one and those of what is left behind it. -/
theorem lexemes_cons (c : Char) (rest : List Char) :
    lexemes (c :: rest) = (Lexeme.first c rest).1 :: lexemes (Lexeme.first c rest).2 := by
  rw [← lexemesUpTo_eq_of_length_le rest.length _ (Lexeme.length_rest_first_le c rest)]
  rfl

/-- No character of a text is lost. -/
theorem flatMap_chars_lexemes (cs : List Char) : (lexemes cs).flatMap Lexeme.chars = cs := by
  match cs with
  | [] => rfl
  | c :: rest =>
    rw [lexemes_cons, List.flatMap_cons, flatMap_chars_lexemes (Lexeme.first c rest).2,
      Lexeme.chars_append_first]
termination_by cs.length
decreasing_by exact Nat.lt_succ_of_le (Lexeme.length_rest_first_le c rest)

/-- No lexeme is empty. -/
theorem chars_ne_nil_of_mem_lexemes {cs : List Char} {l : Lexeme} (h : l ∈ lexemes cs) :
    l.chars ≠ [] := by
  match cs with
  | [] => exact absurd h List.not_mem_nil
  | c :: rest =>
    rw [lexemes_cons, List.mem_cons] at h
    rcases h with rfl | h
    · exact Lexeme.chars_first_ne_nil c rest
    · exact chars_ne_nil_of_mem_lexemes h
termination_by cs.length
decreasing_by exact Nat.lt_succ_of_le (Lexeme.length_rest_first_le c rest)

end ExprFrontEnd
