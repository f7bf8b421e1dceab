import ExprFrontEnd.Lexed

/-!
# `ExprFrontEnd.Proofs.Lexicon`: what is a lexeme

A grammar of the pieces of a source text, which does not say how they are
found. `Lexeme.Fits before behind l` says that the lexeme `l` may stand between
two texts: its characters are of the form that its kind requires, and it is as
long as it can be there. Each rule says what a kind of lexeme looks like and
which problem it has, if any.

`Scans` puts the lexemes of a text together. It collects the tokens with their
texts and places and the issues, and leaves out white space and comments.

* `Lexeme.Fits.parts`: no name and no numeral runs over the end of a lexeme, so
  that a word is not part of a longer one on its left either.
-/

set_option autoImplicit false

namespace ExprFrontEnd

/-! ### Ends of texts -/

/-- A text does not start with a character of a class. -/
def StartsWithout (p : Char → Bool) (cs : List Char) : Prop := ∀ c ∈ cs.head?, p c = false

/-- A text does not end with a character of a class. -/
def EndsWithout (p : Char → Bool) (cs : List Char) : Prop := ∀ c ∈ cs.getLast?, p c = false

/-- An empty text starts with no character at all. -/
theorem startsWithout_nil (p : Char → Bool) : StartsWithout p [] := nofun

/-- What a text must not start with concerns its first character only. -/
theorem startsWithout_cons {p : Char → Bool} {c : Char} {cs : List Char} :
    StartsWithout p (c :: cs) ↔ p c = false := by
  simp only [StartsWithout, List.head?_cons, Option.mem_some_iff, forall_eq']

/-- What a text must not end with concerns its last character only. -/
theorem endsWithout_concat {p : Char → Bool} {c : Char} {cs : List Char} :
    EndsWithout p (cs ++ [c]) ↔ p c = false := by
  simp only [EndsWithout, List.getLast?_concat, Option.mem_some_iff, forall_eq']

/-- Behind the longest run of characters with a property there is none with it. -/
theorem startsWithout_dropWhile (p : Char → Bool) (cs : List Char) :
    StartsWithout p (cs.dropWhile p) := by
  intro c hc
  have h := List.head?_dropWhile_not p cs
  rwa [Option.mem_def.mp hc] at h

/-- A row of a class that goes on as long as it can is what is taken of it. -/
theorem takeWhile_of_startsWithout {p : Char → Bool} {cs behind : List Char}
    (h : ∀ c ∈ cs, p c = true) (hb : StartsWithout p behind) : (cs ++ behind).takeWhile p = cs := by
  rw [List.takeWhile_append_of_pos h]
  cases behind with
  | nil => rw [List.takeWhile_nil, List.append_nil]
  | cons c behind =>
    rw [List.takeWhile_cons_of_neg (by rw [startsWithout_cons.mp hb]; decide), List.append_nil]

/-- A run of characters with a property is dropped up to where such characters end. -/
theorem dropWhile_of_startsWithout {p : Char → Bool} {cs behind : List Char}
    (h : ∀ c ∈ cs, p c = true) (hb : StartsWithout p behind) :
    (cs ++ behind).dropWhile p = behind := by
  rw [List.dropWhile_append_of_pos h]
  cases behind with
  | nil => rfl
  | cons c behind => rw [List.dropWhile_cons_of_neg (by rw [startsWithout_cons.mp hb]; decide)]

/-! ### Words, numerals and literals -/

/-- A word between two texts: a row of name characters, of which the first one
starts names, and which is no part of a longer row. -/
structure Word (before text behind : List Char) : Prop where
  start : ∃ c ∈ text.head?, isNameStart c = true
  chars : ∀ c ∈ text, isNameChar c = true
  left : EndsWithout isNameChar before
  right : StartsWithout isNameChar behind

/-- The point of a numeral and its fraction, if it has one. -/
def withPoint (fraction : List Char) : List Char :=
  if fraction = [] then [] else '.' :: fraction

/-- A numeral between two texts: digits, a fraction if a point with a digit
behind it follows, and the name characters that run on. -/
structure Numeral (before whole fraction tail behind : List Char) : Prop where
  ne_nil : whole ≠ []
  whole_digits : ∀ c ∈ whole, c.isDigit = true
  fraction_digits : ∀ c ∈ fraction, c.isDigit = true
  tail_chars : ∀ c ∈ tail, isNameChar c = true
  /-- The digits go on as long as they can. -/
  longest : StartsWithout Char.isDigit (tail ++ behind)
  /-- There is a fraction if there can be one. -/
  point : fraction = [] → ∀ c cs, tail ++ behind = '.' :: c :: cs → c.isDigit = false
  left : EndsWithout isNameChar before
  right : StartsWithout isNameChar behind

/-- The characters inside a string literal and the text that they denote. A
backslash and the character behind it go together, so a quote behind a backslash
does not end a literal. -/
inductive Quoted : List Char → List Char → Prop
  | nil : Quoted [] []
  | plain {c : Char} {cs value : List Char} (quote : c ≠ '"') (escape : c ≠ '\\')
      (line : c ≠ '\n') (rest : Quoted cs value) : Quoted (c :: cs) (c :: value)
  | escaped {c : Char} {cs value : List Char} (line : c ≠ '\n') (rest : Quoted cs value) :
      Quoted ('\\' :: c :: cs) (unescape c :: value)

/-- A text starts with a line break or is empty. -/
def EndsLine (cs : List Char) : Prop := StartsWithout (· != '\n') cs

/-! ### Lexemes in their place -/

/-- A lexeme that may stand between two texts. -/
inductive Lexeme.Fits (before behind : List Char) : Lexeme → Prop
  | blank {c : Char} (blank : Text.isBlank c = true) : Fits before behind ⟨[c], .blank⟩
  /-- A comment runs to the end of its line. -/
  | comment {body : List Char} (line : '\n' ∉ body) (right : EndsLine behind) :
      Fits before behind ⟨'/' :: '/' :: body, .comment⟩
  | keyword {text : List Char} {k : Keyword} (word : Word before text behind)
      (spelled : String.ofList text = k.spelling) :
      Fits before behind ⟨text, .token (.keyword k) none⟩
  | identifier {text : List Char} (word : Word before text behind)
      (free : ∀ k : Keyword, String.ofList text ≠ k.spelling) :
      Fits before behind ⟨text, .token (.identifier (String.ofList text)) none⟩
  /-- The value of a numeral is that of its digits. -/
  | number {whole fraction tail text : List Char}
      (numeral : Numeral before whole fraction tail behind)
      (spelled : text = whole ++ withPoint fraction ++ tail) :
      Fits before behind ⟨text, .token (.number (.ofNumeral whole fraction))
        (if tail = [] then none else some (.invalidNumber (String.ofList text)))⟩
  | string {cs value : List Char} (inside : Quoted cs value) :
      Fits before behind ⟨'"' :: cs ++ ['"'], .token (.string (String.ofList value)) none⟩
  /-- A literal that is not closed runs to the end of its line. -/
  | unclosed {cs value : List Char} (inside : Quoted cs value) (right : EndsLine behind) :
      Fits before behind
        ⟨'"' :: cs, .token (.string (String.ofList value)) (some .unterminatedString)⟩
  /-- A backslash at the end of a line stands for itself. -/
  | unclosedEscape {cs value : List Char} (inside : Quoted cs value) (right : EndsLine behind) :
      Fits before behind ⟨'"' :: cs ++ ['\\'],
        .token (.string (String.ofList (value ++ ['\\']))) (some .unterminatedString)⟩
  | pair {s : Symbol} {c d : Char} (spelled : s.chars = [c, d]) :
      Fits before behind ⟨[c, d], .token (.symbol s) none⟩
  /-- A symbol of one character is not the start of one of two characters or of a
  comment. -/
  | single {s : Symbol} {c : Char} (spelled : s.chars = [c])
      (alone : ∀ d ∈ behind.head?, ∀ s' : Symbol, s'.chars ≠ [c, d])
      (slashes : c = '/' → StartsWithout (· == '/') behind) :
      Fits before behind ⟨[c], .token (.symbol s) none⟩
  /-- A character that starts nothing else. -/
  | unknown {c : Char} (blank : Text.isBlank c = false) (quote : c ≠ '"')
      (name : isNameChar c = false) (alone : ∀ s : Symbol, s.chars ≠ [c])
      (pair : ∀ d ∈ behind.head?, ∀ s : Symbol, s.chars ≠ [c, d]) :
      Fits before behind ⟨[c], .token (.unknown c) (some (.unexpectedCharacter c))⟩

/-- The tokens and the issues of a text behind another one. -/
inductive Scans : List Char → List Char → List SourceToken → List Issue → Prop
  | done {before : List Char} : Scans before [] [⟨.eof, "", .empty (byteLength before)⟩] []
  | gap {before behind : List Char} {l : Lexeme} {ts : List SourceToken} {is : List Issue}
      (kind : l.kind = .blank ∨ l.kind = .comment) (fits : l.Fits before behind)
      (rest : Scans (before ++ l.chars) behind ts is) : Scans before (l.chars ++ behind) ts is
  | token {before text behind : List Char} {kind : TokenKind} {flaw : Option Problem} {span : Span}
      {ts : List SourceToken} {is : List Issue}
      (fits : Lexeme.Fits before behind ⟨text, .token kind flaw⟩)
      (place : span = ⟨byteLength before, byteLength (before ++ text)⟩)
      (rest : Scans (before ++ text) behind ts is) :
      Scans before (text ++ behind) (⟨kind, String.ofList text, span⟩ :: ts)
        ((flaw.map (⟨·, span⟩)).toList ++ is)

/-! ### Words and numerals do not run on -/

/-- No name and no numeral runs over the place between two texts. -/
def Parts (before behind : List Char) : Prop :=
  EndsWithout isNameChar before ∨ StartsWithout isNameChar behind

/-- If a character of a name stands behind a boundary, then none does in front of it. -/
theorem Parts.left {before behind : List Char} {c : Char} (h : Parts before (c :: behind))
    (hc : isNameChar c = true) : EndsWithout isNameChar before :=
  h.resolve_right fun hright => by
    rw [startsWithout_cons.mp hright] at hc
    cases hc

/-- Digits can be part of a name. -/
theorem isNameChar_of_isDigit {c : Char} (h : c.isDigit = true) : isNameChar c = true := by
  rw [isNameChar, h, Bool.or_true]

/-- A character that starts a name can be part of one. -/
theorem isNameChar_of_isNameStart {c : Char} (h : isNameStart c = true) : isNameChar c = true := by
  rw [isNameChar, h, Bool.true_or]

/-- The capital letters by their code points. -/
theorem toNat_of_isUpper {c : Char} (h : c.isUpper = true) : 65 ≤ c.toNat ∧ c.toNat ≤ 90 :=
  of_decide_eq_true h

/-- The small letters by their code points. -/
theorem toNat_of_isLower {c : Char} (h : c.isLower = true) : 97 ≤ c.toNat ∧ c.toNat ≤ 122 := by
  obtain ⟨hle, hge⟩ := Bool.and_eq_true_iff.mp h
  exact ⟨of_decide_eq_true hle, of_decide_eq_true hge⟩

/-- Names start with an ASCII letter or an underscore, which lies between the letters. -/
theorem toNat_of_isNameStart {c : Char} (h : isNameStart c = true) :
    65 ≤ c.toNat ∧ c.toNat ≤ 122 := by
  rcases Bool.or_eq_true_iff.mp h with h | h
  · rcases Bool.or_eq_true_iff.mp h with h | h
    · have := toNat_of_isUpper h
      omega
    · have := toNat_of_isLower h
      omega
  · rw [beq_iff_eq.mp h]
    decide

/-- The characters of names are in a range without white space. -/
theorem toNat_of_isNameChar {c : Char} (h : isNameChar c = true) :
    48 ≤ c.toNat ∧ c.toNat ≤ 122 := by
  rcases Bool.or_eq_true_iff.mp h with h | h
  · have := toNat_of_isNameStart h
    omega
  · have : 48 ≤ c.toNat ∧ c.toNat ≤ 57 := Char.isDigit_iff_toNat.mp h
    omega

/-- No digit starts a name. -/
theorem isNameStart_eq_false_of_isDigit {c : Char} (h : c.isDigit = true) :
    isNameStart c = false := by
  rw [Bool.eq_false_iff]
  intro hc
  have := toNat_of_isNameStart hc
  have : 48 ≤ c.toNat ∧ c.toNat ≤ 57 := Char.isDigit_iff_toNat.mp h
  omega

/-- White space is not part of a name. -/
theorem isNameChar_eq_false_of_isBlank {c : Char} (h : Text.isBlank c = true) :
    isNameChar c = false := by
  rw [Bool.eq_false_iff]
  intro hc
  have := toNat_of_isNameChar hc
  simp only [Text.isBlank, Bool.or_eq_true, Bool.and_eq_true, decide_eq_true_eq, beq_iff_eq] at h
  omega

/-- A line ends at the end of the text or at a line feed. -/
theorem EndsLine.eq_nil_or_cons {cs : List Char} (h : EndsLine cs) :
    cs = [] ∨ ∃ rest, cs = '\n' :: rest := by
  cases cs with
  | nil => exact .inl rfl
  | cons c rest =>
    have hc : c = '\n' := by simpa only [bne_eq_false_iff_eq] using startsWithout_cons.mp h
    exact .inr ⟨rest, by rw [hc]⟩

/-- Where a line ends, no name goes on. -/
theorem EndsLine.startsWithout {cs : List Char} (h : EndsLine cs) :
    StartsWithout isNameChar cs := by
  obtain rfl | ⟨rest, rfl⟩ := h.eq_nil_or_cons
  · exact startsWithout_nil _
  · exact startsWithout_cons.mpr (by decide)

/-- A symbol has none of the characters that start something else. -/
theorem Symbol.of_mem_chars {s : Symbol} {c : Char} (h : c ∈ s.chars) :
    Text.isBlank c = false ∧ c ≠ '"' ∧ isNameChar c = false := by
  have hall : (s.chars.all fun c => !Text.isBlank c && c != '"' && !isNameChar c) = true := by
    cases s <;> decide
  simpa only [Bool.and_eq_true, Bool.not_eq_true', bne_iff_ne, and_assoc] using
    List.all_eq_true.mp hall c h

/-- No name and no numeral runs over the end of a lexeme that fits. -/
theorem Lexeme.Fits.parts {before behind : List Char} {l : Lexeme} (h : l.Fits before behind) :
    Parts (before ++ l.chars) behind := by
  -- A lexeme ends with a character that no name has, or what is behind it cannot go on with it.
  cases h with
  | blank blank => exact .inl (endsWithout_concat.mpr (isNameChar_eq_false_of_isBlank blank))
  | comment line right => exact .inr right.startsWithout
  | keyword word spelled => exact .inr word.right
  | identifier word free => exact .inr word.right
  | number numeral spelled => exact .inr numeral.right
  | string inside =>
    refine .inl ?_
    rw [← List.append_assoc]
    exact endsWithout_concat.mpr (by decide)
  | unclosed inside right => exact .inr right.startsWithout
  | unclosedEscape inside right => exact .inr right.startsWithout
  | @pair s c d spelled =>
    refine .inl ?_
    rw [show [c, d] = [c] ++ [d] from rfl, ← List.append_assoc]
    have hd : d ∈ s.chars := by rw [spelled]; simp
    exact endsWithout_concat.mpr (Symbol.of_mem_chars hd).2.2
  | @single s c spelled alone slashes =>
    have hc : c ∈ s.chars := by rw [spelled]; exact List.mem_cons_self
    exact .inl (endsWithout_concat.mpr (Symbol.of_mem_chars hc).2.2)
  | unknown blank quote name alone pair => exact .inl (endsWithout_concat.mpr name)

end ExprFrontEnd
