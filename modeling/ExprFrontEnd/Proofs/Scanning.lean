import ExprFrontEnd.Proofs.LexedTokens
import ExprFrontEnd.Proofs.Lexicon
import Mathlib.Data.List.TakeWhile

/-!
# `ExprFrontEnd.Proofs.Scanning`: the lexer finds the lexemes

Two directions, for every text whatever its characters.

* `Lexeme.fits_first`: the first lexeme that is found fits there. What stands
  in front of it matters only for names and numerals, which may not run on.
* `Lexeme.Fits.exists_first_eq`: a lexeme that fits is the first one that is
  found.
* `scans_lex`, `Scans.eq_lexAt`: so the lexer gives a reading of the text, and
  every reading is what it gives.
* `scans_iff_lex_eq`: the tokens and issues of a source text are those of its
  only reading by the grammar.
-/

set_option autoImplicit false

namespace ExprFrontEnd

namespace Lexeme

/-! ### The branches of the lexer -/

section
variable {c : Char} {rest : List Char}

/-- A blank is a lexeme of its own. -/
theorem first_of_isBlank (h : Text.isBlank c = true) : first c rest = (⟨[c], .blank⟩, rest) := by
  rw [first, if_pos h]

/-- Two slashes open a comment, up to the line break, which is not part of it. -/
theorem first_slash_slash : first '/' ('/' :: rest)
    = (⟨'/' :: '/' :: rest.takeWhile (· != '\n'), .comment⟩, rest.dropWhile (· != '\n')) := by
  rw [first, if_neg (by decide), if_pos ⟨rfl, rfl⟩]
  rfl

/-- A quote opens a string, and the reader of strings says where it ends. -/
theorem first_quote :
    first '"' rest = (ofQuote (Quote.read rest), (Quote.read rest).rest) := by
  rw [first, if_neg (by decide), if_neg (by simp), if_pos rfl]

/-- A name character is none that starts a blank, a comment or a literal. -/
theorem ne_of_isNameChar (h : isNameChar c = true) :
    Text.isBlank c = false ∧ c ≠ '/' ∧ c ≠ '"' := by
  refine ⟨?_, ?_, ?_⟩
  · rw [Bool.eq_false_iff]
    intro hb
    rw [isNameChar_eq_false_of_isBlank hb] at h
    cases h
  · rintro rfl
    cases h
  · rintro rfl
    cases h

/-- A word goes on as long as there are name characters. -/
theorem first_of_isNameStart (h : isNameStart c = true) :
    first c rest = (ofWord (c :: rest.takeWhile isNameChar), rest.dropWhile isNameChar) := by
  obtain ⟨hblank, hslash, hquote⟩ := ne_of_isNameChar (isNameChar_of_isNameStart h)
  rw [first, hblank, if_neg Bool.false_ne_true, if_neg (fun h => hslash h.1), if_neg hquote,
    if_pos h]

/-- A numeral is digits, a fraction if there is a digit behind the point, and whatever name
characters follow. -/
theorem first_of_isDigit (h : c.isDigit = true) :
    first c rest = (ofNumeral (c :: rest.takeWhile Char.isDigit)
        (splitFraction (rest.dropWhile Char.isDigit)).1
        ((splitFraction (rest.dropWhile Char.isDigit)).2.takeWhile isNameChar),
      (splitFraction (rest.dropWhile Char.isDigit)).2.dropWhile isNameChar) := by
  obtain ⟨hblank, hslash, hquote⟩ := ne_of_isNameChar (isNameChar_of_isDigit h)
  rw [first, hblank, isNameStart_eq_false_of_isDigit h, if_neg Bool.false_ne_true,
    if_neg (fun h => hslash h.1), if_neg hquote, if_neg Bool.false_ne_true, if_pos h]

/-- What is left are symbols and characters that start nothing. -/
theorem first_of_isNameChar_eq_false (hblank : Text.isBlank c = false) (hquote : c ≠ '"')
    (hname : isNameChar c = false) (hslash : c = '/' → StartsWithout (· == '/') rest) :
    first c rest
      = (symbolAt? c rest).elim
          (⟨[c], .token (.unknown c) (some (.unexpectedCharacter c))⟩, rest)
          fun p => (⟨p.1.chars, .token (.symbol p.1) none⟩, p.2) := by
  obtain ⟨hstart, hdigit⟩ := Bool.or_eq_false_iff.mp hname
  have hcomment : ¬(c = '/' ∧ rest.head? = some '/') := by
    rintro ⟨hc, hrest⟩
    cases hslash hc '/' hrest
  rw [first, hblank, hstart, hdigit, if_neg Bool.false_ne_true, if_neg hcomment, if_neg hquote,
    if_neg Bool.false_ne_true, if_neg Bool.false_ne_true]
  cases symbolAt? c rest <;> rfl

end

end Lexeme

/-! ### Literals -/

namespace Quote

/-- A plain character stands for itself. -/
theorem read_plain {c : Char} (quote : c ≠ '"') (escape : c ≠ '\\') (line : c ≠ '\n')
    (rest : List Char) : read (c :: rest) = (read rest).prepend c [c] := by
  rw [read]
  · exact quote
  · exact line
  · exact fun _ h _ => escape h
  · exact fun _ _ h _ => escape h

/-- A backslash and the character behind it stand for one character, and no line feed is
escaped. -/
theorem read_escaped {c : Char} (line : c ≠ '\n') (rest : List Char) :
    read ('\\' :: c :: rest) = (read rest).prepend (unescape c) ['\\', c] := by
  rw [read]
  exact fun h => line h

/-- At the end of a line a literal ends without a quote. -/
theorem read_of_endsLine {cs : List Char} (h : EndsLine cs) : read cs = ⟨[], [], false, cs⟩ := by
  obtain rfl | ⟨rest, rfl⟩ := h.eq_nil_or_cons <;> rfl

/-- There a backslash stands for itself. -/
theorem read_escape_of_endsLine {cs : List Char} (h : EndsLine cs) :
    read ('\\' :: cs) = ⟨['\\'], ['\\'], false, cs⟩ := by
  obtain rfl | ⟨rest, rfl⟩ := h.eq_nil_or_cons <;> rfl

end Quote

/-- Behind characters that belong together a literal is read on. -/
theorem Quoted.read_append {cs value : List Char} (h : Quoted cs value) (behind : List Char) :
    Quote.read (cs ++ behind) = ⟨value ++ (Quote.read behind).value,
      cs ++ (Quote.read behind).chars, (Quote.read behind).closed, (Quote.read behind).rest⟩ := by
  induction h with
  | nil => rfl
  | plain quote escape line rest ih =>
    rw [List.cons_append, Quote.read_plain quote escape line, ih]
    rfl
  | escaped line rest ih =>
    rw [List.cons_append, List.cons_append, Quote.read_escaped line, ih]
    rfl

/-- Quoted parts can be put behind one another. -/
theorem Quoted.append {cs cs' value value' : List Char} (h : Quoted cs value)
    (h' : Quoted cs' value') : Quoted (cs ++ cs') (value ++ value') := by
  induction h with
  | nil => exact h'
  | plain quote escape line rest ih => exact .plain quote escape line ih
  | escaped line rest ih => exact .escaped line ih

namespace Lexeme

/-- What is read of a literal fits, whatever has been read of it before. -/
theorem fits_ofQuote (before cs : List Char) {inside value : List Char}
    (h : Quoted inside value) :
    (ofQuote ⟨value ++ (Quote.read cs).value, inside ++ (Quote.read cs).chars,
      (Quote.read cs).closed, (Quote.read cs).rest⟩).Fits before (Quote.read cs).rest := by
  fun_induction Quote.read cs generalizing inside value with
  | case1 =>
    rw [List.append_nil, List.append_nil]
    exact .unclosed h (startsWithout_nil _)
  | case2 rest =>
    rw [List.append_nil]
    exact .string h
  | case3 rest =>
    rw [List.append_nil, List.append_nil]
    exact .unclosed h (startsWithout_cons.mpr (by decide))
  | case4 rest => exact .unclosedEscape h (startsWithout_cons.mpr (by decide))
  | case5 c rest line ih =>
    have hfits := ih (h.append (.escaped line .nil))
    rw [List.append_assoc, List.append_assoc] at hfits
    exact hfits
  | case6 c rest quote line _ hpair ih =>
    by_cases escape : c = '\\'
    · -- Only the last character of a text is a backslash with nothing behind it.
      subst escape
      cases rest with
      | nil => exact .unclosedEscape h (startsWithout_nil _)
      | cons d rest => exact absurd rfl (hpair d rest rfl)
    · have hfits := ih (h.append (.plain quote escape line .nil))
      rw [List.append_assoc, List.append_assoc] at hfits
      exact hfits

/-! ### Numerals -/

/-- A numeral with a tail is a token all the same, with an issue. -/
theorem ofNumeral_eq (whole fraction tail : List Char) :
    ofNumeral whole fraction tail
      = ⟨whole ++ withPoint fraction ++ tail, .token (.number (.ofNumeral whole fraction))
          (if tail = [] then none
            else some (.invalidNumber (String.ofList (whole ++ withPoint fraction ++ tail))))⟩ := by
  cases fraction <;> cases tail <;> simp [ofNumeral, withPoint]

/-- A point with no digit behind it is left alone. -/
theorem splitFraction_of_no_digit {cs : List Char}
    (h : ∀ c rest, cs = '.' :: c :: rest → c.isDigit = false) : splitFraction cs = ([], cs) := by
  unfold splitFraction
  split
  · rename_i rest
    have hdigits : rest.takeWhile Char.isDigit = [] := by
      cases rest with
      | nil => rfl
      | cons c rest => exact List.takeWhile_cons_of_neg (by rw [h c rest rfl]; decide)
    rw [hdigits]
    rfl
  · rfl

/-- The digits behind a point are split off. -/
theorem splitFraction_of_digits {c : Char} (rest : List Char) (h : c.isDigit = true) :
    splitFraction ('.' :: c :: rest)
      = (c :: rest.takeWhile Char.isDigit, rest.dropWhile Char.isDigit) := by
  simp only [splitFraction, List.takeWhile_cons_of_pos h, List.dropWhile_cons_of_pos h,
    List.isEmpty_cons, Bool.false_eq_true, ↓reduceIte]

/-- A fraction that goes on as long as it can is what is split off. -/
theorem splitFraction_withPoint {fraction behind : List Char}
    (hdigits : ∀ c ∈ fraction, c.isDigit = true) (hlongest : StartsWithout Char.isDigit behind)
    (hpoint : fraction = [] → ∀ c rest, behind = '.' :: c :: rest → c.isDigit = false) :
    splitFraction (withPoint fraction ++ behind) = (fraction, behind) := by
  cases fraction with
  | nil => exact splitFraction_of_no_digit (hpoint rfl)
  | cons c fraction =>
    obtain ⟨hc, hdigits⟩ := List.forall_mem_cons.mp hdigits
    rw [withPoint, if_neg (List.cons_ne_nil _ _), List.cons_append, List.cons_append,
      splitFraction_of_digits _ hc, takeWhile_of_startsWithout hdigits hlongest,
      dropWhile_of_startsWithout hdigits hlongest]

/-- What is split off goes on as long as it can. -/
theorem splitFraction_longest {cs : List Char} (h : StartsWithout Char.isDigit cs) :
    ∃ fraction behind, splitFraction cs = (fraction, behind) ∧
      withPoint fraction ++ behind = cs ∧ (∀ c ∈ fraction, c.isDigit = true) ∧
      StartsWithout Char.isDigit behind ∧
      (fraction = [] → ∀ c rest, behind = '.' :: c :: rest → c.isDigit = false) := by
  -- There is a fraction just in case a digit stands behind the point.
  by_cases hpoint : ∃ c rest, cs = '.' :: c :: rest ∧ c.isDigit = true
  · obtain ⟨c, rest, rfl, hc⟩ := hpoint
    refine ⟨_, _, splitFraction_of_digits rest hc, ?_, ?_, startsWithout_dropWhile _ rest, nofun⟩
    · rw [withPoint, if_neg (List.cons_ne_nil _ _), List.cons_append, List.cons_append,
        List.takeWhile_append_dropWhile]
    · exact List.forall_mem_cons.mpr ⟨hc, fun _ hd => List.mem_takeWhile_imp hd⟩
  · have hpoint : ∀ c rest, cs = '.' :: c :: rest → c.isDigit = false := by
      intro c rest hcs
      rw [Bool.eq_false_iff]
      exact fun hc => hpoint ⟨c, rest, hcs, hc⟩
    exact ⟨[], cs, splitFraction_of_no_digit hpoint, rfl, nofun, h, fun _ => hpoint⟩

/-- A point ends a run of digits. -/
theorem startsWithout_withPoint {fraction behind : List Char}
    (h : StartsWithout Char.isDigit behind) :
    StartsWithout Char.isDigit (withPoint fraction ++ behind) := by
  cases fraction with
  | nil => exact h
  | cons c fraction => exact startsWithout_cons.mpr (by decide)

end Lexeme

/-- The parts of a numeral are what the reader of the first lexeme cuts off. -/
theorem Numeral.exists_first_eq {before whole fraction tail behind : List Char}
    (h : Numeral before whole fraction tail behind) :
    ∃ c rest, whole ++ withPoint fraction ++ tail ++ behind = c :: rest ∧
      Lexeme.first c rest = (.ofNumeral whole fraction tail, behind) := by
  obtain ⟨c, digits, rfl⟩ := List.exists_cons_of_ne_nil h.ne_nil
  obtain ⟨hc, hdigits⟩ := List.forall_mem_cons.mp h.whole_digits
  refine ⟨c, digits ++ (withPoint fraction ++ (tail ++ behind)), ?_, ?_⟩
  · simp only [List.append_assoc, List.cons_append]
  -- Each part stops where the next one starts, so the reader cuts where the grammar does.
  · have hstop : StartsWithout Char.isDigit (withPoint fraction ++ (tail ++ behind)) :=
      Lexeme.startsWithout_withPoint h.longest
    rw [Lexeme.first_of_isDigit hc, takeWhile_of_startsWithout hdigits hstop,
      dropWhile_of_startsWithout hdigits hstop,
      Lexeme.splitFraction_withPoint h.fraction_digits h.longest h.point,
      takeWhile_of_startsWithout h.tail_chars h.right,
      dropWhile_of_startsWithout h.tail_chars h.right]

/-! ### Words -/

namespace Lexeme

/-- A word that is spelled like a reserved word is that word. -/
theorem ofWord_of_spelling {text : List Char} {k : Keyword}
    (h : String.ofList text = k.spelling) : ofWord text = ⟨text, .token (.keyword k) none⟩ := by
  simp only [ofWord, Keyword.ofSpelling?_eq_some_iff.mpr h]

/-- Any other word is a name. -/
theorem ofWord_of_ne_spelling {text : List Char}
    (h : ∀ k : Keyword, String.ofList text ≠ k.spelling) :
    ofWord text = ⟨text, .token (.identifier (String.ofList text)) none⟩ := by
  have hnone : Keyword.ofSpelling? (String.ofList text) = none := by
    rw [Option.eq_none_iff_forall_ne_some]
    exact fun k hk => h k (Keyword.ofSpelling?_eq_some_iff.mp hk)
  simp only [ofWord, hnone]

/-- Both kinds of words fit where the word fits. -/
theorem fits_ofWord {before text behind : List Char} (h : Word before text behind) :
    (ofWord text).Fits before behind := by
  by_cases hk : ∃ k : Keyword, String.ofList text = k.spelling
  · obtain ⟨k, hk⟩ := hk
    rw [ofWord_of_spelling hk]
    exact .keyword h hk
  · have hk := not_exists.mp hk
    rw [ofWord_of_ne_spelling hk]
    exact .identifier h hk

end Lexeme

/-- A word is what the reader of the first lexeme cuts off. -/
theorem Word.exists_first_eq {before text behind : List Char} (h : Word before text behind) :
    ∃ c rest, text ++ behind = c :: rest ∧
      Lexeme.first c rest = (.ofWord text, behind) := by
  obtain ⟨c, hc, hstart⟩ := h.start
  obtain ⟨cs, rfl⟩ := List.head?_eq_some_iff.mp hc
  have hchars := (List.forall_mem_cons.mp h.chars).2
  refine ⟨c, cs ++ behind, rfl, ?_⟩
  rw [Lexeme.first_of_isNameStart hstart, takeWhile_of_startsWithout hchars h.right,
    dropWhile_of_startsWithout hchars h.right]

/-! ### Symbols -/

namespace Lexeme

/-- Two characters that make up a symbol are read as one, whatever is behind them. -/
theorem symbolAt?_of_pair {s : Symbol} {c d : Char} (h : s.chars = [c, d]) (behind : List Char) :
    symbolAt? c (d :: behind) = some (s, behind) := by
  simp only [symbolAt?, Symbol.pair?_eq_some_iff.mpr h]

/-- If the next character does not go on with a symbol, the first one stands alone. -/
theorem symbolAt?_of_no_pair {c : Char} {behind : List Char}
    (h : ∀ d ∈ behind.head?, ∀ s : Symbol, s.chars ≠ [c, d]) :
    symbolAt? c behind = (Symbol.single? c).map (·, behind) := by
  cases behind with
  | nil => rfl
  | cons d behind =>
    have hnone : Symbol.pair? c d = none := by
      rw [Option.eq_none_iff_forall_ne_some]
      exact fun s hs => h d rfl s (Symbol.pair?_eq_some_iff.mp hs)
    simp only [symbolAt?, hnone]

end Lexeme

/-- No symbol of two characters starts a comment. -/
theorem Symbol.ne_slash_of_pair {s : Symbol} {c d : Char} (h : s.chars = [c, d]) : c ≠ '/' := by
  revert h
  cases s <;> simp only [Symbol.chars, List.cons.injEq, reduceCtorEq, and_false, false_implies]
  all_goals
    rintro ⟨rfl, -⟩
    decide

/-! ### Both directions -/

namespace Lexeme

/-- **A lexeme that fits is found.** -/
theorem Fits.exists_first_eq {before behind : List Char} {l : Lexeme} (h : l.Fits before behind) :
    ∃ c rest, l.chars ++ behind = c :: rest ∧ first c rest = (l, behind) := by
  cases h with
  | @blank c blank => exact ⟨c, behind, rfl, first_of_isBlank blank⟩
  | @comment body line right =>
    refine ⟨'/', '/' :: (body ++ behind), rfl, ?_⟩
    have hbody : ∀ c ∈ body, (c != '\n') = true := by
      intro c hc
      rw [bne_iff_ne]
      rintro rfl
      exact line hc
    rw [first_slash_slash, takeWhile_of_startsWithout hbody right,
      dropWhile_of_startsWithout hbody right]
  | keyword word spelled =>
    rw [← ofWord_of_spelling spelled]
    exact word.exists_first_eq
  | identifier word free =>
    rw [← ofWord_of_ne_spelling free]
    exact word.exists_first_eq
  | number numeral spelled =>
    obtain ⟨c, rest, htext, hfirst⟩ := numeral.exists_first_eq
    rw [ofNumeral_eq, ← spelled] at hfirst
    exact ⟨c, rest, spelled ▸ htext, hfirst⟩
  | @string cs value inside =>
    refine ⟨'"', cs ++ '"' :: behind, by simp, ?_⟩
    rw [first_quote, inside.read_append, Quote.read, List.append_nil]
    rfl
  | @unclosed cs value inside right =>
    refine ⟨'"', cs ++ behind, rfl, ?_⟩
    rw [first_quote, inside.read_append, Quote.read_of_endsLine right, List.append_nil,
      List.append_nil]
    rfl
  | @unclosedEscape cs value inside right =>
    refine ⟨'"', cs ++ '\\' :: behind, by simp, ?_⟩
    rw [first_quote, inside.read_append, Quote.read_escape_of_endsLine right]
    rfl
  -- No symbol of two characters starts with a slash, so a comment is not what is read.
  | @pair s c d spelled =>
    have hc : c ∈ s.chars := by rw [spelled]; exact List.mem_cons_self
    obtain ⟨hblank, hquote, hname⟩ := Symbol.of_mem_chars hc
    refine ⟨c, d :: behind, rfl, ?_⟩
    rw [first_of_isNameChar_eq_false hblank hquote hname
      fun h => absurd h (Symbol.ne_slash_of_pair spelled)]
    rw [symbolAt?_of_pair spelled, Option.elim_some, spelled]
  | @single s c spelled alone slashes =>
    have hc : c ∈ s.chars := by rw [spelled]; exact List.mem_cons_self
    obtain ⟨hblank, hquote, hname⟩ := Symbol.of_mem_chars hc
    refine ⟨c, behind, rfl, ?_⟩
    rw [first_of_isNameChar_eq_false hblank hquote hname slashes]
    rw [symbolAt?_of_no_pair alone, Symbol.single?_eq_some_iff.mpr spelled, Option.map_some,
      Option.elim_some, spelled]
  | @unknown c blank quote name alone pair =>
    -- The slash is a symbol, so this is another character.
    have hslash : c ≠ '/' := by
      rintro rfl
      exact alone .slash rfl
    have hnone : Symbol.single? c = none := by
      rw [Option.eq_none_iff_forall_ne_some]
      exact fun s hs => alone s (Symbol.single?_eq_some_iff.mp hs)
    refine ⟨c, behind, rfl, ?_⟩
    rw [first_of_isNameChar_eq_false blank quote name fun h => absurd h hslash]
    rw [symbolAt?_of_no_pair pair, hnone]
    rfl

/-- A digit starts a numeral. -/
theorem fits_first_of_isDigit {before rest : List Char} {c : Char} (hc : c.isDigit = true)
    (hleft : EndsWithout isNameChar before) :
    (first c rest).1.Fits before (first c rest).2 := by
  obtain ⟨fraction, behind, hsplit, -, hfraction, hlongest, hpoint⟩ :=
    splitFraction_longest (startsWithout_dropWhile Char.isDigit rest)
  rw [first_of_isDigit hc, hsplit]
  dsimp only
  rw [ofNumeral_eq]
  refine .number ⟨List.cons_ne_nil _ _, ?_, hfraction, fun _ hd => List.mem_takeWhile_imp hd, ?_,
    ?_, hleft, startsWithout_dropWhile _ behind⟩ rfl
  · exact List.forall_mem_cons.mpr ⟨hc, fun _ hd => List.mem_takeWhile_imp hd⟩
  · rwa [List.takeWhile_append_dropWhile]
  · rwa [List.takeWhile_append_dropWhile]

/-- A character that starts no gap, no literal and no word is a symbol, with the
character behind it or alone, or it is unknown. -/
theorem fits_first_of_isNameChar_eq_false {before rest : List Char} {c : Char}
    (hblank : Text.isBlank c = false) (hquote : c ≠ '"') (hname : isNameChar c = false)
    (hslash : c = '/' → StartsWithout (· == '/') rest) :
    (first c rest).1.Fits before (first c rest).2 := by
  rw [first_of_isNameChar_eq_false hblank hquote hname hslash]
  -- Two characters are tried before one.
  by_cases hpair : ∃ d ∈ rest.head?, ∃ s : Symbol, s.chars = [c, d]
  · obtain ⟨d, hd, s, hs⟩ := hpair
    obtain ⟨behind, rfl⟩ := List.head?_eq_some_iff.mp hd
    rw [symbolAt?_of_pair hs, Option.elim_some, hs]
    exact .pair hs
  · have hpair : ∀ d ∈ rest.head?, ∀ s : Symbol, s.chars ≠ [c, d] :=
      fun d hd s hs => hpair ⟨d, hd, s, hs⟩
    rw [symbolAt?_of_no_pair hpair]
    cases hsingle : Symbol.single? c with
    | some s =>
      have hs := Symbol.single?_eq_some_iff.mp hsingle
      rw [Option.map_some, Option.elim_some, hs]
      exact .single hs hpair hslash
    | none =>
      refine .unknown hblank hquote hname (fun s hs => ?_) hpair
      rw [Symbol.single?_eq_some_iff.mpr hs] at hsingle
      cases hsingle

/-- **What is found fits**, if no name and no numeral runs on into it. -/
theorem fits_first {before rest : List Char} {c : Char} (h : Parts before (c :: rest)) :
    (first c rest).1.Fits before (first c rest).2 := by
  -- One case for each test of the lexer, in its order: what is left at the end is a symbol or
  -- nothing that is known.
  by_cases hblank : Text.isBlank c = true
  · rw [first_of_isBlank hblank]
    exact .blank hblank
  by_cases hcomment : c = '/' ∧ rest.head? = some '/'
  · obtain ⟨rfl, hrest⟩ := hcomment
    obtain ⟨rest, rfl⟩ := List.head?_eq_some_iff.mp hrest
    rw [first_slash_slash]
    refine .comment (fun hline => ?_) (startsWithout_dropWhile _ rest)
    simpa using List.mem_takeWhile_imp hline
  by_cases hquote : c = '"'
  · rw [hquote, first_quote]
    exact fits_ofQuote before rest .nil
  by_cases hname : isNameChar c = true
  · have hleft := h.left hname
    by_cases hdigit : c.isDigit = true
    · exact fits_first_of_isDigit hdigit hleft
    · have hstart : isNameStart c = true := (Bool.or_eq_true_iff.mp hname).resolve_right hdigit
      rw [first_of_isNameStart hstart]
      refine fits_ofWord ⟨⟨c, rfl, hstart⟩, ?_, hleft, startsWithout_dropWhile _ rest⟩
      exact List.forall_mem_cons.mpr ⟨hname, fun _ hd => List.mem_takeWhile_imp hd⟩
  · refine fits_first_of_isNameChar_eq_false (Bool.eq_false_iff.mpr hblank) hquote
      (Bool.eq_false_iff.mpr hname) fun hc d hd => ?_
    rw [beq_eq_false_iff_ne]
    rintro rfl
    exact hcomment ⟨hc, hd⟩

end Lexeme

/-! ### The whole text -/

/-- The tokens and issues of a text that starts at an offset. -/
def lexAt (offset : Nat) (cs : List Char) : Lexed :=
  let placed := place offset (lexemes cs)
  ⟨placed.filterMap (fun p => SourceToken.ofLexeme? p.1 p.2)
      ++ [⟨.eof, "", .empty (offset + byteLength cs)⟩],
    placed.filterMap fun p => Issue.ofLexeme? p.1 p.2⟩

/-- Offsets are counted in bytes, as a source counts its length. -/
theorem byteLength_toList (source : String) : byteLength source.toList = source.utf8ByteSize := by
  rw [byteLength_eq_utf8ByteSize_ofList, String.ofList_toList]

/-- Lexing a source starts at the offset zero. -/
theorem lexAt_zero (source : String) : lexAt 0 source.toList = lex source := by
  rw [lexAt, lex, Nat.zero_add, byteLength_toList]

/-- The first lexeme comes first, and behind it those of the text behind it. -/
theorem lexAt_of_first {c : Char} {rest behind : List Char} {l : Lexeme} (offset : Nat)
    (h : Lexeme.first c rest = (l, behind)) :
    lexAt offset (c :: rest)
      = ⟨(SourceToken.ofLexeme? l ⟨offset, offset + l.width⟩).toList
          ++ (lexAt (offset + l.width) behind).sourceTokens,
        (Issue.ofLexeme? l ⟨offset, offset + l.width⟩).toList
          ++ (lexAt (offset + l.width) behind).issues⟩ := by
  have htext : l.chars ++ behind = c :: rest := by
    have := Lexeme.chars_append_first c rest
    rwa [h] at this
  have hend : offset + byteLength (c :: rest) = offset + l.width + byteLength behind := by
    rw [← htext, byteLength_append, Lexeme.width, Nat.add_assoc]
  simp only [lexAt, lexemes_cons, h, place, hend, List.filterMap_eq_flatMap_toList,
    List.flatMap_cons, List.append_assoc]

/-- Any lexeme that fits may be put in front. -/
theorem Scans.cons {before behind : List Char} {l : Lexeme} {ts : List SourceToken}
    {is : List Issue} (fits : l.Fits before behind)
    (rest : Scans (before ++ l.chars) behind ts is) :
    let span : Span := ⟨byteLength before, byteLength before + l.width⟩
    Scans before (l.chars ++ behind) ((SourceToken.ofLexeme? l span).toList ++ ts)
      ((Issue.ofLexeme? l span).toList ++ is) := by
  obtain ⟨text, kind⟩ := l
  cases kind with
  | blank => exact .gap (.inl rfl) fits rest
  | comment => exact .gap (.inr rfl) fits rest
  | token kind flaw => exact .token fits (by rw [byteLength_append]; rfl) rest

/-- What the lexer gives for a text is a reading of it. -/
theorem scans_lexAt {before cs : List Char} (h : Parts before cs) :
    Scans before cs (lexAt (byteLength before) cs).sourceTokens
      (lexAt (byteLength before) cs).issues := by
  match cs with
  | [] => exact .done
  | c :: rest =>
    have hfits := Lexeme.fits_first h
    have hrest := scans_lexAt hfits.parts
    rw [byteLength_append] at hrest
    rw [lexAt_of_first _ rfl, ← Lexeme.chars_append_first c rest]
    exact .cons hfits hrest
termination_by cs.length
decreasing_by exact Nat.lt_succ_of_le (Lexeme.length_rest_first_le c rest)

/-- Every reading of a text is what the lexer gives for it. -/
theorem Scans.eq_lexAt {before cs : List Char} {ts : List SourceToken} {is : List Issue}
    (h : Scans before cs ts is) : lexAt (byteLength before) cs = ⟨ts, is⟩ := by
  induction h with
  | done => rfl
  | @gap before behind l ts is kind fits rest ih =>
    obtain ⟨c, cs, htext, hfirst⟩ := fits.exists_first_eq
    rw [byteLength_append] at ih
    rw [htext, lexAt_of_first _ hfirst, Lexeme.width, ih]
    rcases kind with kind | kind <;> simp only [SourceToken.ofLexeme?, Issue.ofLexeme?, kind] <;>
      rfl
  | @token before text behind kind flaw span ts is fits place rest ih =>
    obtain ⟨c, cs, htext, hfirst⟩ := fits.exists_first_eq
    rw [byteLength_append] at ih
    rw [htext, lexAt_of_first _ hfirst, Lexeme.width, ih, place, byteLength_append]
    rfl

/-- What the lexer gives for a text is a reading of it by the grammar of lexemes. -/
theorem scans_lex (source : String) :
    Scans [] source.toList (lex source).sourceTokens (lex source).issues := by
  rw [← lexAt_zero]
  exact scans_lexAt (.inl nofun)

/-- **The tokens and the issues of a source text are those of its only reading**
by the grammar: each piece is as long as it can be and of the kind that it looks
like, and the issues are the problems of the malformed ones, in their order and
at their places. -/
theorem scans_iff_lex_eq (source : String) (ts : List SourceToken) (is : List Issue) :
    Scans [] source.toList ts is ↔ lex source = ⟨ts, is⟩ := by
  constructor
  · intro h
    rw [← lexAt_zero]
    exact h.eq_lexAt
  · intro h
    have hscans := scans_lex source
    rwa [h] at hscans

/-- A numeral takes the name that runs on, and a point needs a digit behind it. -/
example : (lex "12abc.5 1.x 1.5x").sourceTokens.map SourceToken.text
    = ["12abc", ".", "5", "1", ".", "x", "1.5x", ""] := by
  decide +kernel

end ExprFrontEnd
