import ExprFrontEnd.Proofs.Within
import ExprFrontEnd.Source

/-!
# `ExprFrontEnd.Proofs.OneLine`: messages stay on one line

A message shows what was found: a name, a character, a numeral as it is spelled, a
number, or the text that a string literal denotes. Only the last of these can hold a
line feed, and a quoted text has an escape for it.

* `TokenKind.onOneLine_describe`: so whatever a token is, its description stays on
  one line if its name or its character does.
* `Scans.onOneLine`: names and characters in a source text do, and so do the issues
  of the lexer.
* `Chain.onOneLine_issues`, `Clause.onOneLine_read`, `Attempt.onOneLine_readAll`: a
  reader shows nothing but tokens that were ahead of it.
* `plain_diagnostics`: the diagnostics of every source text stay on one line,
  with their codes and their labels.
-/

set_option autoImplicit false

namespace ExprFrontEnd

/-- A text without a line feed. -/
def OnOneLine (text : String) : Prop := '\n' ∉ text.toList

instance (text : String) : Decidable (OnOneLine text) :=
  inferInstanceAs (Decidable ('\n' ∉ text.toList))

/-- Messages are put together from texts that each stay on one line. -/
theorem OnOneLine.append {a b : String} (ha : OnOneLine a) (hb : OnOneLine b) :
    OnOneLine (a ++ b) := by
  rw [OnOneLine, String.toList_append]
  intro h
  rcases List.mem_append.mp h with h | h
  · exact ha h
  · exact hb h

/-- For characters the property is about their list. -/
theorem onOneLine_ofList {cs : List Char} : OnOneLine (String.ofList cs) ↔ '\n' ∉ cs := by
  rw [OnOneLine, String.toList_ofList]

/-- Names and numerals are made of other characters. -/
theorem newline_notMem_of_isNameChar {cs : List Char} (h : ∀ c ∈ cs, isNameChar c = true) :
    '\n' ∉ cs := fun hmem => absurd (h _ hmem) (by decide)

/-! ### Numbers -/

/-- The digits of a base up to sixteen are no line feeds. -/
theorem newline_notMem_toDigits {base : Nat} (hlow : 1 < base) (hhigh : base ≤ 16) (n : Nat) :
    '\n' ∉ Nat.toDigits base n := by
  have hdigit : ∀ d : Fin 16, '\n' ∉ [Nat.digitChar d.val] := by decide
  induction n using Nat.strongRecOn with
  | _ n ih =>
    rw [Nat.toDigits_eq_if hlow]
    split
    · rename_i hn
      exact hdigit ⟨n, by omega⟩
    · intro h
      have hmod := Nat.mod_lt n (show 0 < base by omega)
      rcases List.mem_append.mp h with h | h
      · exact ih (n / base) (Nat.div_lt_self (by omega) hlow) h
      · exact hdigit ⟨n % base, by omega⟩ h

/-- Numbers in messages are digits only. -/
theorem onOneLine_toString (n : Nat) : OnOneLine (toString n) := by
  rw [OnOneLine, Nat.toString_eq_ofList_toDigits, String.toList_ofList]
  exact newline_notMem_toDigits (by decide) (by decide) n

/-- The layout of a number is its sign, digits, a point and an exponent. -/
theorem Layout.newline_notMem_setPositional (l : Layout) (d : Decimal) :
    '\n' ∉ l.setPositional d := by
  have hdigits : '\n' ∉ d.digitChars := newline_notMem_toDigits (by decide) (by decide) d.digits
  have hzeros : ∀ n : Nat, '\n' ∉ List.replicate n '0' := fun n h =>
    absurd (List.eq_of_mem_replicate h) (by decide)
  have hpoint : '\n' ∉ if l.pointZero then ['.', '0'] else [] := by
    split <;> decide
  unfold setPositional
  dsimp only
  split
  -- The point is behind all digits, among them or in front of them.
  · simp only [List.mem_append, not_or]
    exact ⟨⟨hdigits, hzeros _⟩, hpoint⟩
  · split
    · simp only [List.mem_append, List.mem_cons, not_or]
      exact ⟨fun h => hdigits (List.mem_of_mem_take h), by decide,
        fun h => hdigits (List.mem_of_mem_drop h)⟩
    · simp only [List.mem_append, not_or]
      exact ⟨⟨by decide, hzeros _⟩, hdigits⟩

/-- A number inside of a message is set positionally. -/
theorem onOneLine_render (x : Binary64) : OnOneLine (x.render .message) := by
  have hsign : '\n' ∉ if x.isNegative then ['-'] else [] := by
    split <;> decide
  have hbody : '\n' ∉ if x.isInfinite then ['i', 'n', 'f']
      else Layout.message.set (x.shortest Layout.message.tie) := by
    split
    · decide
    · exact Layout.newline_notMem_setPositional .message _
  rw [Binary64.render, onOneLine_ofList, List.mem_append, not_or]
  exact ⟨hsign, hbody⟩

/-! ### Descriptions -/

/-- An escaped character stays on one line, the line feed above all. -/
theorem Text.newline_notMem_escaped (c : Char) : '\n' ∉ escaped c := by
  have hhex : '\n' ∉ hexDigits c.toNat := newline_notMem_toDigits (by decide) (by decide) _
  unfold escaped
  split
  case h_7 hline _ _ _ =>
    split
    · simp only [List.mem_append, not_or]
      exact ⟨⟨by decide, hhex⟩, by decide⟩
    · exact fun h => hline (List.mem_singleton.mp h).symm
  all_goals decide

/-- A quoted text stays on one line whatever it quotes: a line feed in it is escaped. -/
theorem Text.onOneLine_quoted (s : String) : OnOneLine (quoted s) := by
  rw [quoted, onOneLine_ofList]
  simp only [List.mem_append, List.mem_cons, List.mem_flatMap, not_or, not_exists, not_and]
  exact ⟨⟨by decide, fun c _ => newline_notMem_escaped c⟩, by decide⟩

namespace TokenKind

/-- What a description shows as it is, apart from fixed words: a name or a
character. -/
def bareText : TokenKind → String
  | identifier name => name
  | unknown char => char.toString
  | _ => ""

/-- The name or the character of a token is all that could break its description. -/
theorem onOneLine_describe {k : TokenKind} (h : OnOneLine k.bareText) :
    OnOneLine k.describe := by
  cases k with
  | number value => exact ((show OnOneLine "number `" by decide).append
      (onOneLine_render value)).append (by decide)
  | string value => exact (show OnOneLine "string " by decide).append (Text.onOneLine_quoted value)
  | identifier name => exact ((show OnOneLine "identifier `" by decide).append h).append (by decide)
  | keyword word => cases word <;> decide
  | symbol s => cases s <;> decide
  | unknown char => exact ((show OnOneLine "`" by decide).append h).append (by decide)
  | eof => decide

/-- The end of the input is described by a fixed text. -/
theorem onOneLine_describe_eof : OnOneLine eof.describe := by decide

end TokenKind

/-! ### Messages -/

/-- What a message shows of the source text. -/
def Problem.shown : Problem → String
  | unexpectedCharacter char => char.toString
  | invalidNumber text => text
  | unterminatedString | memberExpected _ => ""
  | operandExpected found | operatorExpected found | nameExpected _ found | equalsExpected found
  | statementExpected found | delimiterExpected found => found.describe

/-- Apart from what is shown of the source, messages are fixed texts. -/
theorem Problem.onOneLine_message {p : Problem} (h : OnOneLine p.shown) :
    OnOneLine p.message := by
  have hframe : ∀ before behind : String, OnOneLine before → OnOneLine behind →
      OnOneLine (before ++ p.shown ++ behind) :=
    fun _ _ hbefore hbehind => (hbefore.append h).append hbehind
  have hfront : ∀ before : String, OnOneLine before → OnOneLine (before ++ p.shown) :=
    fun _ hbefore => hbefore.append h
  cases p with
  | unexpectedCharacter | invalidNumber | operandExpected | operatorExpected | statementExpected =>
    exact hframe _ _ (by decide) (by decide)
  | nameExpected place => cases place <;> exact hfront _ (by decide)
  | equalsExpected | delimiterExpected => exact hfront _ (by decide)
  | memberExpected optional => cases optional <;> decide
  | unterminatedString => decide

/-- Codes are fixed texts. -/
theorem Problem.onOneLine_code (p : Problem) : OnOneLine p.code := by
  cases p <;> simp only [code] <;> decide

/-- An issue that shows nothing of the source but what stays on one line. -/
def Issue.OneLine (i : Issue) : Prop := OnOneLine i.problem.shown

/-- Labels are fixed texts as well. -/
theorem Issue.onOneLine_labels (i : Issue) : ∀ l ∈ i.labels, OnOneLine l.message := by
  unfold labels
  split
  · have hstart : OnOneLine "string literal started here" := by decide
    exact List.forall_mem_singleton.mpr hstart
  · exact List.forall_mem_nil _

/-! ### The lexer -/

/-- A numeral has name characters and points only, so it may stand in a message as it is
spelled. -/
theorem Numeral.newline_notMem {before whole fraction tail behind : List Char}
    (h : Numeral before whole fraction tail behind) :
    '\n' ∉ whole ++ withPoint fraction ++ tail := by
  have hwhole : '\n' ∉ whole :=
    newline_notMem_of_isNameChar fun c hc => isNameChar_of_isDigit (h.whole_digits c hc)
  have hfraction : '\n' ∉ fraction :=
    newline_notMem_of_isNameChar fun c hc => isNameChar_of_isDigit (h.fraction_digits c hc)
  have hpoint : '\n' ∉ withPoint fraction := by
    unfold withPoint
    split
    · exact List.not_mem_nil
    · exact List.not_mem_cons_of_ne_of_not_mem (by decide) hfraction
  simp only [List.mem_append, not_or]
  exact ⟨⟨hwhole, hpoint⟩, newline_notMem_of_isNameChar h.tail_chars⟩

/-- What is shown of a token and of its flaw. -/
theorem Lexeme.Fits.onOneLine {before behind text : List Char} {kind : TokenKind}
    {flaw : Option Problem} (h : Fits before behind ⟨text, .token kind flaw⟩) :
    OnOneLine kind.describe ∧ ∀ p ∈ flaw, OnOneLine p.shown := by
  have hplain : ∀ k : TokenKind, k.bareText = "" → OnOneLine k.describe := fun k hk =>
    TokenKind.onOneLine_describe (hk ▸ by decide)
  cases h with
  | keyword | string | pair | single => exact ⟨hplain _ rfl, nofun⟩
  | identifier word =>
    have hname := onOneLine_ofList.mpr (newline_notMem_of_isNameChar word.chars)
    exact ⟨TokenKind.onOneLine_describe hname, nofun⟩
  | number numeral spelled =>
    refine ⟨hplain _ rfl, fun p hp => ?_⟩
    split at hp
    · cases hp
    · cases hp
      exact onOneLine_ofList.mpr (spelled ▸ numeral.newline_notMem)
  | unclosed | unclosedEscape =>
    refine ⟨hplain _ rfl, fun p hp => ?_⟩
    cases hp
    decide
  | @unknown c blank =>
    -- A line feed is a blank.
    have hchar : OnOneLine c.toString := by
      show OnOneLine (String.ofList [c])
      rw [onOneLine_ofList]
      intro h
      rw [← List.mem_singleton.mp h] at blank
      cases blank
    refine ⟨TokenKind.onOneLine_describe hchar, fun p hp => ?_⟩
    cases hp
    exact hchar

/-- The tokens and the issues of a source text. -/
theorem Scans.onOneLine {before cs : List Char} {ts : List SourceToken} {is : List Issue}
    (h : Scans before cs ts is) :
    (∀ t ∈ ts, OnOneLine t.kind.describe) ∧ ∀ i ∈ is, i.OneLine := by
  induction h with
  | done => exact ⟨List.forall_mem_singleton.mpr TokenKind.onOneLine_describe_eof,
      List.forall_mem_nil _⟩
  | gap kind fits rest ih => exact ih
  | @token before text behind kind flaw span ts is fits place rest ih =>
    obtain ⟨hkind, hflaw⟩ := fits.onOneLine
    refine ⟨List.forall_mem_cons.mpr ⟨hkind, ih.1⟩, List.forall_mem_append.mpr ⟨?_, ih.2⟩⟩
    cases flaw with
    | none => exact List.forall_mem_nil _
    | some problem => exact List.forall_mem_singleton.mpr (hflaw problem rfl)

/-! ### Chains -/

mutual

/-- The issues of a chain show nothing but its tokens. -/
theorem Chain.onOneLine_issues : (r : Chain) → (∀ t ∈ r.body, OnOneLine t.kind.describe) →
    ∀ i ∈ r.issues, i.OneLine
  | .mk first links, h => by
    rw [Chain.body, List.forall_mem_append] at h
    rw [Chain.issues]
    exact List.forall_mem_append.mpr
      ⟨Operand.onOneLine_issues first h.1, Links.onOneLine_issues links h.2⟩

/-- A row of links reports tokens of its own body. -/
theorem Links.onOneLine_issues : (r : Links) → (∀ t ∈ r.body, OnOneLine t.kind.describe) →
    ∀ i ∈ r.issues, i.OneLine
  | .done _, _ => by
    rw [Links.issues]
    exact List.forall_mem_nil _
  | .stray _ rest, h => by
    rw [Links.body, List.forall_mem_cons] at h
    rw [Links.issues]
    exact List.forall_mem_cons.mpr ⟨h.1, Links.onOneLine_issues rest h.2⟩
  | .link _ _ operand rest, h => by
    rw [Links.body, List.forall_mem_cons, List.forall_mem_append] at h
    rw [Links.issues]
    exact List.forall_mem_append.mpr
      ⟨Operand.onOneLine_issues operand h.2.1, Links.onOneLine_issues rest h.2.2⟩

/-- An operator in front of an operand is not reported, so only the operand counts. -/
theorem Operand.onOneLine_issues : (r : Operand) → (∀ t ∈ r.tokens, OnOneLine t.kind.describe) →
    ∀ i ∈ r.issues, i.OneLine
  | .signed _ _ operand, h => by
    rw [Operand.tokens, List.forall_mem_cons] at h
    rw [Operand.issues]
    exact Operand.onOneLine_issues operand h.2
  | .bare primary, h => by
    rw [Operand.issues]
    exact Primary.onOneLine_issues primary h

/-- A stray operator is reported as it was found; the rest is by recursion. -/
theorem Primary.onOneLine_issues : (r : Primary) → (∀ t ∈ r.tokens, OnOneLine t.kind.describe) →
    ∀ i ∈ r.issues, i.OneLine
  | .stray _ rest, h => by
    rw [Primary.tokens, List.forall_mem_cons] at h
    rw [Primary.issues]
    exact List.forall_mem_cons.mpr ⟨h.1, Primary.onOneLine_issues rest h.2⟩
  | .atom atom accessors, h => by
    rw [Primary.tokens, List.forall_mem_append] at h
    rw [Primary.issues]
    exact List.forall_mem_append.mpr
      ⟨Atom.onOneLine_issues atom h.1, Accessors.onOneLine_issues accessors h.2⟩

/-- A missing operand shows the token in its place, which is one of its tokens. -/
theorem Atom.onOneLine_issues : (r : Atom) → (∀ t ∈ r.tokens, OnOneLine t.kind.describe) →
    ∀ i ∈ r.issues, i.OneLine
  | .number _ _, _ | .string _ _, _ | .name _ _, _ => by
    rw [Atom.issues]
    exact List.forall_mem_nil _
  | .group _ inner, h => by
    rw [Atom.tokens, List.forall_mem_cons, List.forall_mem_append] at h
    rw [Atom.issues]
    exact Chain.onOneLine_issues inner h.2.1
  | .array _ elems, h => by
    rw [Atom.tokens, List.forall_mem_cons, List.forall_mem_append] at h
    rw [Atom.issues]
    exact Items.onOneLine_issues elems h.2.1
  | .missing _, h => by
    rw [Atom.tokens, List.forall_mem_singleton] at h
    rw [Atom.issues]
    exact List.forall_mem_singleton.mpr h

/-- A missing name behind a dot shows what follows the dot. -/
theorem Accessors.onOneLine_issues : (r : Accessors) →
    (∀ t ∈ r.tokens, OnOneLine t.kind.describe) → ∀ i ∈ r.issues, i.OneLine
  | .none, _ => by
    rw [Accessors.issues]
    exact List.forall_mem_nil _
  | .call _ _ args rest, h => by
    rw [Accessors.tokens, List.forall_mem_cons, List.forall_mem_append, List.forall_mem_cons] at h
    rw [Accessors.issues]
    exact List.forall_mem_append.mpr
      ⟨Items.onOneLine_issues args h.2.1, Accessors.onOneLine_issues rest h.2.2.2⟩
  | .index _ _ inner rest, h => by
    rw [Accessors.tokens, List.forall_mem_cons, List.forall_mem_append, List.forall_mem_cons] at h
    rw [Accessors.issues]
    exact List.forall_mem_append.mpr
      ⟨Chain.onOneLine_issues inner h.2.1, Accessors.onOneLine_issues rest h.2.2.2⟩
  | .member optional dot found rest, h => by
    rw [Accessors.tokens, List.forall_mem_cons, List.forall_mem_cons] at h
    -- A missing member is reported without a word on what stands there.
    have hmember : ∀ i ∈ memberIssues optional dot found, i.OneLine := by
      unfold memberIssues
      split
      · exact List.forall_mem_nil _
      · exact List.forall_mem_singleton.mpr (show OnOneLine "" by decide)
    rw [Accessors.issues]
    exact List.forall_mem_append.mpr ⟨hmember, Accessors.onOneLine_issues rest h.2.2⟩

/-- The items of a list report one behind the other. -/
theorem Items.onOneLine_issues : (r : Items) → (∀ t ∈ r.body, OnOneLine t.kind.describe) →
    ∀ i ∈ r.issues, i.OneLine
  | .last item, h => by
    rw [Items.issues]
    exact Chain.onOneLine_issues item h
  | .more item rest, h => by
    rw [Items.body, List.forall_mem_append, List.forall_mem_cons] at h
    rw [Items.issues]
    exact List.forall_mem_append.mpr
      ⟨Chain.onOneLine_issues item h.1, Items.onOneLine_issues rest h.2.2⟩

end

/-! ### Readers -/

/-- The descriptions of the tokens ahead stay on one line. -/
def Cursor.OneLine (c : Cursor) : Prop := ∀ t ∈ c.ahead, OnOneLine t.kind.describe

namespace Cursor

variable {c d e : Cursor}

/-- What is ahead further on was ahead before. -/
theorem OneLine.reaches (hc : c.OneLine) (h : c.Reaches d) : d.OneLine :=
  fun t ht => hc t (h.mem_ahead ht)

/-- The next token is ahead, or it is the end of the input. -/
theorem OneLine.peek (hc : c.OneLine) (s : Scope) : OnOneLine (c.peek s).kind.describe := by
  obtain ⟨ahead, finish, position⟩ := c
  cases ahead with
  | nil => exact TokenKind.onOneLine_describe_eof
  | cons t rest =>
    simp only [Cursor.peek]
    split
    · exact TokenKind.onOneLine_describe_eof
    · exact hc t List.mem_cons_self

/-- What is taken was ahead. -/
theorem OneLine.takes {s : Scope} (hc : c.OneLine) {ts : List Token} (h : Takes s ts c e) :
    ∀ t ∈ ts, OnOneLine t.kind.describe := by
  intro t ht
  obtain ⟨d, hd, rfl⟩ := h.exists_peek t ht
  exact (hc.reaches hd).peek s

/-- The tokens of a source text hold names and characters of the text, and these do not reach
beyond a line. -/
theorem oneLine_ofTokens_lex (source : String) : (ofTokens (lex source).tokens).OneLine := by
  obtain ⟨front, hstart, htokens, -⟩ := ofTokens_lex source
  have hall : ∀ t ∈ (lex source).tokens, OnOneLine t.kind.describe :=
    List.forall_mem_map.mpr (scans_lex source).onOneLine.1
  rw [hstart]
  exact fun t ht => hall t (htokens ▸ List.mem_append_left _ ht)

end Cursor

/-- All that a chain reports is about tokens that it has taken. -/
theorem Chain.onOneLine_read {s : Scope} {c : Cursor} (hc : c.OneLine) :
    ∀ i ∈ (read s c).1.issues, i.OneLine := by
  have htokens := hc.takes (between_read s c).takes
  exact onOneLine_issues _ fun t ht => htokens t (List.mem_append_left _ ht)

/-- The issues of what a reader gives, or the one that made it give up. -/
def reportedBy {α : Type} (issues : α → List Issue) : Except Issue α → List Issue
  | .ok a => issues a
  | .error issue => [issue]

namespace Cursor

variable {c : Cursor}

/-- A missing name is reported with the token that was found. -/
theorem OneLine.readName (hc : c.OneLine) (place : NamePlace) :
    ∀ i ∈ reportedBy (fun _ => []) (c.readName place).1, i.OneLine := by
  rcases hread : c.readName place with ⟨issue | name, d⟩
  · obtain ⟨rfl, -⟩ := readName_eq_error hread
    exact List.forall_mem_singleton.mpr (hc.peek .stream)
  · exact List.forall_mem_nil _

/-- Parameters that break off report the token that was found, or the end. -/
theorem OneLine.readParams (hc : c.OneLine) :
    ∀ i ∈ reportedBy (fun _ => []) c.readParams.1, i.OneLine := by
  rcases hread : c.readParams with ⟨issue | params, d⟩
  · refine List.forall_mem_singleton.mpr ?_
    obtain ⟨t, ht, -, rfl | rfl⟩ := breaksOff_readParams hread
    · exact (hc.reaches ht).peek .stream
    · exact (hc.reaches ht).peek .stream
  · exact List.forall_mem_nil _

end Cursor

namespace DeclClause

variable {c : Cursor}

/-- Name, equals sign and initializer, each with its own report. -/
theorem onOneLine_readBinding (hc : c.OneLine) (head : DeclHead) (binding : Binding) :
    ∀ i ∈ reportedBy issues (readBinding head binding c).1, i.OneLine := by
  rcases hread : readBinding head binding c with ⟨result, d⟩
  cases readsBinding hread with
  | unnamed hname =>
    have hmissing := hc.readName .binding
    rwa [hname] at hmissing
  | declared => exact List.forall_mem_nil _
  | initialized hname =>
    have hequals := Cursor.reaches_advance_of_readName hname
    exact Chain.onOneLine_read (hc.reaches hequals)
  | unset hname =>
    have hnext := (hc.reaches (Cursor.reaches_of_readName hname)).peek .stream
    exact List.forall_mem_singleton.mpr hnext

/-- A function reports what its name or its parameters lack. -/
theorem onOneLine_readFunction (hc : c.OneLine) (head : DeclHead) :
    ∀ i ∈ reportedBy issues (readFunction head c).1, i.OneLine := by
  rcases hread : readFunction head c with ⟨result, d⟩
  cases readsFunction hread with
  | unnamed hname =>
    have hmissing := hc.readName .function
    rwa [hname] at hmissing
  | bare => exact List.forall_mem_nil _
  | listed => exact List.forall_mem_nil _
  | unlisted hname _ hparams =>
    have hopen := Cursor.reaches_advance_of_readName hname
    have hbroken := (hc.reaches hopen).readParams
    rwa [hparams] at hbroken

/-- By the reserved word that the declaration starts with. -/
theorem onOneLine_read (hc : c.OneLine) : ∀ i ∈ reportedBy issues (read c).1, i.OneLine := by
  have hword := hc.reaches (reaches_word c)
  rcases hread : read c with ⟨result, d⟩
  cases reads hread with
  | binding binding _ h =>
    have hissues := onOneLine_readBinding hword (headAt c) binding
    rwa [h] at hissues
  | function _ h =>
    have hissues := onOneLine_readFunction hword (headAt c)
    rwa [h] at hissues
  | neither => exact List.forall_mem_singleton.mpr ((hc.reaches (reaches_flags c)).peek .stream)

end DeclClause

/-- A clause is a declaration; anything else is reported with the token that was found. -/
theorem Clause.onOneLine_read {c : Cursor} (hc : c.OneLine) :
    ∀ i ∈ reportedBy issues (read c).1, i.OneLine := by
  rcases hread : read c with ⟨result, d⟩
  cases reads hread with
  | ret => exact List.forall_mem_nil _
  | retOf => exact Chain.onOneLine_read (hc.reaches (Cursor.reaches_advance .stream c))
  | decl _ _ h | broken _ _ h =>
    have hdecl := DeclClause.onOneLine_read hc
    rwa [h] at hdecl
  | neither => exact List.forall_mem_singleton.mpr (hc.peek .stream)

namespace Attempt

variable {c : Cursor}

/-- What recovery skips is not reported. -/
theorem onOneLine_readOne (hc : c.OneLine) : ∀ i ∈ (readOne c).1.issues, i.OneLine := by
  have hclause := Clause.onOneLine_read hc
  rcases hone : readOne c with ⟨attempt, d⟩
  cases readsOne hone with
  | read h | failed h => rwa [h] at hclause

/-- Each attempt starts at a cursor that is reached from the first one. -/
theorem onOneLine_readUpTo (fuel : Nat) (hc : c.OneLine) :
    ∀ a ∈ (readUpTo fuel c).1, ∀ i ∈ a.issues, i.OneLine := by
  intro a ha
  obtain ⟨d, hd, rfl⟩ := exists_readOne_eq fuel c a ha
  exact onOneLine_readOne (hc.reaches hd)

/-- A program is read with enough fuel for all of its tokens. -/
theorem onOneLine_readAll (hc : c.OneLine) :
    ∀ a ∈ (readAll c).1, ∀ i ∈ a.issues, i.OneLine :=
  onOneLine_readUpTo _ hc

end Attempt

/-! ### Diagnostics -/

/-- A diagnostic that does not end in front of its start, and whose texts stay on one
line. -/
structure Diagnostic.Plain (d : Diagnostic) : Prop where
  span : d.span.start ≤ d.span.stop
  code : OnOneLine d.code
  message : OnOneLine d.message
  labels : ∀ l ∈ d.labels, OnOneLine l.message

/-- The span is one since it lies in the text, and the code and the labels are fixed
texts. -/
theorem Issue.plain_toDiagnostic {source : String} {i : Issue} (hwithin : i.Within source)
    (hline : i.OneLine) : i.toDiagnostic.Plain where
  span := hwithin.span.le
  code := i.problem.onOneLine_code
  message := Problem.onOneLine_message hline
  labels := i.onOneLine_labels

/-- What is reported of a source text, as an expression and as a program. -/
theorem plain_diagnostics (mode : Reduction) (source : String) :
    ∀ d ∈ (parseExpression mode source).diagnostics ++ (parseProgram mode source).diagnostics,
      d.Plain := by
  have hline := Cursor.oneLine_ofTokens_lex source
  have htext := Cursor.inText_ofTokens_lex source
  have hwithin := Cursor.within_ofTokens_lex source
  have hchars : source.toList = [] ++ source.toList := rfl
  have hlexed : ∀ i ∈ (lex source).issues, i.toDiagnostic.Plain := fun i hi =>
    Issue.plain_toDiagnostic (((scans_lex source).within_issues hchars).1 i hi).2
      ((scans_lex source).onOneLine.2 i hi)
  -- A merged issue is one of the lexer or one of the reader.
  have hmerged : ∀ later : List Issue, (∀ i ∈ later, i.toDiagnostic.Plain) →
      ∀ d ∈ (mergeIssues (lex source).issues later).map Issue.toDiagnostic, d.Plain := by
    intro later hlater
    refine List.forall_mem_map.mpr fun i hi => ?_
    rcases List.mem_append.mp (List.mem_mergeSort.mp hi) with hi | hi
    · exact hlexed i hi
    · exact hlater i hi
  refine List.forall_mem_append.mpr ⟨hmerged _ fun i hi => ?_, hmerged _ fun i hi => ?_⟩
  · exact Issue.plain_toDiagnostic (Chain.within_issues_read hwithin htext i hi)
      (Chain.onOneLine_read hline i hi)
  · obtain ⟨a, ha, hi⟩ := List.mem_flatMap.mp hi
    exact Issue.plain_toDiagnostic ((Attempt.within_readAll mode hwithin htext a ha).issues i hi)
      (Attempt.onOneLine_readAll hline a ha i hi)

/-- The value of a literal is shown with an escape. -/
example : (TokenKind.string "a\nb").describe = "string \"a\\nb\"" := by
  decide

end ExprFrontEnd
