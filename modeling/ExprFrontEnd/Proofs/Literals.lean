import ExprFrontEnd.Proofs.LineBreak

/-!
# `ExprFrontEnd.Proofs.Literals`: every text has a literal

A string literal stops at a quote or at the end of its line, and takes a
backslash for the start of an escape. Written with an escape for each of these
characters, any text can stand between two quotes (`Literal.ofText`).

* `Literal.quoted_flatMap_escape`: the characters of a literal go together in
  the way of the lexical grammar, and denote the text. All that has to be
  checked is that each escape denotes its character.
* `lexAt_ofText_append`: so the literal is one token wherever it stands, and
  what is behind it is read as if it stood alone.
* `lex_literal_append`: the same of the tokens and the diagnostics of a source
  text that starts with a literal.
-/

set_option autoImplicit false

namespace ExprFrontEnd

namespace Literal

/-- How a character is written between quotes. -/
def escape (c : Char) : List Char :=
  match c with
  | '\\' => ['\\', '\\']
  | '"' => ['\\', '"']
  | '\n' => ['\\', 'n']
  | '\r' => ['\\', 'r']
  | '\t' => ['\\', 't']
  | c => [c]

/-- The literal of a text: its characters as they are written, between quotes. -/
def ofText (text : String) : String :=
  String.ofList ('"' :: text.toList.flatMap escape ++ ['"'])

/-- One character of a text goes in front of what is written of the others. -/
theorem quoted_escape_append (c : Char) {cs value : List Char} (h : Quoted cs value) :
    Quoted (escape c ++ cs) (c :: value) := by
  unfold escape
  split
  -- Behind its backslash each of the five characters stands for the one that is meant.
  · exact .escaped (c := '\\') (by decide) h
  · exact .escaped (c := '"') (by decide) h
  · exact .escaped (c := 'n') (by decide) h
  · exact .escaped (c := 'r') (by decide) h
  · exact .escaped (c := 't') (by decide) h
  · rename_i hescape hquote hline _ _
    exact .plain hquote hescape hline h

/-- What is written of a text denotes the text. -/
theorem quoted_flatMap_escape (cs : List Char) : Quoted (cs.flatMap escape) cs := by
  induction cs with
  | nil => exact .nil
  | cons c cs ih =>
    rw [List.flatMap_cons]
    exact quoted_escape_append c ih

/-- A literal has its quotes at both ends, and between them its characters with escapes. -/
theorem toList_ofText (text : String) :
    (ofText text).toList = '"' :: text.toList.flatMap escape ++ ['"'] := by
  rw [ofText, String.toList_ofList]

end Literal

/-- A literal fits wherever it stands. -/
theorem Lexeme.fits_ofText (text : String) (before behind : List Char) :
    Fits before behind ⟨(Literal.ofText text).toList, .token (.string text) none⟩ := by
  have hfits : Fits before behind _ := .string (Literal.quoted_flatMap_escape text.toList)
  rwa [String.ofList_toList, ← Literal.toList_ofText] at hfits

/-- **A literal is one token wherever it stands**, and the text behind it has its
own tokens and issues there. -/
theorem lexAt_ofText_append (text : String) (before rest : List Char) :
    let stop := byteLength before + (Literal.ofText text).utf8ByteSize
    lexAt (byteLength before) ((Literal.ofText text).toList ++ rest)
      = ⟨⟨.string text, Literal.ofText text, ⟨byteLength before, stop⟩⟩
          :: (lexAt stop rest).sourceTokens,
        (lexAt stop rest).issues⟩ := by
  intro stop
  -- The literal ends in a quote, so nothing runs on into it or out of it.
  obtain ⟨c, cs, htext, hfirst⟩ := (Lexeme.fits_ofText text before rest).exists_first_eq
  have hlex := lexAt_of_first (byteLength before) hfirst
  have hwidth : byteLength (Literal.ofText text).toList = (Literal.ofText text).utf8ByteSize :=
    byteLength_toList _
  rw [← htext, Lexeme.width] at hlex
  simp only [hwidth, SourceToken.ofLexeme?, Issue.ofLexeme?, String.ofList_toList,
    Option.map_none] at hlex
  exact hlex

/-- A source text that starts with a literal. -/
theorem lex_ofText_append (text rest : String) :
    lex (Literal.ofText text ++ rest)
      = ⟨⟨.string text, Literal.ofText text, ⟨0, (Literal.ofText text).utf8ByteSize⟩⟩
          :: (lex rest).sourceTokens.map (SourceToken.shift (Literal.ofText text).utf8ByteSize),
        (lex rest).issues.map (Issue.shift (Literal.ofText text).utf8ByteSize)⟩ := by
  have hlex := lexAt_ofText_append text [] rest.toList
  rw [byteLength_nil, ← String.toList_append, lexAt_zero] at hlex
  rw [hlex, lexAt_add, lexAt_zero, Nat.zero_add]

/-- **A string literal can carry every text**, whatever stands behind it. Its
token has the text for its value and takes up the literal, and the tokens and
the diagnostics behind it are those of the rest at their places there. -/
theorem lex_literal_append (text rest : String) :
    (lex (Literal.ofText text ++ rest)).tokens
        = ⟨.string text, ⟨0, (Literal.ofText text).utf8ByteSize⟩⟩
          :: (lex rest).tokens.map (Token.shift (Literal.ofText text).utf8ByteSize) ∧
      (lex (Literal.ofText text ++ rest)).issues.map Issue.toDiagnostic
        = ((lex rest).issues.map Issue.toDiagnostic).map
          (Diagnostic.shift (Literal.ofText text).utf8ByteSize) := by
  rw [lex_ofText_append]
  constructor
  · simp only [Lexed.tokens, List.map_cons, List.map_map]
    rfl
  · simp only [List.map_map]
    exact List.map_congr_left fun i _ => Issue.toDiagnostic_shift _ i

/-- A text that ends in a backslash, in front of a text that starts like the end
of a literal. -/
example : Literal.ofText "\"é\"\n\\" = "\"\\\"é\\\"\\n\\\\\"" ∧
    ((lex (Literal.ofText "\"é\"\n\\" ++ "n\" 1x")).tokens.map Token.kind).take 2
      = [.string "\"é\"\n\\", .identifier "n"] := by
  decide +kernel

end ExprFrontEnd
