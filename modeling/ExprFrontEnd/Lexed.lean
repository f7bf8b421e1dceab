import ExprFrontEnd.Lexeme

/-!
# `ExprFrontEnd.Lexed`: a source text as tokens

`lex` gives the tokens of a source text with their texts and places, and the issues of its lexemes.
Blanks and comments are left out, and an end-of-input token closes the list. Each lexeme takes up
the bytes of its own characters (`place`), so the tokens and the gaps between them tile the source.
-/

set_option autoImplicit false

namespace ExprFrontEnd

/-- Lexemes and the spans they take up from an offset on. -/
def place (offset : Nat) : List Lexeme → List (Lexeme × Span)
  | [] => []
  | l :: ls => (l, ⟨offset, offset + l.width⟩) :: place (offset + l.width) ls

/-- A token with the text it was read from. -/
structure SourceToken where
  kind : TokenKind
  text : String
  span : Span
  deriving DecidableEq, Repr

namespace SourceToken

/-- The token of a lexeme, if it has one. -/
def ofLexeme? (l : Lexeme) (span : Span) : Option SourceToken :=
  match l.kind with
  | .token kind _ => some ⟨kind, String.ofList l.chars, span⟩
  | _ => none

/-- A token without its text. -/
def toToken (t : SourceToken) : Token := ⟨t.kind, t.span⟩

end SourceToken

/-- What is wrong with a lexeme, if anything is. -/
def Issue.ofLexeme? (l : Lexeme) (span : Span) : Option Issue :=
  match l.kind with
  | .token _ flaw => flaw.map (⟨·, span⟩)
  | _ => none

/-- A source text as tokens. -/
structure Lexed where
  sourceTokens : List SourceToken
  issues : List Issue
  deriving DecidableEq, Repr

namespace Lexed

/-- The tokens without their texts. -/
def tokens (l : Lexed) : List Token := l.sourceTokens.map SourceToken.toToken

end Lexed

/-- The tokens of a source text, with an end-of-input token behind them, and its lexical issues. -/
def lex (source : String) : Lexed :=
  let placed := place 0 (lexemes source.toList)
  ⟨placed.filterMap (fun p => SourceToken.ofLexeme? p.1 p.2)
      ++ [⟨.eof, "", .empty source.utf8ByteSize⟩],
    placed.filterMap fun p => Issue.ofLexeme? p.1 p.2⟩

end ExprFrontEnd
