import ExprFrontEnd.Decimal.Layout
import ExprFrontEnd.Span
import ExprFrontEnd.Text.Quoted

/-!
# `ExprFrontEnd.Token`: the vocabulary of the language

A `Token` is a kind and the span it was read from. Kinds are the six reserved words (`Keyword`), the
operators and delimiters (`Symbol`), and the tokens that carry a value. `Keyword.spelling` and
`Symbol.spelling` are the only places that say how a word or a symbol is written, and the tables
that the lexer looks words and symbols up in agree with them (`Keyword.ofSpelling?_eq_some_iff`,
`Symbol.pair?_eq_some_iff`, `Symbol.single?_eq_some_iff`). `TokenKind.describe` is how messages
speak of a token.
-/

set_option autoImplicit false

namespace ExprFrontEnd

/-! ### Reserved words -/

/-- The reserved words. Each of them starts a statement. -/
inductive Keyword where
  | exporting
  | declaring
  | val
  | var
  | fn
  | returning
  deriving DecidableEq, Repr

namespace Keyword

/-- All reserved words. -/
def all : List Keyword := [.exporting, .declaring, .val, .var, .fn, .returning]

/-- How a reserved word is written. -/
def spelling : Keyword → String
  | exporting => "export"
  | declaring => "declare"
  | val => "val"
  | var => "var"
  | fn => "fn"
  | returning => "return"

/-- The name of a reserved word in documents. -/
def label : Keyword → String
  | exporting => "Export"
  | declaring => "Declare"
  | val => "Val"
  | var => "Var"
  | fn => "Fn"
  | returning => "Return"

/-- The reserved word that is written like this, if there is one. -/
def ofSpelling? (word : String) : Option Keyword :=
  all.find? fun k => k.spelling == word

/-- Every reserved word is found by its spelling. -/
theorem ofSpelling?_spelling (k : Keyword) : ofSpelling? k.spelling = some k := by
  cases k <;> decide

/-- A word is reserved exactly if it is the spelling of a reserved word. -/
theorem ofSpelling?_eq_some_iff {word : String} {k : Keyword} :
    ofSpelling? word = some k ↔ word = k.spelling := by
  constructor
  · intro h
    have := List.find?_some h
    exact (beq_iff_eq.1 this).symm
  · rintro rfl
    exact ofSpelling?_spelling k

end Keyword

/-! ### Operators and delimiters -/

/-- The operators and delimiters. -/
inductive Symbol where
  | plus
  | minus
  | asterisk
  | slash
  | percent
  | less
  | lessEqual
  | greater
  | greaterEqual
  | equalEqual
  | bangEqual
  | ampAmp
  | pipePipe
  | questionQuestion
  | equals
  | openParen
  | closeParen
  | openBracket
  | closeBracket
  | openBrace
  | closeBrace
  | questionOpenParen
  | questionOpenBracket
  | dot
  | questionDot
  | comma
  | colon
  deriving DecidableEq, Repr

namespace Symbol

/-- All operators and delimiters. -/
def all : List Symbol :=
  [.plus, .minus, .asterisk, .slash, .percent, .less, .lessEqual, .greater, .greaterEqual,
    .equalEqual, .bangEqual, .ampAmp, .pipePipe, .questionQuestion, .equals, .openParen,
    .closeParen, .openBracket, .closeBracket, .openBrace, .closeBrace, .questionOpenParen,
    .questionOpenBracket, .dot, .questionDot, .comma, .colon]

/-- The characters of a symbol, of which there are one or two. -/
def chars : Symbol → List Char
  | plus => ['+']
  | minus => ['-']
  | asterisk => ['*']
  | slash => ['/']
  | percent => ['%']
  | less => ['<']
  | lessEqual => ['<', '=']
  | greater => ['>']
  | greaterEqual => ['>', '=']
  | equalEqual => ['=', '=']
  | bangEqual => ['!', '=']
  | ampAmp => ['&', '&']
  | pipePipe => ['|', '|']
  | questionQuestion => ['?', '?']
  | equals => ['=']
  | openParen => ['(']
  | closeParen => [')']
  | openBracket => ['[']
  | closeBracket => [']']
  | openBrace => ['\x7b']
  | closeBrace => ['\x7d']
  | questionOpenParen => ['?', '(']
  | questionOpenBracket => ['?', '[']
  | dot => ['.']
  | questionDot => ['?', '.']
  | comma => [',']
  | colon => [':']

/-- How a symbol is written. -/
def spelling (s : Symbol) : String := String.ofList s.chars

/-- The name of a symbol in documents. -/
def label : Symbol → String
  | plus => "Plus"
  | minus => "Minus"
  | asterisk => "Asterisk"
  | slash => "Slash"
  | percent => "Percent"
  | less => "Less"
  | lessEqual => "LessEqual"
  | greater => "Greater"
  | greaterEqual => "GreaterEqual"
  | equalEqual => "EqualEqual"
  | bangEqual => "BangEqual"
  | ampAmp => "AmpAmp"
  | pipePipe => "PipePipe"
  | questionQuestion => "QuestionQuestion"
  | equals => "Equals"
  | openParen => "OpenParen"
  | closeParen => "CloseParen"
  | openBracket => "OpenBracket"
  | closeBracket => "CloseBracket"
  | openBrace => "OpenBrace"
  | closeBrace => "CloseBrace"
  | questionOpenParen => "QuestionOpenParen"
  | questionOpenBracket => "QuestionOpenBracket"
  | dot => "Dot"
  | questionDot => "QuestionDot"
  | comma => "Comma"
  | colon => "Colon"

/-- The symbol that consists of these two characters, if there is one. -/
def pair? (a b : Char) : Option Symbol := all.find? fun s => s.chars == [a, b]

/-- The symbol that consists of this one character, if there is one. -/
def single? (a : Char) : Option Symbol := all.find? fun s => s.chars == [a]

/-- The list of all symbols has every symbol. -/
theorem mem_all (s : Symbol) : s ∈ all := by
  cases s <;> decide

/-- No two symbols are written with the same characters. -/
theorem chars_injective {s t : Symbol} (h : s.chars = t.chars) : s = t := by
  revert h
  cases s <;> cases t <;> decide

/-- Looking characters up among all symbols finds the one that is written with them. -/
theorem find?_chars_eq_some_iff {cs : List Char} {s : Symbol} :
    (all.find? fun s => s.chars == cs) = some s ↔ s.chars = cs := by
  constructor
  · intro h
    simpa using List.find?_some h
  · intro h
    obtain ⟨t, ht⟩ : ∃ t, (all.find? fun s => s.chars == cs) = some t := by
      rw [← Option.isSome_iff_exists, List.find?_isSome]
      exact ⟨s, mem_all s, by simp [h]⟩
    have : t.chars = cs := by simpa using List.find?_some ht
    rw [ht, chars_injective (this.trans h.symm)]

/-- A pair of characters is a symbol exactly if one is written with the two. -/
theorem pair?_eq_some_iff {a b : Char} {s : Symbol} : pair? a b = some s ↔ s.chars = [a, b] :=
  find?_chars_eq_some_iff

/-- A character alone is a symbol exactly if one is written with it. -/
theorem single?_eq_some_iff {a : Char} {s : Symbol} : single? a = some s ↔ s.chars = [a] :=
  find?_chars_eq_some_iff

end Symbol

/-! ### Tokens -/

/-- What a token is. -/
inductive TokenKind where
  | number (value : Binary64)
  | string (value : String)
  | identifier (name : String)
  | keyword (word : Keyword)
  | symbol (symbol : Symbol)
  /-- A character that belongs to no other token. It is kept, so that the parser can skip it. -/
  | unknown (char : Char)
  /-- The end of the input. -/
  | eof
  deriving DecidableEq, Repr

namespace TokenKind

/-- How messages speak of a token. -/
def describe : TokenKind → String
  | number value => "number `" ++ value.render .message ++ "`"
  | string value => "string " ++ Text.quoted value
  | identifier name => "identifier `" ++ name ++ "`"
  | keyword word => "`" ++ word.spelling ++ "`"
  | symbol s => "`" ++ s.spelling ++ "`"
  | unknown char => "`" ++ char.toString ++ "`"
  | eof => "end of input"

/-- Whether a token starts a statement. -/
def startsStatement : TokenKind → Bool
  | keyword _ => true
  | _ => false

/-- Only reserved words start statements. -/
theorem exists_of_startsStatement {kind : TokenKind} (h : kind.startsStatement = true) :
    ∃ word, kind = .keyword word := by
  cases kind with
  | keyword word => exact ⟨word, rfl⟩
  | _ => cases h

end TokenKind

/-- A token and where it was read. -/
structure Token where
  kind : TokenKind
  span : Span
  deriving DecidableEq, Repr

namespace Token

/-- The end of the input at a span. -/
def eofAt (span : Span) : Token := ⟨.eof, span⟩

/-- The same token further to the right. -/
def shift (distance : Nat) (t : Token) : Token := ⟨t.kind, t.span.shift distance⟩

end Token

end ExprFrontEnd
