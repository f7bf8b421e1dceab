import ExprFrontEnd.Document
import ExprFrontEnd.Lexed
import ExprFrontEnd.Stmt
import ExprFrontEnd.Terminator

/-!
# `ExprFrontEnd.Document.Views`: documents of tokens, trees and diagnostics

How each kind of value is shown in structured output. Values of a type with several forms carry the
name of their form in the field `kind`, which comes first.
-/

set_option autoImplicit false

namespace ExprFrontEnd

namespace Document

/-- A record of a named form. -/
def form (kind : String) (fields : List (String × Document)) : Document :=
  record (("kind", text kind) :: fields)

end Document

/-- A span as its two ends. -/
def Span.toDocument (s : Span) : Document :=
  .record [("start", .count s.start), ("end", .count s.stop)]

/-! ### Tokens -/

/-- The name of the form of a kind of token. -/
def TokenKind.label : TokenKind → String
  | .number _ => "Number"
  | .string _ => "String"
  | .identifier _ => "Identifier"
  | .keyword word => word.label
  | .symbol s => s.label
  | .unknown _ => "Unknown"
  | .eof => "Eof"

/-- The value that a kind of token carries. -/
def TokenKind.value? : TokenKind → Option Document
  | .number x => some (.number x)
  | .string s => some (.text s)
  | .identifier s => some (.text s)
  | .unknown c => some (.text c.toString)
  | .keyword _ | .symbol _ | .eof => none

/-- A kind of token with its value, if it has one. -/
def TokenKind.toDocument (kind : TokenKind) : Document :=
  .form kind.label (kind.value?.elim [] fun value => [("value", value)])

/-- A token. -/
def Token.toDocument (t : Token) : Document :=
  .record [("kind", t.kind.toDocument), ("span", t.span.toDocument)]

/-- A token with its text. -/
def SourceToken.toDocument (t : SourceToken) : Document :=
  .record [("kind", t.kind.toDocument), ("text", .text t.text), ("span", t.span.toDocument)]

/-! ### Diagnostics -/

/-- A label of a diagnostic. -/
def Label.toDocument (l : Label) : Document :=
  .record [("message", .text l.message), ("span", l.span.toDocument)]

/-- A diagnostic. -/
def Diagnostic.toDocument (d : Diagnostic) : Document :=
  .record [("code", .text d.code), ("severity", .text "error"), ("message", .text d.message),
    ("span", d.span.toDocument), ("labels", .ofList Label.toDocument d.labels)]

/-! ### Expressions -/

/-- The fields of a name. -/
def Identifier.fields (i : Identifier) : List (String × Document) :=
  [("name", .text i.name), ("span", i.span.toDocument)]

/-- A name. -/
def Identifier.toDocument (i : Identifier) : Document := .record i.fields

mutual

/-- An expression. -/
def Expr.toDocument : Expr → Document
  | .number value span => .form "Number" [("value", .number value), ("span", span.toDocument)]
  | .string value span => .form "String" [("value", .text value), ("span", span.toDocument)]
  | .identifier name => .form "Identifier" name.fields
  | .unary op arg span =>
    .form "Unary" [("op", .text op.label), ("arg", arg.toDocument), ("span", span.toDocument)]
  | .binary left op right span =>
    .form "Binary" [("left", left.toDocument), ("op", .text op.label),
      ("right", right.toDocument), ("span", span.toDocument)]
  | .call callee args optional span =>
    .form "Call" [("callee", callee.toDocument), ("args", .list (Expr.toDocuments args)),
      ("optional", .flag optional), ("span", span.toDocument)]
  | .index object position optional span =>
    .form "Index" [("object", object.toDocument), ("index", position.toDocument),
      ("optional", .flag optional), ("span", span.toDocument)]
  | .member object prop optional span =>
    .form "Member" [("object", object.toDocument), ("prop", prop.toDocument),
      ("optional", .flag optional), ("span", span.toDocument)]
  | .array elems span =>
    .form "Array" [("elems", .list (Expr.toDocuments elems)), ("span", span.toDocument)]
  | .ignore token span =>
    .form "Ignore" [("token", token.toDocument), ("span", span.toDocument)]

/-- The documents of expressions. -/
def Expr.toDocuments : List Expr → List Document
  | [] => []
  | e :: es => e.toDocument :: Expr.toDocuments es

end

/-! ### Statements -/

/-- What a declaration declares. -/
def DeclKind.toDocument : DeclKind → Document
  | .binding b name init =>
    .form "Variable" [("binding", .text b.label), ("name", name.toDocument),
      ("init", .ofOption Expr.toDocument init)]
  | .function name params =>
    .form "Function" [("name", name.toDocument), ("params", .ofList Identifier.toDocument params)]

/-- A declaration. -/
def Decl.toDocument (d : Decl) : Document :=
  .record [("kind", d.kind.toDocument), ("export", .flag d.exported),
    ("declare", .flag d.declared), ("span", d.span.toDocument)]

/-- A statement. -/
def Stmt.toDocument : Stmt → Document
  | .decl d span => .form "Decl" [("decl", d.toDocument), ("span", span.toDocument)]
  | .ret arg span =>
    .form "Return" [("arg", .ofOption Expr.toDocument arg), ("span", span.toDocument)]

end ExprFrontEnd
