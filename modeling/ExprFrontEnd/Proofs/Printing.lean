import ExprFrontEnd.Chain
import ExprFrontEnd.Stmt

/-!
# `ExprFrontEnd.Proofs.Printing`: trees as tokens

Expressions and statements are printed as the kinds of the tokens that write
them, with parentheses around every operator, so that nothing is left to
precedence. `Expr.print` and `Stmt.print` are total, but not every tree is
the tree of a text: a place where an operand is missing has no token of its
own, and an empty list of arguments cannot be told from a missing one.
`Expr.Printable` and `Stmt.Printable` leave these out.

Printing forgets places, so trees are compared without them: `eraseSpans`
puts all spans of a tree at the start of the source.
-/

set_option autoImplicit false

namespace ExprFrontEnd

/-! ### Printing -/

/-- The symbol that starts an accessor. -/
def AccessorKind.symbol : AccessorKind → Bool → Symbol
  | call, false => .openParen
  | call, true => .questionOpenParen
  | index, false => .openBracket
  | index, true => .questionOpenBracket
  | member, false => .dot
  | member, true => .questionDot

/-- It is the one that an accessor is known by. -/
theorem AccessorKind.accessor?_symbol (kind : AccessorKind) (optional : Bool) :
    (TokenKind.symbol (kind.symbol optional)).accessor? = some (kind, optional) := by
  cases kind <;> cases optional <;> rfl

/-- Lists of tokens with commas between them. -/
def commas (items : List (List TokenKind)) : List TokenKind :=
  [.symbol .comma].intercalate items

/-- No comma is needed for one item. -/
theorem commas_singleton (item : List TokenKind) : commas [item] = item :=
  List.intercalate_singleton

/-- Commas are only between items. -/
theorem commas_cons_cons (item item' : List TokenKind) (items : List (List TokenKind)) :
    commas (item :: item' :: items) = item ++ .symbol .comma :: commas (item' :: items) := by
  rw [commas, List.intercalate_cons_cons, List.append_assoc]
  rfl

mutual

/-- An expression as tokens. -/
def Expr.print : Expr → List TokenKind
  | .number value _ => [.number value]
  | .string value _ => [.string value]
  | .identifier name => [.identifier name.name]
  | .unary op arg _ =>
    .symbol .openParen :: .symbol op.symbol :: (arg.print ++ [.symbol .closeParen])
  | .binary left op right _ =>
    .symbol .openParen ::
      (left.print ++ .symbol op.symbol :: (right.print ++ [.symbol .closeParen]))
  | .call callee args optional _ =>
    callee.print ++ .symbol (AccessorKind.call.symbol optional) ::
      (commas (printAll args) ++ [.symbol .closeParen])
  | .index object inner optional _ =>
    object.print ++ .symbol (AccessorKind.index.symbol optional) ::
      (inner.print ++ [.symbol .closeBracket])
  | .member object prop optional _ =>
    object.print ++ [.symbol (AccessorKind.member.symbol optional), .identifier prop.name]
  | .array elems _ =>
    .symbol .openBracket :: (commas (printAll elems) ++ [.symbol .closeBracket])
  | .ignore token _ => [token.kind]

/-- Each expression of a list as tokens. -/
def Expr.printAll : List Expr → List (List TokenKind)
  | [] => []
  | e :: es => e.print :: printAll es

end

/-- What a declaration declares, as tokens. -/
def DeclKind.print : DeclKind → List TokenKind
  | .binding b name init =>
    .keyword b.keyword :: .identifier name.name ::
      init.elim [] fun e => .symbol .equals :: e.print
  | .function name params =>
    .keyword .fn :: .identifier name.name :: .symbol .openParen ::
      (commas (params.map fun p => [.identifier p.name]) ++ [.symbol .closeParen])

/-- A reserved word, if it is set. -/
def flag (set : Bool) (word : Keyword) : List TokenKind :=
  if set then [.keyword word] else []

/-- A declaration as tokens. -/
def Decl.print (d : Decl) : List TokenKind :=
  flag d.exported .exporting ++ (flag d.declared .declaring ++ d.kind.print)

/-- A statement as tokens. -/
def Stmt.print : Stmt → List TokenKind
  | .decl d _ => d.print
  | .ret arg _ => .keyword .returning :: arg.elim [] Expr.print

/-- A declaration has a reserved word of its own, behind its flags. -/
theorem DeclKind.exists_print_eq_cons (kind : DeclKind) :
    ∃ (word : Keyword) (kinds : List TokenKind), kind.print = .keyword word :: kinds ∧
      word ≠ .exporting ∧ word ≠ .declaring ∧ word ≠ .returning := by
  cases kind with
  | binding b name init => exact ⟨b.keyword, _, by rw [print], by cases b <;> decide⟩
  | function name params => exact ⟨.fn, _, by rw [print], by decide⟩

/-- A declaration starts with a reserved word other than `return`. -/
theorem Decl.exists_print_eq_cons (d : Decl) :
    ∃ (word : Keyword) (kinds : List TokenKind), d.print = .keyword word :: kinds ∧
      word ≠ .returning := by
  obtain ⟨kind, exported, declared, span⟩ := d
  obtain ⟨word, kinds, hk, -, -, hw⟩ := kind.exists_print_eq_cons
  cases exported with
  | true => exact ⟨.exporting, flag declared .declaring ++ kind.print, rfl, by decide⟩
  | false =>
    cases declared with
    | true => exact ⟨.declaring, kind.print, rfl, by decide⟩
    | false => exact ⟨word, kinds, hk, hw⟩

/-- A statement starts with a reserved word. -/
theorem Stmt.exists_print_eq_cons (st : Stmt) :
    ∃ (word : Keyword) (kinds : List TokenKind), st.print = .keyword word :: kinds := by
  cases st with
  | decl d span =>
    obtain ⟨word, kinds, hd, -⟩ := d.exists_print_eq_cons
    exact ⟨word, kinds, hd⟩
  | ret arg span => exact ⟨.returning, _, by rw [print]⟩

/-! ### Trees that can be printed -/

mutual

/-- Nothing is missing in an expression, and none of its lists is empty. -/
def Expr.Printable : Expr → Prop
  | .number _ _ | .string _ _ | .identifier _ => True
  | .unary _ arg _ => arg.Printable
  | .binary left _ right _ => left.Printable ∧ right.Printable
  | .call callee args _ _ => callee.Printable ∧ args ≠ [] ∧ AllPrintable args
  | .index object inner _ _ => object.Printable ∧ inner.Printable
  | .member object _ _ _ => object.Printable
  | .array elems _ => elems ≠ [] ∧ AllPrintable elems
  | .ignore _ _ => False

/-- Every expression of a list can be printed. -/
def Expr.AllPrintable : List Expr → Prop
  | [] => True
  | e :: es => e.Printable ∧ AllPrintable es

end

/-- A declaration can be printed: a variable has an initializer exactly when
it is not declared, and the initializer can be printed. -/
def Decl.Printable (d : Decl) : Prop :=
  match d.kind with
  | .binding _ _ init => (init.isSome = true ↔ d.declared = false) ∧ ∀ e ∈ init, e.Printable
  | .function _ _ => True

/-- A statement can be printed. -/
def Stmt.Printable : Stmt → Prop
  | .decl d _ => d.Printable
  | .ret arg _ => ∀ e ∈ arg, e.Printable

/-! ### Trees without places -/

/-- A name without its place. -/
def Identifier.eraseSpans (i : Identifier) : Identifier := ⟨i.name, .empty 0⟩

mutual

/-- An expression without places. -/
def Expr.eraseSpans : Expr → Expr
  | .number value _ => .number value (.empty 0)
  | .string value _ => .string value (.empty 0)
  | .identifier name => .identifier name.eraseSpans
  | .unary op arg _ => .unary op arg.eraseSpans (.empty 0)
  | .binary left op right _ => .binary left.eraseSpans op right.eraseSpans (.empty 0)
  | .call callee args optional _ =>
    .call callee.eraseSpans (eraseAllSpans args) optional (.empty 0)
  | .index object inner optional _ =>
    .index object.eraseSpans inner.eraseSpans optional (.empty 0)
  | .member object prop optional _ =>
    .member object.eraseSpans prop.eraseSpans optional (.empty 0)
  | .array elems _ => .array (eraseAllSpans elems) (.empty 0)
  | .ignore token _ => .ignore ⟨token.kind, .empty 0⟩ (.empty 0)

/-- The expressions of a list without places. -/
def Expr.eraseAllSpans : List Expr → List Expr
  | [] => []
  | e :: es => e.eraseSpans :: eraseAllSpans es

end

/-- What a declaration declares, without places. -/
def DeclKind.eraseSpans : DeclKind → DeclKind
  | .binding b name init =>
    .binding b name.eraseSpans (init.map Expr.eraseSpans)
  | .function name params => .function name.eraseSpans (params.map Identifier.eraseSpans)

/-- A declaration without places. -/
def Decl.eraseSpans (d : Decl) : Decl :=
  ⟨d.kind.eraseSpans, d.exported, d.declared, .empty 0⟩

/-- A statement without places. -/
def Stmt.eraseSpans : Stmt → Stmt
  | .decl d _ => .decl d.eraseSpans (.empty 0)
  | .ret arg _ => .ret (arg.map Expr.eraseSpans) (.empty 0)

end ExprFrontEnd
