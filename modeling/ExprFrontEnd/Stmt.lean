import ExprFrontEnd.Expr

/-!
# `ExprFrontEnd.Stmt`: statements

The trees of statements: declarations of variables and functions, and returns. A variable has an
initializer unless it is only declared to exist.
-/

set_option autoImplicit false

namespace ExprFrontEnd

/-- The two kinds of variables. -/
inductive Binding where
  | val
  | var
  deriving DecidableEq, Repr

namespace Binding

/-- The name of a kind of variable in documents. -/
def label : Binding → String
  | val => "val"
  | var => "var"

/-- The reserved word of a kind of variable. -/
def keyword : Binding → Keyword
  | val => .val
  | var => .var

end Binding

/-- What a declaration declares. -/
inductive DeclKind where
  | binding (binding : Binding) (name : Identifier) (init : Option Expr)
  | function (name : Identifier) (params : List Identifier)
  deriving Repr

/-- A declaration. -/
structure Decl where
  kind : DeclKind
  exported : Bool
  declared : Bool
  span : Span
  deriving Repr

/-- A statement. -/
inductive Stmt where
  | decl (decl : Decl) (span : Span)
  | ret (arg : Option Expr) (span : Span)
  deriving Repr

namespace Stmt

/-- The part of the source that a statement covers. -/
def span : Stmt → Span
  | decl _ span => span
  | ret _ span => span

end Stmt

end ExprFrontEnd
