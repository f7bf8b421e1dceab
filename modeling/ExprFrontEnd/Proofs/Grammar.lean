import ExprFrontEnd.Clause.Read
import ExprFrontEnd.Proofs.Printing

/-!
# `ExprFrontEnd.Proofs.Grammar`: the grammar of the language

What a program without faults is, said without the readers:

```text
Program    = Statement*
Statement  = [export] declare (val | var) name
           | [export] (val | var) name "=" Expression T
           | [export] [declare] fn name ["(" [name ("," name)*] ")"]
           | return [Expression T]
Expression = Operand Operations
Operations = (operator Operand)*
Operand    = ("+" | "-")* Primary Postfixes
Primary    = number | string | name | "(" Expression T | "[" Sequence
Postfixes  = (("(" | "?(") Sequence | ("[" | "?[") Expression T | ("." | "?.") name)*
Sequence   = Expression ("," Expression)* C
```

`T` is a comma, a closing delimiter of whatever kind, or the end, and `C` is
the same without the comma (`Terminates`). The end is the next reserved word or
the end of input. It is not taken, so it ends all that is open at once.

`Derives category kinds rest` says that what stands in front of `rest` in
`kinds` is of the category. There is a constructor for every alternative above,
and one more for every repetition.
-/

set_option autoImplicit false

namespace ExprFrontEnd

/-- The categories of the grammar. -/
inductive Category where
  | program
  | statement
  | expression
  /-- Operators, each with its right operand. -/
  | operations
  | operand
  | primary
  /-- Calls, indexes and members. -/
  | postfixes
  | sequence
  deriving DecidableEq, Repr

/-- A terminator of some kind is in front of what is left, or it is the end,
which is left where it is. -/
inductive Terminates : TerminatorKind → List TokenKind → List TokenKind → Prop where
  | symbol {s : Symbol} {kind : TerminatorKind} (h : TerminatorKind.ofKind? (.symbol s) = some kind)
      (rest : List TokenKind) : Terminates kind (.symbol s :: rest) rest
  | boundary {kind : TokenKind} (h : Cursor.isBoundary kind = true) (rest : List TokenKind) :
      Terminates .eof (kind :: rest) (kind :: rest)

/-- What stands in front of the rest of some tokens is of a category. -/
inductive Derives : Category → List TokenKind → List TokenKind → Prop where
  | done (rest : List TokenKind) : Derives .program rest rest
  | more {kinds kinds' rest : List TokenKind} (first : Derives .statement kinds kinds')
      (others : Derives .program kinds' rest) : Derives .program kinds rest
  | declared (exported : Bool) (b : Binding) (name : String) (rest : List TokenKind) :
      Derives .statement
        (flag exported .exporting ++ .keyword .declaring :: .keyword b.keyword
          :: .identifier name :: rest) rest
  | initialized (exported : Bool) (b : Binding) (name : String) {kind : TerminatorKind}
      {kinds kinds' rest : List TokenKind} (init : Derives .expression kinds kinds')
      (ends : Terminates kind kinds' rest) :
      Derives .statement
        (flag exported .exporting ++ .keyword b.keyword :: .identifier name
          :: .symbol .equals :: kinds) rest
  | function (exported declared : Bool) (name : String) (rest : List TokenKind) :
      Derives .statement
        (flag exported .exporting ++ (flag declared .declaring ++ .keyword .fn
          :: .identifier name :: rest)) rest
  | functionOf (exported declared : Bool) (name : String) (params : List String)
      (rest : List TokenKind) :
      Derives .statement
        (flag exported .exporting ++ (flag declared .declaring ++ .keyword .fn
          :: .identifier name :: .symbol .openParen
          :: (commas (params.map fun p => [.identifier p]) ++ .symbol .closeParen :: rest))) rest
  | returning (rest : List TokenKind) : Derives .statement (.keyword .returning :: rest) rest
  | returningOf {kind : TerminatorKind} {kinds kinds' rest : List TokenKind}
      (arg : Derives .expression kinds kinds') (ends : Terminates kind kinds' rest) :
      Derives .statement (.keyword .returning :: kinds) rest
  | expression {kinds kinds' rest : List TokenKind} (first : Derives .operand kinds kinds')
      (others : Derives .operations kinds' rest) : Derives .expression kinds rest
  | noOperation (rest : List TokenKind) : Derives .operations rest rest
  | operation (op : BinaryOp) {kinds kinds' rest : List TokenKind}
      (right : Derives .operand kinds kinds') (others : Derives .operations kinds' rest) :
      Derives .operations (.symbol op.symbol :: kinds) rest
  | signed (op : UnaryOp) {kinds rest : List TokenKind} (arg : Derives .operand kinds rest) :
      Derives .operand (.symbol op.symbol :: kinds) rest
  | bare {kinds kinds' rest : List TokenKind} (primary : Derives .primary kinds kinds')
      (postfixes : Derives .postfixes kinds' rest) : Derives .operand kinds rest
  | number (value : Binary64) (rest : List TokenKind) :
      Derives .primary (.number value :: rest) rest
  | string (value : String) (rest : List TokenKind) :
      Derives .primary (.string value :: rest) rest
  | name (name : String) (rest : List TokenKind) :
      Derives .primary (.identifier name :: rest) rest
  | group {kind : TerminatorKind} {kinds kinds' rest : List TokenKind}
      (inner : Derives .expression kinds kinds') (ends : Terminates kind kinds' rest) :
      Derives .primary (.symbol .openParen :: kinds) rest
  | array {kinds rest : List TokenKind} (elems : Derives .sequence kinds rest) :
      Derives .primary (.symbol .openBracket :: kinds) rest
  | noPostfix (rest : List TokenKind) : Derives .postfixes rest rest
  | call (optional : Bool) {kinds kinds' rest : List TokenKind}
      (args : Derives .sequence kinds kinds') (others : Derives .postfixes kinds' rest) :
      Derives .postfixes (.symbol (AccessorKind.call.symbol optional) :: kinds) rest
  | index (optional : Bool) {kind : TerminatorKind} {kinds kinds' kinds'' rest : List TokenKind}
      (inner : Derives .expression kinds kinds') (ends : Terminates kind kinds' kinds'')
      (others : Derives .postfixes kinds'' rest) :
      Derives .postfixes (.symbol (AccessorKind.index.symbol optional) :: kinds) rest
  | member (optional : Bool) (name : String) {kinds rest : List TokenKind}
      (others : Derives .postfixes kinds rest) :
      Derives .postfixes
        (.symbol (AccessorKind.member.symbol optional) :: .identifier name :: kinds) rest
  | last {kind : TerminatorKind} {kinds kinds' rest : List TokenKind}
      (item : Derives .expression kinds kinds') (ends : Terminates kind kinds' rest)
      (hkind : kind ≠ .comma) : Derives .sequence kinds rest
  | separated {kinds kinds' rest : List TokenKind}
      (item : Derives .expression kinds (.symbol .comma :: kinds'))
      (others : Derives .sequence kinds' rest) : Derives .sequence kinds rest

/-! ### First tokens -/

/-- A statement starts with a reserved word. -/
theorem Derives.exists_keyword {kinds rest : List TokenKind} (h : Derives .statement kinds rest) :
    ∃ word kinds', kinds = .keyword word :: kinds' := by
  cases h with
  | declared exported b name => cases exported <;> exact ⟨_, _, rfl⟩
  | initialized exported b name => cases exported <;> exact ⟨_, _, rfl⟩
  | function exported declared name => cases exported <;> cases declared <;> exact ⟨_, _, rfl⟩
  | functionOf exported declared name params =>
    cases exported <;> cases declared <;> exact ⟨_, _, rfl⟩
  | returning => exact ⟨_, _, rfl⟩
  | returningOf arg ends => exact ⟨_, _, rfl⟩

/-- Statements up to the end of the input start with a reserved word, or there
are none. -/
theorem Derives.exists_boundary {kinds : List TokenKind} (h : Derives .program kinds [.eof]) :
    ∃ k kinds', kinds = k :: kinds' ∧ Cursor.isBoundary k = true := by
  cases h with
  | done => exact ⟨_, _, rfl, rfl⟩
  | more first others =>
    obtain ⟨word, kinds', rfl⟩ := first.exists_keyword
    exact ⟨_, _, rfl, rfl⟩

/-- An expression starts with a token that neither ends one nor starts a
statement. -/
theorem Derives.exists_opening {kinds rest : List TokenKind}
    (h : Derives .expression kinds rest) :
    ∃ k kinds', kinds = k :: kinds' ∧
      ((TerminatorKind.ofKind? k).isSome || k.startsStatement) = false := by
  cases h with
  | expression first others =>
    -- By the rules for an operand, each of which has a first token.
    cases first with
    | signed op arg => exact ⟨_, _, rfl, by cases op <;> rfl⟩
    | bare primary postfixes =>
      cases primary with
      | number value => exact ⟨_, _, rfl, rfl⟩
      | string value => exact ⟨_, _, rfl, rfl⟩
      | name name => exact ⟨_, _, rfl, rfl⟩
      | group inner ends => exact ⟨_, _, rfl, rfl⟩
      | array elems => exact ⟨_, _, rfl, rfl⟩

end ExprFrontEnd
