import ExprFrontEnd.Decimal.Layout

/-!
# `ExprFrontEnd.Document`: structured output

A `Document` is what the program prints: values, lists and records whose fields keep their order. It
is written in JSON notation, either on one line (`Document.compact`) or with one value a line and an
indent of two blanks a level (`Document.pretty`). Infinity has no notation in JSON and is written as
a missing value.
-/

set_option autoImplicit false

namespace ExprFrontEnd

/-- A structured value. -/
inductive Document where
  | missing
  | flag (value : Bool)
  | count (value : Nat)
  | number (value : Binary64)
  | text (value : String)
  | list (items : List Document)
  | record (fields : List (String × Document))

namespace Document

/-- The document of an optional value. -/
def ofOption {α : Type} (f : α → Document) (o : Option α) : Document := o.elim missing f

/-- The document of a list of values. -/
def ofList {α : Type} (f : α → Document) (xs : List α) : Document := list (xs.map f)

/-- The form of a character inside a text. Only the quote, the backslash and the controls below the
blank are escaped. -/
def escapeChar (c : Char) : List Char :=
  match c with
  | '"' => ['\\', '"']
  | '\\' => ['\\', '\\']
  | '\n' => ['\\', 'n']
  | '\r' => ['\\', 'r']
  | '\t' => ['\\', 't']
  | '\x08' => ['\\', 'b']
  | '\x0c' => ['\\', 'f']
  | c =>
    if c.toNat < 0x20 then
      ['\\', 'u', '0', '0', Nat.digitChar (c.toNat / 16), Nat.digitChar (c.toNat % 16)]
    else [c]

/-- A text in quotes. -/
def quote (s : String) : String := String.ofList ('"' :: s.toList.flatMap escapeChar ++ ['"'])

/-- A number, or a missing value if it is infinite. -/
def numberText (x : Binary64) : String :=
  if x.isInfinite then "null" else x.render .document

mutual

/-- A document on one line. -/
def compact : Document → String
  | missing => "null"
  | flag b => if b then "true" else "false"
  | count n => toString n
  | number x => numberText x
  | text s => quote s
  | list items => "[" ++ ",".intercalate (compactItems items) ++ "]"
  | record fields => "\x7b" ++ ",".intercalate (compactFields fields) ++ "\x7d"

/-- The items of a list, each on one line. -/
def compactItems : List Document → List String
  | [] => []
  | d :: ds => d.compact :: compactItems ds

/-- The fields of a record, each on one line. -/
def compactFields : List (String × Document) → List String
  | [] => []
  | (name, d) :: fields => (quote name ++ ":" ++ d.compact) :: compactFields fields

end

/-- Lines between brackets, with commas between them, at a level of indentation. -/
def block (opening closing : String) (level : Nat) (items : List String) : String :=
  if items.isEmpty then opening ++ closing
  else
    let newline := "\n" ++ String.ofList (List.replicate (2 * level) ' ')
    let inner := newline ++ "  "
    opening ++ inner ++ ("," ++ inner).intercalate items ++ newline ++ closing

mutual

/-- A document over several lines, at a level of indentation. -/
def prettyAt (level : Nat) : Document → String
  | list items => block "[" "]" level (prettyItems (level + 1) items)
  | record fields => block "\x7b" "\x7d" level (prettyFields (level + 1) fields)
  | missing => "null"
  | flag b => if b then "true" else "false"
  | count n => toString n
  | number x => numberText x
  | text s => quote s

/-- The items of a list at a level of indentation. -/
def prettyItems (level : Nat) : List Document → List String
  | [] => []
  | d :: ds => d.prettyAt level :: prettyItems level ds

/-- The fields of a record at a level of indentation. -/
def prettyFields (level : Nat) : List (String × Document) → List String
  | [] => []
  | (name, d) :: fields => (quote name ++ ": " ++ d.prettyAt level) :: prettyFields level fields

end

/-- A document over several lines. -/
def pretty (d : Document) : String := d.prettyAt 0

end Document

end ExprFrontEnd
