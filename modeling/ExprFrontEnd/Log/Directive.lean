import ExprFrontEnd.Log.Event
import ExprFrontEnd.Log.Pattern
import ExprFrontEnd.Text.Blank
import ExprFrontEnd.Text.Utf8

/-!
# `ExprFrontEnd.Log.Directive`: the directives of a log filter

A directive says how much detail is logged: of everything (`debug`), of the parts of the program
whose names start with a target (`esc::surface=debug`), or of what has a field or happens inside of
a span (`esc[span{field=value}]=trace`).

`Directive.ofText` reads a directive, or says what is wrong with it. It looks for the marks `=`,
`[`, `]` and braces in the text without the blanks around it, and counts the bytes up to them. The
targets, names and levels between the marks are cut out of the whole text by these counts. So blanks
are never skipped: behind a text they belong to its last part, and in front of it they move all cuts
to the left.
-/

set_option autoImplicit false

namespace ExprFrontEnd

/-- Why a directive makes no sense. -/
inductive DirectiveFault where
  | malformed
  | unknownLevel
  | invalidField (fault : PatternFault)
  deriving DecidableEq, Repr

namespace DirectiveFault

/-- A fault in words. -/
def message : DirectiveFault → String
  | malformed => "invalid filter directive"
  | unknownLevel =>
    "error parsing level filter: expected one of \"off\", \"error\", \"warn\", \"info\", " ++
    "\"debug\", \"trace\", or a number 0-5"
  | invalidField fault => "invalid field filter: " ++ fault.message

end DirectiveFault

/-- What a directive asks of a field: that it is there, or that it has a value. -/
structure FieldTest where
  name : String
  value : Option String
  deriving DecidableEq, Repr

/-- What a directive applies to, and the greatest detail that it lets through. An empty target
stands for all parts of the program. -/
structure Directive where
  target : String
  span : Option String
  field : Option FieldTest
  detail : Nat
  deriving DecidableEq, Repr

/-! ### Levels -/

/-- The detail of all levels together. -/
def fullDetail : Nat := 5

/-- The number of a level: a sign and zeros in front do not matter. -/
def detailOfNumber? (cs : List Char) : Option Nat :=
  let digits := match cs with
    | '+' :: digits => digits
    | digits => digits
  if digits.isEmpty || !digits.all Char.isDigit then none
  else
    let n := digits.foldl (fun n c => 10 * n + (c.toNat - '0'.toNat)) 0
    if n ≤ fullDetail then some n else none

/-- The greatest detail of a level with a name; case does not matter. -/
def detailOfName? (cs : List Char) : Option Nat :=
  match String.ofList (Text.asciiLower cs) with
  | "off" => some 0
  | "error" => some 1
  | "warn" => some 2
  | "info" => some 3
  | "debug" => some 4
  | "trace" => some 5
  | _ => none

/-- The greatest detail of a level with a number or a name. -/
def detailOf? (cs : List Char) : Option Nat := (detailOfNumber? cs).or (detailOfName? cs)

/-! ### Reading -/

namespace FieldTest

/-- The test of a field with its name, or with its name, an equals sign and a value. -/
def ofText (cs : List Char) : Except PatternFault FieldTest :=
  match cs.splitOn '=' with
  | name :: value :: _ =>
    match Pattern.fault? value with
    | some fault => .error fault
    | none => .ok ⟨String.ofList name, some (String.ofList value)⟩
  | _ => .ok ⟨String.ofList cs, none⟩

end FieldTest

namespace Directive

/-- The level from a byte on, behind the equals sign. Without a name it lets through everything. -/
def levelFrom (text : List Char) (start : Nat) : Except DirectiveFault Nat :=
  match dropBytes start text with
  | [] => .ok fullDetail
  | name => (detailOf? name).elim (.error .unknownLevel) .ok

/-- The level behind the brackets, from the byte where they end. -/
def levelBehind (text : List Char) (start : Nat) :
    List Char → Except DirectiveFault Nat
  | [] => .ok fullDetail
  | '=' :: _ => levelFrom text (start + 1)
  | _ => .error .malformed

/-- The test of the field between two bytes. -/
def fieldBetween (text : List Char) (start stop : Nat) : Except DirectiveFault FieldTest :=
  match cutBytes start stop text with
  | [] => .error .malformed
  | field => (FieldTest.ofText field).mapError .invalidField

/-- Reads the brackets of a directive and what stands behind them, from the byte behind the opening
bracket on. -/
def withBrackets (text target : List Char) (start : Nat) (cs : List Char) :
    Except DirectiveFault Directive := do
  let isName := fun c => c != ']' && c != '\x7b'
  let stop := start + byteLength (cs.takeWhile isName)
  let span := cutBytes start stop text
  match cs.dropWhile isName with
  | ']' :: rest =>
    let detail ← levelBehind text (stop + 1) rest
    return ⟨String.ofList target, some (String.ofList span), none, detail⟩
  | '\x7b' :: rest =>
    let fieldStop := stop + 1 + byteLength (rest.takeWhile (· != '\x7d'))
    match rest.dropWhile (· != '\x7d') with
    | [] => throw .malformed
    | _ :: rest =>
      let field ← fieldBetween text (stop + 1) fieldStop
      match rest with
      | ']' :: rest =>
        let detail ← levelBehind text (fieldStop + 2) rest
        return ⟨String.ofList target, if span.isEmpty then none else some (String.ofList span),
          some field, detail⟩
      | _ => throw .malformed
  | _ => throw .malformed

/-- Whether a character may stand at the start of a target or level. -/
def startsName (c : Char) : Bool :=
  c == '-' || c == ':' || c == '_' || Text.isAlphanumeric c

/-- Reads a directive. A word that is no level is a target, of which everything is let through. -/
def ofText (text : List Char) : Except DirectiveFault Directive := do
  let isName := fun c => c != '=' && c != '['
  let cs := Text.trim text
  if cs.head?.any startsName then
    let stop := byteLength (cs.takeWhile isName)
    let target := cutBytes 0 stop text
    match cs.dropWhile isName with
    | '=' :: _ => return ⟨String.ofList target, none, none, ← levelFrom text (stop + 1)⟩
    | '[' :: rest => withBrackets text target (stop + 1) rest
    | _ =>
      match detailOf? text with
      | some detail => return ⟨"", none, none, detail⟩
      | none => return ⟨String.ofList text, none, none, fullDetail⟩
  else
    match cs with
    | '[' :: rest => withBrackets text [] 1 rest
    | _ => throw .malformed

/-! ### Events -/

/-- Whether a directive applies to an event. Events happen outside of all spans, and only the fields
of spans are asked for values. -/
def appliesTo (d : Directive) (e : Event) : Bool :=
  d.target.toList.isPrefixOf e.target.toList && d.span.isNone &&
    d.field.all fun f => f.value.isNone && e.fieldNames.contains f.name

/-- Whether the first of two directives that apply to an event is more specific: it has the longer
target, or the same one and a field, or the greater name of a field. -/
def isMoreSpecific (a b : Directive) : Bool :=
  decide (b.target.length < a.target.length) ||
    (a.target.length == b.target.length &&
      match a.field, b.field with
      | some f, some g => decide (g.name < f.name)
      | some _, none => true
      | none, _ => false)

end Directive

end ExprFrontEnd
