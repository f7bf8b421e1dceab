import ExprFrontEnd.Document
import ExprFrontEnd.Log.Event
import ExprFrontEnd.Text.Ascii

/-!
# `ExprFrontEnd.Log.Line`: how events are written

`Event.line` is the line that is written for an event: a record in JSON or plain text.
-/

set_option autoImplicit false

namespace ExprFrontEnd

/-- The forms of the log. -/
inductive LogFormat where
  | text
  | json
  deriving DecidableEq, Repr

namespace LogFormat

/-- The form with a name; case does not matter, and every name but one stands for plain text. -/
def ofName (name : String) : LogFormat :=
  if Text.asciiLower name.toList = ['j', 's', 'o', 'n'] then json else text

end LogFormat

namespace FieldValue

/-- The document of the value of a field. -/
def toDocument : FieldValue → Document
  | text value => .text value
  | count value => .count value

/-- The value of a field in plain text. -/
def toText : FieldValue → String
  | text value => value
  | count value => toString value

end FieldValue

namespace Event

/-- The record of an event. -/
def toDocument (e : Event) : Document :=
  .record [("level", .text e.level.label),
    ("fields", .record (("message", .text e.message)
      :: e.fields.map fun (name, value) => (name, value.toDocument))),
    ("target", .text e.target)]

/-- The line that is written for an event. -/
def line (format : LogFormat) (e : Event) : String :=
  match format with
  | .json => e.toDocument.compact
  | .text =>
    let fields := e.fields.map fun (name, value) => " " ++ name ++ "=" ++ value.toText
    e.level.label ++ " " ++ e.target ++ ": " ++ e.message ++ String.join fields

end Event

end ExprFrontEnd
