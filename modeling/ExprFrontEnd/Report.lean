import ExprFrontEnd.Lines
import ExprFrontEnd.Problem

/-!
# `ExprFrontEnd.Report`: diagnostics for people to read

A diagnostic is rendered as a header, the source line that it starts in, and a row of carets below
the part of the line that it covers; each label adds a line. A diagnostic that goes beyond its line
is underlined to the end of the line, and an empty one by a single caret.
-/

set_option autoImplicit false

namespace ExprFrontEnd

/-- The text of a line without the carriage returns at its end. -/
def Line.printed (l : Line) : List Char :=
  (l.text.reverse.dropWhile (· == '\r')).reverse

namespace Diagnostic

/-- A place in words. -/
def placeText (path : String) (p : Position) : String :=
  path ++ ":" ++ toString p.line ++ ":" ++ toString p.column

/-- A line number, filled up with blanks to a width of four. -/
def lineNumber (n : Nat) : String :=
  let digits := toString n
  String.ofList (List.replicate (4 - digits.length) ' ') ++ digits

/-- How many carets underline a diagnostic that starts at one place and stops at another, in a line
of so many bytes. -/
def caretCount (start stop : Position) (length : Nat) : Nat :=
  if stop.line = start.line then max (stop.column - start.column) 1
  else max (length + 1 - start.column) 1

/-- The lines of a rendered diagnostic. -/
def renderLines (path : String) (index : LineIndex) (d : Diagnostic) : List String :=
  let start := index.position d.span.start
  let text := (index.lineAt d.span.start).2.printed
  let carets := caretCount start (index.position d.span.stop) (byteLength text)
  [ "error[" ++ d.code ++ "] " ++ placeText path start ++ " " ++ d.message,
    lineNumber start.line ++ " | " ++ String.ofList text,
    "     | " ++ String.ofList (List.replicate (start.column - 1) ' ')
      ++ String.ofList (List.replicate carets '^') ]
    ++ d.labels.map fun l =>
      "  note: " ++ l.message ++ " at " ++ placeText path (index.position l.span.start)

/-- A rendered diagnostic. -/
def render (path source : String) (d : Diagnostic) : String :=
  "\n".intercalate (d.renderLines path (.ofSource source))

/-- Rendered diagnostics, one below the other. -/
def renderAll (path source : String) (ds : List Diagnostic) : String :=
  "\n".intercalate (ds.flatMap (renderLines path (.ofSource source)))

end Diagnostic

end ExprFrontEnd
