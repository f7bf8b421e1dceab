import ExprFrontEnd.Text.Utf8

/-!
# `ExprFrontEnd.Lines`: offsets as lines and columns

A `LineIndex` holds the lines of a source text with the offsets at which they start. Only the line
feed ends a line; a text that ends in one has an empty last line. `LineIndex.position` turns an
offset into a line and a column, both counted from one, the column in bytes; an offset behind the
text counts as the text's end.
-/

set_option autoImplicit false

namespace ExprFrontEnd

/-- A line of a text: the offset of its first byte, and its characters without the line feed. -/
structure Line where
  start : Nat
  text : List Char
  deriving DecidableEq, Repr

/-- The lines of a text that starts at an offset. There is always one. -/
def splitLines (offset : Nat) : List Char → Line × List Line
  | [] => (⟨offset, []⟩, [])
  | c :: cs =>
    if c = '\n' then
      let (line, lines) := splitLines (offset + 1) cs
      (⟨offset, []⟩, line :: lines)
    else
      let (line, lines) := splitLines (offset + c.utf8Size) cs
      (⟨offset, c :: line.text⟩, lines)

/-- A line and a column, counted from one. -/
structure Position where
  line : Nat
  column : Nat
  deriving DecidableEq, Repr

/-- The lines of a source text: the first, those behind it, and the length of the text in bytes. -/
structure LineIndex where
  head : Line
  tail : List Line
  length : Nat
  deriving DecidableEq, Repr

namespace LineIndex

/-- The lines of a source text. -/
def ofSource (source : String) : LineIndex :=
  let (head, tail) := splitLines 0 source.toList
  ⟨head, tail, source.utf8ByteSize⟩

/-- The number of the line that an offset lies in, counted from `n`, and that line. -/
def locate (offset n : Nat) (line : Line) : List Line → Nat × Line
  | [] => (n, line)
  | next :: lines => if next.start ≤ offset then locate offset (n + 1) next lines else (n, line)

/-- The line that an offset lies in, counted from one. -/
def lineAt (index : LineIndex) (offset : Nat) : Nat × Line :=
  locate (min offset index.length) 1 index.head index.tail

/-- The line and the column of an offset. -/
def position (index : LineIndex) (offset : Nat) : Position :=
  let (n, line) := index.lineAt offset
  ⟨n, min offset index.length - line.start + 1⟩

end LineIndex

/-- The number of lines of a text; a final line feed ends the last line and starts no other. -/
def lineCount (cs : List Char) : Nat :=
  cs.count '\n' + if cs.getLast?.all (· == '\n') then 0 else 1

end ExprFrontEnd
