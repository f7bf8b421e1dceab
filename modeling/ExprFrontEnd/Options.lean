import ExprFrontEnd.Grouping
import ExprFrontEnd.Toml.Read

/-!
# `ExprFrontEnd.Options`: options of the parser

The one option is the mode of reduction. Whatever reads options takes the reader of their text as an
argument (`Options.Reader`), so nothing that is said about it depends on the format of the text.

The program reads the text as a TOML document (`Options.mode?`) that may set the mode as the key
`reduction` of the table `parser`; what else there is in the document is of no concern.
Both levels can be written in more than one form. The options may be a list, whose first item is the
mode, and the mode may be a table, whose only key is the name of the mode (`Options.modeOf?`,
`Options.modeOfParser?`).
-/

set_option autoImplicit false

namespace ExprFrontEnd

/-- The mode of reduction where nothing else is said. -/
def Reduction.standard : Reduction := .singleStep

/-- A reader of texts of options: the mode that a text sets, or nothing if the text is faulty. -/
abbrev Options.Reader := String → Option Reduction

namespace Toml.Node

/-- Whether a value is a list or a table with nothing in it. -/
def isVoid : Toml.Node → Bool
  | .array items => items.isEmpty
  | .inline entries => entries.isEmpty
  | .table _ _ entries => entries.isEmpty
  | _ => false

end Toml.Node

namespace Options

/-- The mode that the entries of a table stand for: the name of the only key, behind which there is
nothing. -/
def modeOfEntries? : Toml.Table → Option Reduction
  | [(name, inner)] => if inner.isVoid then Reduction.ofName? name else none
  | _ => none

/-- The mode that a value stands for: a text is its name. -/
def modeOf? : Toml.Node → Option Reduction
  | .text name => Reduction.ofName? name
  | .inline entries => modeOfEntries? entries
  | .table _ _ entries => modeOfEntries? entries
  | _ => none

/-- The mode that a table of parser options sets. -/
def modeOfTable? (parser : Toml.Table) : Option Reduction :=
  match parser.find? "reduction" with
  | none => some .standard
  | some node => modeOf? node

/-- The mode that parser options set. A table has it as a key, a list as its first item, and a date
counts as a table that does not set it. -/
def modeOfParser? : Toml.Node → Option Reduction
  | .inline parser => modeOfTable? parser
  | .table _ _ parser => modeOfTable? parser
  | .date => some .standard
  | .array [] => some .standard
  | .array (mode :: _) => modeOf? mode
  | .tables before last => modeOfEntries? (before.headD last)
  | .text _ => none
  | .other => none

/-- The reader of TOML documents. -/
def mode? : Reader := fun text => do
  let table ← Toml.read? text
  match table.find? "parser" with
  | none => some .standard
  | some parser => modeOfParser? parser

end Options

end ExprFrontEnd
