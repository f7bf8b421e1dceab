import ExprFrontEnd.Toml.Scalar
import ExprFrontEnd.Toml.Table

/-!
# `ExprFrontEnd.Toml.Read`: TOML documents

`Toml.read?` reads a TOML 1.0 document as a table. It says no to a text that breaks the grammar or
that defines a key or a table twice or nests deeper than `nestingLimit`, without saying why.
-/

set_option autoImplicit false

namespace ExprFrontEnd.Toml

mutual

/-- Reads a value in which at most `room` arrays and tables between braces are open at a time. -/
def value : Nat → Nat → Reader Node
  | 0, _, _ => none
  | fuel + 1, room, cs =>
    match cs with
    | '"' :: _ => (quotedText cs).map fun (text, rest) => (.text text, rest)
    | '\'' :: _ => (quotedText cs).map fun (text, rest) => (.text text, rest)
    | '[' :: rest =>
      match room with
      | 0 => none
      | room + 1 => (arrayItems fuel room rest).map fun (items, rest) => (.array items, rest)
    | '\x7b' :: rest =>
      match room with
      | 0 => none
      | room + 1 =>
        match skipBlanks rest with
        | '\x7d' :: rest => some (.inline [], rest)
        | rest => (inlinePairs fuel room [] rest).map fun (t, rest) => (.inline t, rest)
    | 't' :: 'r' :: 'u' :: 'e' :: rest => some (.other, rest)
    | 'f' :: 'a' :: 'l' :: 's' :: 'e' :: rest => some (.other, rest)
    | cs =>
      if looksLikeDate cs then (dateTime cs).map fun rest => (.date, rest)
      else (number cs).map fun rest => (.other, rest)

/-- Reads the items of an array and its closing bracket. A comma may stand behind the last one. -/
def arrayItems : Nat → Nat → Reader (List Node)
  | 0, _, _ => none
  | fuel + 1, room, cs =>
    match skipLines cs.length cs with
    | ']' :: rest => some ([], rest)
    | cs => do
      let (item, rest) ← value fuel room cs
      match skipLines rest.length rest with
      | ',' :: rest =>
        let (items, rest) ← arrayItems fuel room rest
        return (item :: items, rest)
      | ']' :: rest => return ([item], rest)
      | _ => none

/-- Reads the pairs of a table between braces and its closing brace. -/
def inlinePairs : Nat → Nat → Table → Reader Table
  | 0, _, _, _ => none
  | fuel + 1, room, t, cs => do
    let ((path, key), rest) ← dottedKey cs
    let rest ← char '=' rest
    let (node, rest) ← value fuel room (skipBlanks rest)
    let t ← t.addPair path key node
    match skipBlanks rest with
    | ',' :: rest => inlinePairs fuel room t rest
    | '\x7d' :: rest => some (t, rest)
    | _ => none

end

/-- A document that is read in part: what it defines, and the header that new pairs belong to. -/
structure Partial where
  root : Table
  header : List String

/-- Reads one line, or several if a value extends over them, and gives the text behind. -/
def line (d : Partial) (cs : List Char) : Option (Partial × List Char) :=
  match skipBlanks cs with
  | '[' :: '[' :: rest => do
    let ((path, key), rest) ← dottedKey rest
    let rest ← endOfLine (← char ']' (← char ']' rest))
    let root ← d.root.startElement path key
    return (⟨root, path ++ [key]⟩, rest)
  | '[' :: rest => do
    let ((path, key), rest) ← dottedKey rest
    let rest ← endOfLine (← char ']' rest)
    let root ← d.root.startTable path key
    return (⟨root, path ++ [key]⟩, rest)
  | cs =>
    match endOfLine cs with
    | some rest => some (d, rest)
    | none => do
      let ((path, key), rest) ← dottedKey cs
      let rest ← char '=' rest
      let (node, rest) ← value rest.length nestingLimit (skipBlanks rest)
      let rest ← endOfLine rest
      let root ← d.root.addBelow d.header path key node
      return (⟨root, d.header⟩, rest)

/-- Reads the lines up to the end of the text; every line takes at least one character. -/
def linesUpTo : Nat → Partial → List Char → Option Table
  | _, d, [] => some d.root
  | 0, _, _ => none
  | fuel + 1, d, cs => do
    let (d, rest) ← line d cs
    linesUpTo fuel d rest

/-- The table that a document defines. A byte order mark in front of it is skipped. -/
def read? (text : String) : Option Table :=
  let cs := match text.toList with
    | '\uFEFF' :: rest => rest
    | cs => cs
  linesUpTo cs.length ⟨[], []⟩ cs

end ExprFrontEnd.Toml
