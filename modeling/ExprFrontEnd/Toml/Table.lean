/-!
# `ExprFrontEnd.Toml.Table`: tables that are being defined

A TOML document defines its tables bit by bit, and no key and no table may be defined twice. A
`Node.table` therefore remembers how it came about: whether a header has named it or it is only
implied by the header of a table inside of it or by a dotted key, and whether it was a dotted key
that created it.

* `Table.addPair` adds a key, possibly dotted, with its value;
* `Table.startTable` and `Table.startElement` begin the tables of headers `[name]` and `[[name]]`.
-/

set_option autoImplicit false

namespace ExprFrontEnd.Toml

/-- What a key stands for, or an item of an array. Of numbers, truth values and dates only the kind
is kept. -/
inductive Node where
  | text (value : String)
  /-- A number or a truth value. -/
  | other
  /-- A date, a time of day or both. -/
  | date
  | array (items : List Node)
  /-- A table between braces, complete and closed. -/
  | inline (entries : List (String × Node))
  | table (implied dotted : Bool) (entries : List (String × Node))
  /-- A row of tables, of which only the last can still grow. -/
  | tables (before : List (List (String × Node))) (last : List (String × Node))

/-- The keys of a table with what they stand for, in the order of their definition. -/
abbrev Table := List (String × Node)

namespace Table

/-- What a key stands for. -/
def find? (t : Table) (key : String) : Option Node := t.lookup key

/-- The table with a new meaning of a key that it has. -/
def replace (t : Table) (key : String) (node : Node) : Table :=
  t.map fun e => if e.1 = key then (key, node) else e

/-- Changes the table at the end of a path, creating the tables on the way that do not exist.
`change` is told whether a dotted key created the table. A path of a dotted key does not lead
through tables that a header has named. -/
def within (dotted : Bool) (change : Bool → Table → Option Table) :
    List String → Bool → Table → Option Table
  | [], isDotted, t => change isDotted t
  | key :: path, _, t =>
    match t.find? key with
    | none => do
      let inner ← within dotted change path dotted []
      return t ++ [(key, .table true dotted inner)]
    | some (.table implied isDotted inner) =>
      if dotted && !implied then none
      else do
        let inner ← within dotted change path isDotted inner
        return t.replace key (.table implied isDotted inner)
    | some (.tables before last) => do
      let last ← within dotted change path false last
      return t.replace key (.tables before last)
    | some _ => none

/-- Adds a key behind a dotted path, unless it is there already or the path leads into a table that
is no dotted key's. -/
def addPair (path : List String) (key : String) (node : Node) (t : Table) : Option Table :=
  within true (fun isDotted t =>
    if isDotted == path.isEmpty || (t.find? key).isSome then none else some (t ++ [(key, node)]))
    path false t

/-- Begins the table of a header. It must not have been defined, but may have been implied by the
header of a table inside of it. -/
def startTable (path : List String) (key : String) (t : Table) : Option Table :=
  within false (fun _ t =>
    match t.find? key with
    | none => some (t ++ [(key, .table false false [])])
    | some (.table true false inner) => some (t.replace key (.table false false inner))
    | some _ => none)
    path false t

/-- Begins the next table of a row of tables. -/
def startElement (path : List String) (key : String) (t : Table) : Option Table :=
  within false (fun _ t =>
    match t.find? key with
    | none => some (t ++ [(key, .tables [] [])])
    | some (.tables before last) => some (t.replace key (.tables (before ++ [last]) []))
    | some _ => none)
    path false t

/-- Adds a pair to the table of a header. -/
def addBelow (header path : List String) (key : String) (node : Node) (t : Table) :
    Option Table :=
  within false (fun _ t => addPair path key node t) header false t

end Table

end ExprFrontEnd.Toml
