import ExprFrontEnd.Files.Path

/-!
# `ExprFrontEnd.Files.Tree`: files and directories

An `Entry` is a regular file, a directory with named entries, in no particular order, or something
else, such as a pipe or a socket. A `Disk` is a directory tree together with the working directory.
`Disk.locate?` finds what a path leads to: components are followed one by one, each of them must be
entered from a directory, and a path that ends in a slash leads to a directory. Symbolic links do
not exist. Names and paths have a greatest length.
-/

set_option autoImplicit false

namespace ExprFrontEnd

/-- Why a file cannot be read. -/
inductive ReadError where
  | notFound
  | notADirectory
  | isADirectory
  | nameTooLong
  /-- There is nothing behind the entry that could be opened. -/
  | noDevice
  /-- The path has the character that ends paths. -/
  | terminatedName
  | invalidUtf8
  deriving DecidableEq, Repr

namespace ReadError

/-- A reason in words. -/
def message : ReadError → String
  | notFound => "No such file or directory (os error 2)"
  | notADirectory => "Not a directory (os error 20)"
  | isADirectory => "Is a directory (os error 21)"
  | nameTooLong => "File name too long (os error 36)"
  | noDevice => "No such device or address (os error 6)"
  | terminatedName => "file name contained an unexpected NUL byte"
  | invalidUtf8 => "stream did not contain valid UTF-8"

end ReadError

/-- What a name in a directory stands for. -/
inductive Entry where
  /-- A regular file with its bytes. -/
  | file (content : ByteArray)
  /-- A directory with its entries. -/
  | directory (entries : List (String × Entry))
  /-- Neither a regular file nor a directory: a pipe, a socket, a device. What reading it comes to
  is not settled by the tree. -/
  | special (outcome : Except ReadError ByteArray)

namespace Entry

/-- Whether an entry is a regular file. -/
def isFile : Entry → Bool
  | file _ => true
  | directory _ | special _ => false

/-- Whether an entry is a directory. -/
def isDirectory : Entry → Bool
  | directory _ => true
  | file _ | special _ => false

/-- The entry of a name in a directory. -/
def child? (name : String) : Entry → Option Entry
  | directory entries => entries.lookup name
  | file _ | special _ => none

/-- What a row of names leads to. -/
def descend? : List String → Entry → Option Entry
  | [], e => some e
  | name :: names, e => (e.child? name).bind (descend? names)

/-- The directory with an entry added or replaced. -/
def put (parent : Entry) (name : String) (e : Entry) : Entry :=
  match parent with
  | directory entries =>
    if (entries.lookup name).isSome then
      directory (entries.map fun p => if p.1 = name then (name, e) else p)
    else directory (entries ++ [(name, e)])
  | other => other

/-- The tree with an entry at a row of names; missing directories on the way are made. -/
def insert : Entry → List String → Entry → Entry
  | _, [], e => e
  | parent, name :: names, e =>
    parent.put name (((parent.child? name).getD (directory [])).insert names e)

/-- The tree without the entry at a row of names. -/
def erase : Entry → List String → Entry
  | e, [] => e
  | directory entries, [name] => directory (entries.filter fun p => p.1 != name)
  | directory entries, name :: names =>
    match entries.lookup name with
    | none => directory entries
    | some e => (directory entries).put name (e.erase names)
  | other, _ => other

end Entry

/-- A directory tree and the names that lead to the working directory. -/
structure Disk where
  root : Entry
  workingDirectory : List String

namespace Disk

/-- The greatest number of bytes of a component of a path. -/
def maxNameLength : Nat := 255

/-- The greatest number of bytes of a path. -/
def maxPathLength : Nat := 4095

/-- One component further along a path, from the place that the names lead to. -/
def step (d : Disk) (names : List String) (segment : List Char) :
    Except ReadError (List String) :=
  match d.root.descend? names with
  | none => .error .notFound
  | some (.file _) | some (.special _) => .error .notADirectory
  | some (.directory entries) =>
    if Path.isIdle segment then .ok names
    else if segment = ['.', '.'] then .ok names.dropLast
    else
      let name := String.ofList segment
      if maxNameLength < name.utf8ByteSize then .error .nameTooLong
      else if (entries.lookup name).isSome then .ok (names ++ [name])
      else .error .notFound

/-- The names that lead to the place of a path. -/
def names (d : Disk) (p : Path) : Except ReadError (List String) :=
  if p.text.toList.contains '\x00' then .error .terminatedName
  else if p.text.isEmpty then .error .notFound
  else if maxPathLength < p.text.utf8ByteSize then .error .nameTooLong
  else
    let start := if p.isAbsolute then [] else d.workingDirectory
    (Path.segments p.text.toList).foldlM d.step start

/-- What a path leads to. -/
def locate (d : Disk) (p : Path) : Except ReadError Entry := do
  let names ← d.names p
  match d.root.descend? names with
  | some e => return e
  | none => throw .notFound

/-- What a path leads to, if it leads to anything. -/
def locate? (d : Disk) (p : Path) : Option Entry := (d.locate p).toOption

/-- Whether a path leads to anything. -/
def existsAt (d : Disk) (p : Path) : Bool := (d.locate? p).isSome

/-- Whether a path leads to a regular file. -/
def isFile (d : Disk) (p : Path) : Bool := (d.locate? p).any Entry.isFile

/-- Whether a path leads to a directory. -/
def isDirectory (d : Disk) (p : Path) : Bool := (d.locate? p).any Entry.isDirectory

/-- The text of what a path leads to. -/
def readText (d : Disk) (p : Path) : Except ReadError String := do
  let content ← match ← d.locate p with
    | .file content => pure content
    | .directory _ => throw .isADirectory
    | .special outcome => outcome
  match String.fromUTF8? content with
  | some text => return text
  | none => throw .invalidUtf8

/-- The absolute path of the working directory. -/
def workingPath (d : Disk) : Path := ⟨"/" ++ "/".intercalate d.workingDirectory⟩

end Disk

end ExprFrontEnd
