import ExprFrontEnd.Failure

/-!
# `ExprFrontEnd.Files.Target`: the files that a target stands for

A target is a file, a directory, which stands for the source files in it, or a directory followed by
`/...`, which stands for the source files at any depth below it. `Disk.expandTarget` lists them in
the order of paths. A target that does not lead anywhere is tried again below each directory above
the working directory that has options of its own.

`Disk.findConfig?` looks for the file of options that applies to a path: it goes up along the text
of the path, so what it finds depends on how the path is written.
-/

set_option autoImplicit false

namespace ExprFrontEnd

/-- The name of files of options. -/
def configName : String := "esc.toml"

/-- The extension of source files. -/
def sourceExtension : String := "esc"

namespace Path

/-- A path and the paths above it, the nearest first; at most as many as `fuel` says. -/
def ancestorsUpTo : Nat → Path → List Path
  | 0, _ => []
  | fuel + 1, p =>
    match p.parent? with
    | none => [p]
    | some q => p :: ancestorsUpTo fuel q

/-- A path and the paths above it, the nearest first. A parent has a shorter text. -/
def ancestors (p : Path) : List Path := ancestorsUpTo (p.text.length + 1) p

/-- Whether a path has the extension of source files. -/
def isSource (p : Path) : Bool := p.extension? == some sourceExtension.toList

/-- The path of the file of options in a directory. -/
def config (directory : Path) : Path := directory.join ⟨configName⟩

end Path

/-! ### Source files in a tree

Entries are looked up by their paths, not taken for what they are: a path that is too long leads
nowhere, and its entry is neither a file nor a directory to the one who asks. The two listings ask
different questions. Right inside of a directory an entry has to be a regular file; at any depth it
only must not be a directory, so pipes are listed there, and what cannot be looked up. -/

/-- The source files right inside of a directory. -/
def directSources (d : Disk) (place : Path) (entries : List (String × Entry)) : List Path :=
  (entries.map fun e => place.join ⟨e.1⟩).filter fun p => d.isFile p && p.isSource

mutual

/-- The source files at and below a path. -/
def Entry.sources (d : Disk) (place : Path) : Entry → List Path
  | .directory entries =>
    if d.isDirectory place then allSources d place entries
    else if place.isSource then [place] else []
  | .file _ | .special _ => if place.isSource then [place] else []

/-- The source files at any depth inside of a directory. -/
def allSources (d : Disk) (place : Path) : List (String × Entry) → List Path
  | [] => []
  | (name, e) :: entries => e.sources d (place.join ⟨name⟩) ++ allSources d place entries

end

namespace Disk

/-! ### Options -/

/-- The file of options that applies to a path. -/
def findConfig? (d : Disk) (start : Path) : Option Path :=
  let directory := if d.isFile start then start.parent? else some start
  directory.bind fun dir => (dir.ancestors.map Path.config).find? d.isFile

/-! ### Targets -/

/-- The path that a target without its ending leads to. -/
def resolveTarget? (d : Disk) (target : String) : Option Path :=
  if d.existsAt ⟨target⟩ then some ⟨target⟩
  else if (Path.mk target).isAbsolute then none
  else
    (d.workingPath.ancestors.filter fun dir => d.existsAt dir.config).findSome? fun dir =>
      let candidate := dir.join ⟨target⟩
      if d.existsAt candidate then some candidate else none

/-- The ending of targets that stand for files at any depth. -/
def recursiveEnding : List Char := ['/', '.', '.', '.']

/-- A target without the ending that makes it recursive, and whether it had one. What is left of the
ending alone is the working directory. -/
def splitTarget (target : String) : String × Bool :=
  let cs := target.toList
  if recursiveEnding.isSuffixOf cs then
    let base := cs.take (cs.length - recursiveEnding.length)
    (if base.isEmpty then "." else String.ofList base, true)
  else (target, false)

/-- The files that a path stands for, in no particular order. -/
def sourcesAt (d : Disk) (recursive : Bool) (p : Path) : List Path :=
  match d.locate? p with
  | some (.file _) => [p]
  | some (.directory entries) =>
    if recursive then allSources d p entries else directSources d p entries
  | some (.special _) | none => []

/-- The files that a target stands for, in the order of paths. There must be at least one. -/
def expandTarget (d : Disk) (target : String) : Except Failure (List Path) :=
  let (base, recursive) := splitTarget target
  match d.resolveTarget? base with
  | none => .error (.invalidTarget target)
  | some p =>
    match (d.sourcesAt recursive p).mergeSort Path.le with
    | [] => .error (.invalidTarget target)
    | paths => .ok paths

end Disk

end ExprFrontEnd
