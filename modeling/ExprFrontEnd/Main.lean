import ExprFrontEnd.Command

/-!
# `ExprFrontEnd.Main`: the program

Loads the part of the file system that a command can reach, hands it to `runCommandLine`, and prints
what comes out.
-/

set_option autoImplicit false

namespace ExprFrontEnd.Main

/-- The names that lead to an absolute path. -/
def namesOf (path : String) : List String :=
  (path.splitOn "/").filter fun s => !s.isEmpty

/-- Loads a file, or a directory to a depth. -/
def loadTo : Nat → String → IO (Option Entry)
  | depth, path => do
    try
      let real ← IO.FS.realPath ⟨path⟩
      match (← real.metadata).type with
      | .file => return some (.file (← IO.FS.readBinFile real))
      | .dir =>
        match depth with
        | 0 => return some (.directory [])
        | depth + 1 =>
          let mut entries := []
          for e in ← real.readDir do
            if let some entry ← loadTo depth e.path.toString then
              entries := (e.fileName, entry) :: entries
          return some (.directory entries)
      | .other =>
        -- Opening a pipe may wait for ever, so nothing of this kind is opened.
        return some (.special (.error .noDevice))
      | .symlink => return none
    catch _ => return none

/-- Adds what an absolute path leads to. A directory that is there already keeps its entries. -/
def addEntry (depth : Nat) (root : Entry) (path : String) : IO Entry := do
  try
    let real ← IO.FS.realPath ⟨path⟩
    let names := namesOf real.toString
    match ← loadTo depth path, root.descend? names with
    | some (.directory []), some (.directory _) => return root
    | some e, _ => return root.insert names e
    | none, _ => return root
  catch _ => return root

/-- The paths that lead to a path, from its first component to itself. -/
def stations (path : Path) : List String :=
  let parts := Path.segments path.text.toList
  (List.range parts.length).map fun n =>
    String.ofList (['/'].intercalate (parts.take (n + 1)))

/-- The path that a command leads to and the depth to which it looks below it. -/
def reach : Command → Option (Path × Nat)
  | .parse target _ =>
    let (base, isRecursive) := Disk.splitTarget target
    some (⟨base⟩, if isRecursive then 256 else 1)
  | .lex path => some (⟨path⟩, 0)
  | .expr _ _ | .help => none

/-- Loads what a command can reach: its path, below the working directory and below each directory
above it, and all files of options above them. -/
def loadDisk (command : Option Command) : IO Disk := do
  let working := (← IO.currentDir).toString
  let above := (Path.mk working).ancestors
  let mut root : Entry := .directory []
  let mut places := above
  if let some (path, depth) := command.bind reach then
    let targets := above.map fun dir => dir.join path
    places := above ++ targets
    for station in targets.flatMap stations do
      root ← addEntry 0 root station
    for target in targets do
      root ← addEntry depth root target.text
  for station in above.flatMap stations do
    root ← addEntry 0 root station
  for place in places.flatMap Path.ancestors do
    root ← addEntry 0 root place.config.text
  return ⟨root, namesOf working⟩

end ExprFrontEnd.Main

/-- Runs the command line of the process. -/
def main (args : List String) : IO UInt32 := do
  let env : ExprFrontEnd.Environment :=
    ⟨← IO.getEnv "ESC_LOG", ← IO.getEnv "RUST_LOG", ← IO.getEnv "ESC_LOG_FORMAT"⟩
  let disk ← ExprFrontEnd.Main.loadDisk (ExprFrontEnd.Command.ofArgs args).toOption
  let out := ExprFrontEnd.runCommandLine env disk args
  IO.print out.stdout
  IO.eprint out.stderr
  return UInt32.ofNat out.exitCode
