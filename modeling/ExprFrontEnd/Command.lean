import ExprFrontEnd.Document.Views
import ExprFrontEnd.Files.Target
import ExprFrontEnd.Log.Filter
import ExprFrontEnd.Log.Line
import ExprFrontEnd.Options
import ExprFrontEnd.Report
import ExprFrontEnd.Source

/-!
# `ExprFrontEnd.Command`: the command line

The commands `parse`, `expr` and `lex` print what they find in a source as a document on the
standard output, and its diagnostics on the standard error output. A run succeeds if there are none.
The log goes to the standard error output as well.

Commands are functions of a `Disk` and of a reader of options, so a run (`runCommandLine`), which
reads options as TOML, is a function of the disk, the environment and the arguments.
-/

set_option autoImplicit false

namespace ExprFrontEnd

/-! ### Jobs on a disk -/

/-- Work that leaves a trace and may fail. -/
abbrev Job (α : Type) := ExceptT Failure (StateM (List Event)) α

namespace Job

/-- Adds events to the trace. -/
def log (events : List Event) : Job Unit := modify (· ++ events)

/-- The text of a file. -/
def readText (d : Disk) (p : Path) : Job String :=
  match d.readText p with
  | .ok text => return text
  | .error reason => throw (.unreadable reason)

/-- The mode that a file of options sets. -/
def readOptions (d : Disk) (p : Path) (read : Options.Reader := Options.mode?) :
    Job Reduction := do
  match read (← readText d p) with
  | some mode => return mode
  | none => throw (.invalidOptions p)

/-- The mode that applies to a path. -/
def loadOptions (d : Disk) (start : Path) (read : Options.Reader := Options.mode?) :
    Job Reduction := do
  match d.findConfig? start with
  | none => return .standard
  | some config =>
    log [.loadingOptions config.text]
    readOptions d config read

end Job

/-! ### Files -/

/-- A parsed source file. -/
structure ParsedFile where
  path : String
  source : String
  statements : List Stmt
  diagnostics : List Diagnostic

namespace ParsedFile

/-- A source text as a file. -/
def ofSource (path source : String) (p : ParsedProgram) : ParsedFile :=
  ⟨path, source, p.statements, p.diagnostics⟩

/-- Whether a file has diagnostics; all of them are errors. -/
def hasErrors (f : ParsedFile) : Bool := !f.diagnostics.isEmpty

/-- The diagnostics for people to read. -/
def rendered (f : ParsedFile) : String := Diagnostic.renderAll f.path f.source f.diagnostics

/-- The document of a parsed file. -/
def toDocument (f : ParsedFile) : Document :=
  .record [("path", .text f.path), ("statements", .ofList Stmt.toDocument f.statements),
    ("diagnostics", .ofList Diagnostic.toDocument f.diagnostics)]

end ParsedFile

/-- A source file as tokens. -/
structure LexedFile where
  path : String
  source : String
  lexed : Lexed

namespace LexedFile

/-- The diagnostics of the file. -/
def diagnostics (f : LexedFile) : List Diagnostic := f.lexed.issues.map Issue.toDiagnostic

/-- The document of a file as tokens. -/
def toDocument (f : LexedFile) : Document :=
  .record [("path", .text f.path), ("byte_count", .count f.source.utf8ByteSize),
    ("line_count", .count (lineCount f.source.toList)),
    ("tokens", .ofList SourceToken.toDocument f.lexed.sourceTokens),
    ("diagnostics", .ofList Diagnostic.toDocument f.diagnostics)]

end LexedFile

namespace Job

/-- Parses a source file. -/
def parseFile (d : Disk) (mode : Reduction) (p : Path) : Job ParsedFile := do
  let source ← readText d p
  let program := parseProgram mode source
  log program.trace
  return .ofSource p.text source program

/-- Parses the files of a target, up to the first that cannot be read. -/
def parseTarget (d : Disk) (mode : Reduction) (target : String) : Job (List ParsedFile) := do
  match d.expandTarget target with
  | .error failure => throw failure
  | .ok paths =>
    log [.parsingTarget target paths.length]
    paths.mapM (parseFile d mode)

/-- Reads a source file as tokens. -/
def lexFile (d : Disk) (p : Path) : Job LexedFile := do
  let source ← readText d p
  return ⟨p.text, source, lex source⟩

end Job

/-! ### Arguments -/

/-- What the program can do. -/
inductive Command where
  | help
  | parse (target : String) (mode : Option Reduction)
  | expr (source : String) (mode : Option Reduction)
  | lex (path : String)
  deriving DecidableEq, Repr

/-- The arguments behind the name of a command. -/
structure Arguments where
  positional : Option String
  mode : Option Reduction
  deriving DecidableEq, Repr

namespace Arguments

/-- Reads the arguments of a command from left to right; the first that makes no sense decides. -/
def read (command : String) : List String → Arguments → Except Failure Arguments
  | [], found => .ok found
  | arg :: rest, found =>
    if arg = "--reduction" then
      match rest with
      | [] => .error (.invalidCommand (command ++ ": --reduction expects a mode"))
      | name :: rest =>
        match Reduction.ofName? name with
        | none => .error (.invalidCommand (command ++ ": unknown reduction mode " ++ name))
        | some mode => read command rest { found with mode := some mode }
    else if ['-', '-'].isPrefixOf arg.toList then
      .error (.invalidCommand (command ++ ": unknown flag " ++ arg))
    else if found.positional.isSome then
      .error (.invalidCommand (command ++ ": unexpected argument " ++ arg))
    else read command rest { found with positional := some arg }

end Arguments

namespace Command

/-- The command of a command line. A command without its argument is a call for help. -/
def ofArgs : List String → Except Failure Command
  | [] => .ok help
  | "-h" :: _ => .ok help
  | "--help" :: _ => .ok help
  | "parse" :: rest => do
    let found ← Arguments.read "parse" rest ⟨none, none⟩
    return found.positional.elim help fun target => parse target found.mode
  | "expr" :: rest => do
    let found ← Arguments.read "expr" rest ⟨none, none⟩
    return found.positional.elim help fun source => expr source found.mode
  | "lex" :: rest => do
    let found ← Arguments.read "lex" rest ⟨none, none⟩
    if found.mode.isSome then
      throw (.invalidCommand "lex: --reduction only applies to parse and expr")
    return found.positional.elim help lex
  | name :: _ => .error (.invalidCommand name)

/-- The help text. -/
def helpText : String :=
  "esc\n\nUSAGE:\n  esc <COMMAND>\n\nCOMMANDS:\n" ++
  "  parse <path|dir/...> [--reduction single-step|cascading]\n" ++
  "  expr <source> [--reduction single-step|cascading]\n" ++
  "  lex <path>\n\n  -h, --help\n"

end Command

/-! ### Runs -/

/-- What a run prints, and whether it succeeds. -/
structure Output where
  exitCode : Nat
  stdout : String
  stderr : String
  deriving DecidableEq, Repr

namespace Output

/-- The output of a document, followed by rendered diagnostics if there are any. -/
def ofDocument (document : Document) (rendered : List String) : Output :=
  ⟨if rendered.isEmpty then 0 else 1, document.pretty ++ "\n",
    String.join (rendered.map (· ++ "\n"))⟩

end Output

namespace Job

/-- The mode of a command: what the command line says, or else the options. The options are read in
any case. -/
def modeFor (read : Options.Reader) (d : Disk) (start : Path) (mode : Option Reduction) :
    Job Reduction := do
  let standard ← loadOptions d start read
  return mode.getD standard

end Job

/-- The path whose options apply to a target. -/
def Path.ofTarget (target : String) : Path :=
  let base := (Disk.splitTarget target).1
  ⟨if base.isEmpty then "." else base⟩

/-- Carries out a command. -/
def Command.run (read : Options.Reader) (d : Disk) : Command → Job Output
  | .help => return ⟨0, Command.helpText, ""⟩
  | .parse target mode => do
    let mode ← Job.modeFor read d (.ofTarget target) mode
    let files ← Job.parseTarget d mode target
    return .ofDocument (.record [("files", .ofList ParsedFile.toDocument files)])
      ((files.filter ParsedFile.hasErrors).map ParsedFile.rendered)
  | .expr source mode => do
    let mode ← Job.modeFor read d d.workingPath mode
    let parsed := parseExpression mode source
    Job.log parsed.trace
    let diagnostics := parsed.diagnostics
    return .ofDocument parsed.expr.toDocument
      (if diagnostics.isEmpty then []
        else [Diagnostic.renderAll "<expr>" source diagnostics])
  | .lex path => do
    let file ← Job.lexFile d ⟨path⟩
    return .ofDocument file.toDocument
      (if file.diagnostics.isEmpty then []
        else [Diagnostic.renderAll file.path file.source file.diagnostics])

/-- The variables of the environment that the log depends on. -/
structure Environment where
  escLog : Option String
  rustLog : Option String
  logFormat : Option String
  deriving DecidableEq, Repr

namespace Environment

/-- The lines that are logged for a trace, after the notices of the filter. Nothing is logged unless
a filter is set. -/
def logLines (env : Environment) (trace : List Event) : List String :=
  match env.escLog.or env.rustLog with
  | none => []
  | some text =>
    let filter := Filter.ofText text
    let format := LogFormat.ofName (env.logFormat.getD "")
    Filter.notices text ++ (trace.filter filter.allows).map (Event.line format)

end Environment

/-- A run of the program: its log comes first on the standard error output, and a failure is
reported there. -/
def runCommandLine (env : Environment) (d : Disk) (args : List String) : Output :=
  let (result, trace) := match Command.ofArgs args with
    | .ok command => (command.run Options.mode? d).run.run []
    | .error failure => (.error failure, [])
  let log := String.join ((env.logLines trace).map (· ++ "\n"))
  match result with
  | .ok out => { out with stderr := log ++ out.stderr }
  | .error failure => ⟨1, "", log ++ failure.message ++ "\n"⟩

end ExprFrontEnd
