import ExprFrontEnd.Files.Tree

/-!
# `ExprFrontEnd.Failure`: why a run of the program fails

A `Failure` is the reason why the program gives up. Faulty sources are not among the reasons: they
are parsed and their diagnostics are reported.
-/

set_option autoImplicit false

namespace ExprFrontEnd

/-- Why a run of the program fails. -/
inductive Failure where
  /-- A file cannot be read. -/
  | unreadable (reason : ReadError)
  /-- A target that leads to no source file, as it was given. -/
  | invalidTarget (target : String)
  /-- A file of options that is not one. -/
  | invalidOptions (path : Path)
  /-- A command line that makes no sense. -/
  | invalidCommand (text : String)
  deriving DecidableEq, Repr

namespace Failure

/-- A reason in words. -/
def message : Failure → String
  | unreadable reason => "IO error: " ++ reason.message
  | invalidTarget target => "Invalid path: " ++ target
  | invalidOptions path =>
    "Config error: failed to parse " ++ path.text ++ ": not a table of options"
  | invalidCommand text => "Invalid command: " ++ text

end Failure

end ExprFrontEnd
