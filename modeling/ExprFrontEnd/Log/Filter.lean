import ExprFrontEnd.Log.Directive

/-!
# `ExprFrontEnd.Log.Filter`: which events are logged

A filter is a text of directives with commas between them. Of the directives that apply to an event
the most specific one decides, and of equally specific ones the last. Directives that make no sense
are left out, each with a notice; if there is none left only errors are let through.
-/

set_option autoImplicit false

namespace ExprFrontEnd

/-- The directives of a filter, in the order of its text. -/
structure Filter where
  directives : List Directive
  deriving DecidableEq, Repr

namespace Filter

/-- The texts between the commas of a filter that are not empty. -/
def parts (text : String) : List (List Char) :=
  (text.toList.splitOn ',').filter fun part => !part.isEmpty

/-- A filter from its text. -/
def ofText (text : String) : Filter :=
  match (parts text).filterMap fun part => (Directive.ofText part).toOption with
  | [] => ⟨[⟨"", none, none, Level.error.detail⟩]⟩
  | directives => ⟨directives⟩

/-- The notice of a part of a filter that is left out. -/
def notice? (part : List Char) : Option String :=
  match Directive.ofText part with
  | .ok _ => none
  | .error fault => some ("ignoring `" ++ String.ofList part ++ "`: " ++ fault.message)

/-- The notices of the directives of a filter that make no sense. -/
def notices (text : String) : List String := (parts text).filterMap notice?

/-- The most specific directive, the last one of them if there are several. -/
def mostSpecific (ds : List Directive) : Option Directive :=
  ds.foldl (fun best d =>
    match best with
    | none => some d
    | some b => if b.isMoreSpecific d then some b else some d) none

/-- Whether a filter lets an event through. -/
def allows (f : Filter) (e : Event) : Bool :=
  match mostSpecific (f.directives.filter (·.appliesTo e)) with
  | none => false
  | some d => decide (e.level.detail ≤ d.detail)

end Filter

end ExprFrontEnd
