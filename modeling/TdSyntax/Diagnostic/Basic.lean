import TdSyntax.Diagnostic.Problem
import TdSyntax.Span

/-!
# Diagnostics

A diagnostic is a problem at a place of the source text.  Diagnostics of a file
are listed by where they start; those that start at one place keep the order in
which they were found.
-/

namespace TdSyntax

structure Diagnostic where
  problem : Problem
  span : Span
  deriving DecidableEq, Repr

namespace Diagnostic

def message (diagnostic : Diagnostic) : String := diagnostic.problem.message

def severity (diagnostic : Diagnostic) : Severity := diagnostic.problem.severity

def stage (diagnostic : Diagnostic) : Stage := diagnostic.problem.stage

def isError (diagnostic : Diagnostic) : Bool := diagnostic.severity == .error

/-- Orders diagnostics by their start and leaves ties as they are. -/
def sort (diagnostics : List Diagnostic) : List Diagnostic :=
  diagnostics.mergeSort fun first second => first.span.start ≤ second.span.start

def worst? (diagnostics : List Diagnostic) : Option Severity :=
  if diagnostics.any isError then some .error
  else if diagnostics.isEmpty then none
  else some .warning

def summary (diagnostic : Diagnostic) : String :=
  diagnostic.stage.label ++ "@" ++ diagnostic.span.render ++ " " ++
    diagnostic.severity.label ++ ": " ++ diagnostic.message

end Diagnostic

end TdSyntax
