import TdSyntax.Include.Graph

/-!
# Logs

What happens while a graph of files is loaded.  A log is read off the graph, so
loading itself keeps none, and how much of it is shown depends on how often the
user asked for more.
-/

namespace TdSyntax.Command

inductive LogLevel where
  | warn
  | info
  | debug
  deriving DecidableEq, Repr

namespace LogLevel

def label : LogLevel → String
  | .warn => "WARN"
  | .info => "INFO"
  | .debug => "DEBUG"

/-- How often more has to be asked for before a level is shown. -/
def threshold : LogLevel → Nat
  | .warn => 0
  | .info => 1
  | .debug => 2

end LogLevel

inductive LogEvent where
  | unresolved (includer : Path) (error : ResolveError)
  | loaded (path : Path)
  | finished (fileCount : Nat)
  deriving DecidableEq, Repr

namespace LogEvent

def level : LogEvent → LogLevel
  | .unresolved _ _ => .warn
  | .loaded _ => .debug
  | .finished _ => .info

def target : LogEvent → String
  | .unresolved _ _ => "tablegen_db"
  | .loaded _ => "tablegen_db"
  | .finished _ => "tablegen"

def message : LogEvent → String
  | .unresolved includer error => error.title ++ " from=" ++ includer.toString
  | .loaded path => "loaded include path=" ++ path.toString
  | .finished count => "loaded include graph files=" ++ toString count

/-- What came of an include statement, if it is worth an event. -/
def ofInclusion? (graph : IncludeGraph) (inclusion : Inclusion) : Option LogEvent :=
  match inclusion.outcome with
  | .failed error =>
      (graph.file? inclusion.source).map fun file => .unresolved file.path error
  | .reached target true => (graph.file? target).map fun file => .loaded file.path
  | .reached _ false => none

def ofGraph (graph : IncludeGraph) : List LogEvent :=
  graph.inclusions.filterMap (ofInclusion? graph) ++ [.finished graph.files.length]

def isShown (verbosity : Nat) (event : LogEvent) : Bool := event.level.threshold ≤ verbosity

end LogEvent

end TdSyntax.Command
