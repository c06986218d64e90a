import TdSyntax.Include.Access

/-!
# Graphs of included files

The files that are reached from a root file, each of them once.  A graph lists
the files in the order in which they were found, and every include statement of
every file with what came of it.  Which files include which, and which
statements failed, is read off that list.
-/

namespace TdSyntax

/-- What an include statement leads to: a file of the graph, which it may be the
first to reach, or nothing. -/
inductive InclusionOutcome where
  | reached (target : Nat) (isNew : Bool)
  | failed (error : ResolveError)
  deriving DecidableEq, Repr

/-- An include statement of the file with the number `source`. -/
structure Inclusion where
  source : Nat
  directive : IncludeDirective
  outcome : InclusionOutcome
  deriving DecidableEq, Repr

namespace Inclusion

def target? (inclusion : Inclusion) : Option Nat :=
  match inclusion.outcome with
  | .reached target _ => some target
  | .failed _ => none

def diagnostic? (inclusion : Inclusion) : Option Diagnostic :=
  match inclusion.outcome with
  | .reached _ _ => none
  | .failed error => some ⟨.unresolved error, inclusion.directive.span⟩

end Inclusion

structure IncludeGraph where
  root : SourceFile
  others : List SourceFile
  inclusions : List Inclusion
  deriving DecidableEq, Repr

namespace IncludeGraph

def files (graph : IncludeGraph) : List SourceFile := graph.root :: graph.others

def file? (graph : IncludeGraph) (number : Nat) : Option SourceFile := graph.files[number]?

def includedBy (graph : IncludeGraph) (number : Nat) : List SourceFile :=
  let own := graph.inclusions.filter fun inclusion => inclusion.source == number
  (own.filterMap Inclusion.target?).filterMap graph.file?

def unresolved (graph : IncludeGraph) : List (SourceFile × Diagnostic) :=
  graph.inclusions.filterMap fun inclusion => do
    let file ← graph.file? inclusion.source
    let diagnostic ← inclusion.diagnostic?
    pure (file, diagnostic)

/-- All that is wrong with the files of a graph: file by file what is wrong with
it alone, and then what is wrong between them. -/
def check (graph : IncludeGraph) : Except Fault (List (SourceFile × Diagnostic)) := do
  let reports ← graph.files.mapM fun file => do
    pure ((← file.check).map fun diagnostic => (file, diagnostic))
  pure (reports.flatten ++ graph.unresolved)

end IncludeGraph

end TdSyntax
