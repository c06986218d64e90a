import TdSyntax.Command.Help
import TdSyntax.Command.Listing
import TdSyntax.Command.Log
import TdSyntax.Diagnostic.Render
import TdSyntax.Include.FileTree

/-!
# Running a command

What a request leads to: the text for the standard output, the reports, the log
and the status.  A file that cannot be read ends the command.  A check fails
exactly if one of its reports is an error.
-/

namespace TdSyntax.Command

inductive Status where
  | success
  | failure
  | misuse
  deriving DecidableEq, Repr

def Status.code : Status → Nat
  | .success => 0
  | .failure => 1
  | .misuse => 2

/-- Something that a user is told besides the output asked for. -/
inductive Report where
  | diagnostic (file : SourceFile) (diagnostic : Diagnostic)
  | unreadable (path : Path) (cause : ReadError)
  | usage (error : UsageError)
  deriving DecidableEq, Repr

namespace Report

def unreadableTitle (path : Path) : String := "Error: failed to read `" ++ path.toString ++ "`"

def title? : Report → Option String
  | .diagnostic _ found => some found.title
  | .unreadable path _ => some (unreadableTitle path)
  | .usage _ => none

def lines : Report → List String
  | .diagnostic file found =>
      (found.render? file.path.toString file.text).getD [found.title]
  | .unreadable path cause =>
      [unreadableTitle path, "", "Caused by:", "    " ++ cause.message]
  | .usage error => ["error: " ++ error.message, "", "For more information, try '--help'."]

end Report

structure Outcome where
  status : Status
  output : Text
  reports : List Report
  log : List LogEvent
  deriving DecidableEq, Repr

namespace Outcome

def printed (lines : List Text) : Outcome :=
  ⟨.success, lines.flatMap (· ++ ['\n']), [], []⟩

def misused (error : UsageError) : Outcome := ⟨.misuse, [], [.usage error], []⟩

def unreadable (path : Path) (cause : ReadError) : Outcome :=
  ⟨.failure, [], [.unreadable path cause], []⟩

def parsed (file : SourceFile) : Except Fault Outcome := do
  let parse ← file.parse
  let tree ← parse.tree.dump
  pure ⟨.success, tree, parse.diagnostics.map (.diagnostic file), []⟩

def listed (file : SourceFile) : Except Fault Outcome := do
  pure (printed (← listing file))

def checked (graph : IncludeGraph) (verbosity : Nat) : Except Fault Outcome := do
  let found ← graph.check
  let failed := found.any fun (_, diagnostic) => diagnostic.isError
  let reports := found.map fun (file, diagnostic) => Report.diagnostic file diagnostic
  let log := (LogEvent.ofGraph graph).filter (LogEvent.isShown verbosity)
  pure ⟨if failed then .failure else .success, [], reports, log⟩

end Outcome

variable {m : Type → Type} [Monad m]

def withFile (access : FileAccess m) (path : Path)
    (use : SourceFile → ExceptT Fault m Outcome) : ExceptT Fault m Outcome := do
  match ← access.read path with
  | .error cause => pure (.unreadable path cause)
  | .ok text => use ⟨path, text⟩

/-- Carries out a request.  A graph may have up to `limit` files besides its root. -/
def Invocation.run (invocation : Invocation) (access : FileAccess m) (limit : Nat) :
    ExceptT Fault m Outcome :=
  match invocation.request with
  | .help topic => pure (.printed ((help topic).map String.toList))
  | .version => pure (.printed [version.toList])
  | .parse path => withFile access path fun file => (Outcome.parsed file : Except Fault _)
  | .tokens path => withFile access path fun file => (Outcome.listed file : Except Fault _)
  | .check path search => withFile access path fun file => do
      let graph ← IncludeGraph.load (search.resolver access) limit file
      (Outcome.checked graph invocation.verbosity : Except Fault _)

def run (access : FileAccess m) (limit : Nat) (arguments : List Text) :
    ExceptT Fault m Outcome :=
  match Invocation.ofArguments arguments with
  | .error error => pure (.misused error)
  | .ok invocation => invocation.run access limit

end TdSyntax.Command

def TdSyntax.FileTree.run (tree : FileTree) (arguments : List Text) :
    Except Fault Command.Outcome :=
  Command.run (m := Id) tree.access Path.maxCount arguments
