import TdSyntax.Include.Graph

/-!
# Loading

A graph is loaded breadth first.  The include statements that are still to be
followed wait in a queue; following one either finds nothing, or a file that is
known, or a new file, whose own include statements join the end of the queue.
Files are told apart by the keys of their identities, so a file is loaded once,
however it is spelled.

There may be no end of new files, so loading stops with a fault when it meets
more of them than a given limit.
-/

namespace TdSyntax

/-- A graph on its way.  `keys` holds those of the identities of its files, in their
order, and `waiting` the statements to follow, each with the number of its file and the
path of that file. -/
structure Loading where
  graph : IncludeGraph
  keys : List String
  waiting : List (Nat × Path × IncludeDirective)
  deriving DecidableEq, Repr

namespace Loading

variable {m : Type → Type} [Monad m]

def pending (number : Nat) (file : SourceFile) :
    Except Fault (List (Nat × Path × IncludeDirective)) := do
  pure ((← file.includeDirectives).map fun directive => (number, file.path, directive))

def ofRoot (root : SourceFile) (identity : Path) : Except Fault Loading := do
  pure ⟨⟨root, [], []⟩, [identity.key], ← pending 0 root⟩

def record (loading : Loading) (inclusion : Inclusion) : Loading :=
  { loading with
    graph := { loading.graph with inclusions := loading.graph.inclusions ++ [inclusion] } }

def addFile (loading : Loading) (file : SourceFile) (key : String)
    (pending : List (Nat × Path × IncludeDirective)) : Loading :=
  { graph := { loading.graph with others := loading.graph.others ++ [file] }
    keys := loading.keys ++ [key]
    waiting := loading.waiting ++ pending }

def finish (resolver : Resolver m) (limit : Nat) (loading : Loading) :
    ExceptT Fault m IncludeGraph :=
  match loading with
  | ⟨graph, _, []⟩ => pure graph
  | ⟨graph, keys, (source, path, directive) :: rest⟩ => do
      let loading : Loading := ⟨graph, keys, rest⟩
      match ← resolver.resolve path directive.name with
      | .error error =>
          (loading.record ⟨source, directive, .failed error⟩).finish resolver limit
      | .ok file =>
          let key := (← resolver.identity file.path).key
          match keys.findIdx? fun known => known == key with
          | some target =>
              (loading.record ⟨source, directive, .reached target false⟩).finish resolver limit
          | none =>
              match limit with
              | 0 => throw .endlessInclusion
              | limit + 1 =>
                  let number := keys.length
                  let pending ← (pending number file : Except Fault _)
                  ((loading.record ⟨source, directive, .reached number true⟩).addFile
                    file key pending).finish resolver limit
termination_by (limit, loading.waiting.length)
decreasing_by
  all_goals simp [Prod.lex_def, record]

end Loading

namespace IncludeGraph

/-- The graph of the files that are reached from a root; a fault if it has more
than `limit` files besides the root. -/
def load {m : Type → Type} [Monad m] (resolver : Resolver m) (limit : Nat)
    (root : SourceFile) : ExceptT Fault m IncludeGraph := do
  let identity ← resolver.identity root.path
  let loading ← (Loading.ofRoot root identity : Except Fault _)
  loading.finish resolver limit

end IncludeGraph

end TdSyntax
