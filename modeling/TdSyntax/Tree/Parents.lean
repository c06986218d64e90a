import TdSyntax.Tree.Walk

/-!
# Parents

Trees have no links upwards.  A parent map of a node holds for every node under
it the node whose child it is; one walk over the tree finds them all.
-/

namespace TdSyntax

structure ParentMap where
  entries : List (Node × Node)

namespace ParentMap

/-- The entries that the rest of a walk adds while the nodes of `stack` are
open, the innermost first. -/
def collect : List Node → List WalkEvent → List (Node × Node)
  | _, [] => []
  | stack, .enter node :: rest =>
      (stack.head?.map fun parent => (node, parent)).toList ++ collect (node :: stack) rest
  | stack, .leave _ :: rest => collect stack.tail rest
  | stack, .token _ :: rest => collect stack rest

def ofRoot (root : Node) : ParentMap := ⟨collect [] root.events⟩

def parent? (map : ParentMap) (node : Node) : Option Node :=
  (map.entries.find? fun entry => entry.1.path == node.path).map Prod.snd

def climb (map : ParentMap) : Nat → Node → List Node
  | 0, _ => []
  | limit + 1, node =>
      match map.parent? node with
      | none => []
      | some parent => parent :: map.climb limit parent

/-- The ancestors of a node, from its parent up to the root.  A parent has a
shorter path, so the length of the path bounds their number. -/
def ancestors (map : ParentMap) (node : Node) : List Node := map.climb node.path.length node

end ParentMap

end TdSyntax
