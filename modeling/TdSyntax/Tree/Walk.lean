import TdSyntax.Tree.Node

/-!
# Walks

A walk visits a node and all that is under it from left to right: it enters a
node, visits its children and leaves it.  `Walk` goes one event at a time and
can leave out the rest of the node that it is in; `Node.events` is the whole
walk at once, by recursion on the tree.
-/

namespace TdSyntax

inductive WalkEvent where
  | enter (node : Node)
  | leave (node : Node)
  | token (inner : NodeToken)
  deriving DecidableEq, Repr

namespace WalkEvent

def entered? : WalkEvent → Option Node
  | .enter node => some node
  | _ => none

def token? : WalkEvent → Option NodeToken
  | .token inner => some inner
  | _ => none

end WalkEvent

mutual

def Tree.events (source : Text) (path : List Nat) (offset : Nat) : Tree → List WalkEvent
  | .leaf content => [.token ⟨path, content, offset, source⟩]
  | .branch kind children =>
      .enter ⟨path, kind, children, offset, source⟩ ::
        (Tree.eventsAll source path 0 offset children ++
          [.leave ⟨path, kind, children, offset, source⟩])

def Tree.eventsAll (source : Text) (path : List Nat) (index offset : Nat) :
    List Tree → List WalkEvent
  | [] => []
  | first :: rest =>
      Tree.events source (index :: path) offset first ++
        Tree.eventsAll source path (index + 1) (offset + first.size) rest

end

namespace Node

def events (node : Node) : List WalkEvent :=
  node.tree.events node.source node.path node.offset

def descendants (node : Node) : List Node := node.events.filterMap WalkEvent.entered?

def tokens (node : Node) : List NodeToken := node.events.filterMap WalkEvent.token?

def firstToken? (node : Node) : Option NodeToken := node.tokens.head?

/-- The range of a node without the trivia at its ends: those of its first and its
last leaf.  It is empty for a node without tokens. -/
def span (node : Node) : Span :=
  match node.tree.firstLeaf?, node.tree.lastLeaf? with
  | some first, some last =>
      ⟨node.offset + first.trimmedSpan.1,
        node.fullSpan.stop - last.size + last.trimmedSpan.2⟩
  | _, _ => Span.empty node.offset

def text (node : Node) : Except Fault Text := sourceSlice node.source node.span

end Node

/-- A walk that has been entered at `stack`, the innermost node first, with the
children of each node that are still to be visited. -/
structure Walk where
  pending : Option Node
  stack : List (Node × List Element)
  deriving DecidableEq, Repr

namespace Walk

def ofNode (node : Node) : Walk := ⟨some node, []⟩

def next (walk : Walk) : Option WalkEvent × Walk :=
  match walk.stack with
  | [] =>
      match walk.pending with
      | none => (none, walk)
      | some root => (some (.enter root), ⟨none, [(root, root.elements)]⟩)
  | (node, elements) :: outer =>
      match elements with
      | [] => (some (.leave node), { walk with stack := outer })
      | .node child :: rest =>
          (some (.enter child),
            { walk with stack := (child, child.elements) :: (node, rest) :: outer })
      | .token token :: rest =>
          (some (.token token), { walk with stack := (node, rest) :: outer })

/-- Leaves out the rest of the innermost node, its end included. -/
def skipSubtree (walk : Walk) : Except Fault Walk :=
  match walk.stack with
  | [] => .error .nothingToSkip
  | _ :: outer => .ok { walk with stack := outer }

def dropTokens : List Element → List Element
  | .token _ :: rest => dropTokens rest
  | elements => elements

def nextNode (walk : Walk) : Option WalkEvent × Walk :=
  match walk.stack with
  | [] => walk.next
  | (node, elements) :: outer =>
      { walk with stack := (node, dropTokens elements) :: outer }.next

end Walk

end TdSyntax
