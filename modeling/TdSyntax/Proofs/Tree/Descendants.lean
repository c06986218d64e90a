import Mathlib.Data.List.Basic
import TdSyntax.Tree.Walk

/-!
# Nodes below a node

A walk enters a node first and then, one child behind the other, all that is under
its children.  So what holds of a node if it holds of its children holds of all nodes.
-/

namespace TdSyntax

def Element.events : Element → List WalkEvent
  | .node inner => inner.events
  | .token inner => [.token inner]

theorem Tree.eventsAll_eq (source : Text) (path : List Nat) (trees : List Tree)
    (index offset : Nat) :
    Tree.eventsAll source path index offset trees =
      (Element.ofSiblings source path index offset trees).flatMap Element.events := by
  induction trees generalizing index offset with
  | nil => rfl
  | cons tree trees ih =>
      rw [Tree.eventsAll, ih, Element.ofSiblings, List.flatMap_cons]
      cases tree <;> rfl

def Element.tokens : Element → List NodeToken
  | .node inner => inner.tokens
  | .token inner => [inner]

namespace Node

theorem events_eq (node : Node) :
    node.events = .enter node :: (node.elements.flatMap Element.events ++ [.leave node]) := by
  rw [elements, ← Tree.eventsAll_eq]
  rfl

theorem tokens_eq (node : Node) : node.tokens = node.elements.flatMap Element.tokens := by
  have helement : ∀ element : Element,
      element.events.filterMap WalkEvent.token? = element.tokens := by
    intro element
    cases element <;> rfl
  simp only [tokens, events_eq, List.filterMap_cons, WalkEvent.token?, List.filterMap_append,
    List.filterMap_flatMap, helement, List.filterMap_nil, List.append_nil]

theorem descendants_eq (node : Node) :
    node.descendants = node :: node.nodes.flatMap descendants := by
  have helement : ∀ element : Element, element.events.filterMap WalkEvent.entered? =
      element.node?.toList.flatMap descendants := by
    intro element
    cases element <;> simp [Element.events, descendants, Element.node?, WalkEvent.entered?]
  have hnodes : node.nodes.flatMap descendants =
      node.elements.flatMap fun element => element.node?.toList.flatMap descendants := by
    rw [nodes, List.filterMap_eq_flatMap_toList, List.flatMap_assoc]
  simp only [hnodes, descendants, events_eq, List.filterMap_cons, WalkEvent.entered?,
    List.filterMap_append, List.filterMap_flatMap, helement, List.filterMap_nil,
    List.append_nil]

variable {node child inner : Node}

theorem mem_nodes_iff : child ∈ node.nodes ↔ .node child ∈ node.elements := by
  rw [nodes, List.mem_filterMap]
  constructor
  · rintro ⟨element, hmem, helement⟩
    cases element with
    | token inner => cases helement
    | node inner => cases helement; exact hmem
  · exact fun hmem => ⟨_, hmem, rfl⟩

theorem mem_descendants_self (node : Node) : node ∈ node.descendants := by
  rw [descendants_eq]
  exact List.mem_cons_self

theorem mem_descendants_iff :
    inner ∈ node.descendants ↔ inner = node ∨ ∃ child ∈ node.nodes, inner ∈ child.descendants := by
  rw [descendants_eq, List.mem_cons, List.mem_flatMap]

theorem mem_descendants_of_mem_nodes (h : child ∈ node.nodes) (hinner : inner ∈ child.descendants) :
    inner ∈ node.descendants :=
  mem_descendants_iff.2 (.inr ⟨child, h, hinner⟩)

theorem tree_mem_children (h : child ∈ node.nodes) : child.tree ∈ node.children := by
  have hsiblings : ∀ (trees : List Tree) (index offset : Nat),
      child ∈ (Element.ofSiblings node.source node.path index offset trees).filterMap
        Element.node? → child.tree ∈ trees := by
    intro trees
    induction trees with
    | nil => simp [Element.ofSiblings]
    | cons tree trees ih =>
        intro index offset hmem
        cases tree with
        | leaf content => exact List.mem_cons_of_mem _ (ih _ _ hmem)
        | branch kind children =>
            rcases List.mem_cons.1 hmem with rfl | hmem
            · exact List.mem_cons_self
            · exact List.mem_cons_of_mem _ (ih _ _ hmem)
  exact hsiblings node.children 0 node.offset h

theorem induction {motive : Node → Prop}
    (step : ∀ node : Node, (∀ child ∈ node.nodes, motive child) → motive node) (node : Node) :
    motive node :=
  step node fun child hchild =>
    have := List.sizeOf_lt_of_mem (tree_mem_children hchild)
    induction step child
termination_by sizeOf node.children
decreasing_by
  simp only [tree, Tree.branch.sizeOf_spec] at this
  omega

theorem exists_parent {node : Node} {token : NodeToken} (h : token ∈ node.tokens) :
    ∃ inner ∈ node.descendants, .token token ∈ inner.elements := by
  induction node using induction with
  | step node ih =>
      rw [tokens_eq, List.mem_flatMap] at h
      obtain ⟨element, hmem, htoken⟩ := h
      cases element with
      | token other =>
          obtain rfl := List.mem_singleton.1 htoken
          exact ⟨node, node.mem_descendants_self, hmem⟩
      | node child =>
          have hchild := mem_nodes_iff.2 hmem
          obtain ⟨inner, hinner, hparent⟩ := ih child hchild htoken
          exact ⟨inner, mem_descendants_of_mem_nodes hchild hinner, hparent⟩

theorem descendants_trans {outer : Node} (hnode : node ∈ outer.descendants)
    (hinner : inner ∈ node.descendants) : inner ∈ outer.descendants := by
  induction outer using induction with
  | step outer ih =>
      rcases mem_descendants_iff.1 hnode with rfl | ⟨child, hchild, hmem⟩
      · exact hinner
      · exact mem_descendants_of_mem_nodes hchild (ih child hchild hmem)

end Node

end TdSyntax
