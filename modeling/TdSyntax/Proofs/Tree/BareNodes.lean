import TdSyntax.Proofs.Tree.Bears
import TdSyntax.Proofs.Tree.Descendants

/-!
# The nodes of bare trees

If a node bears a bare tree, then each of the nodes below it bears one of the nodes of the
bare tree, in their order.
-/

namespace TdSyntax

namespace BareTree

mutual

def nodes : BareTree → List BareTree
  | .token _ => []
  | .node kind children => .node kind children :: nodesAll children

def nodesAll : List BareTree → List BareTree
  | [] => []
  | first :: rest => nodes first ++ nodesAll rest

end

@[simp] theorem nodesAll_map_token (words : List Word) : nodesAll (words.map .token) = [] := by
  induction words with
  | nil => rfl
  | cons word words ih => simp [nodesAll, nodes, ih]

end BareTree

namespace Node

private theorem bears_flatMap {elements : List Element} {children : List BareTree}
    (h : List.Forall₂ Element.Bears elements children)
    (hbelow : ∀ child ∈ elements.filterMap Element.node?, ∀ tree, child.Bears tree →
      List.Forall₂ Bears child.descendants tree.nodes) :
    List.Forall₂ Bears ((elements.filterMap Element.node?).flatMap descendants)
      (BareTree.nodesAll children) := by
  induction h with
  | nil => exact .nil
  | @cons element tree elements children hfirst hrest ih =>
      cases hfirst with
      | token => exact ih hbelow
      | @node child kind trees hkind helements htext =>
          have hnodes : (Element.node child :: elements).filterMap Element.node? =
              child :: elements.filterMap Element.node? := rfl
          rw [hnodes, List.forall_mem_cons] at hbelow
          rw [hnodes, List.flatMap_cons, BareTree.nodesAll]
          exact List.rel_append (hbelow.1 _ (.node hkind helements htext)) (ih hbelow.2)

theorem bears_descendants {node : Node} {tree : BareTree} (h : node.Bears tree) :
    List.Forall₂ Bears node.descendants tree.nodes := by
  induction node using induction generalizing tree with
  | step node ih =>
      cases h with
      | node hkind helements htext =>
          rw [descendants_eq, BareTree.nodes]
          refine .cons (.node hkind helements htext) (bears_flatMap helements ?_)
          exact fun child hchild tree htree => ih child hchild htree

theorem bears_filter_kind {node : Node} {tree : BareTree} (h : node.Bears tree) (kind : Kind) :
    List.Forall₂ Bears (node.descendants.filter fun inner => inner.kind == kind)
      (tree.nodes.filter fun inner => inner.kind == kind) := by
  refine List.rel_filter ?_ (bears_descendants h)
  intro inner tree hbears
  have hkind : inner.kind = tree.kind := Element.Bears.kind_eq hbears
  simp only [hkind]

end Node

end TdSyntax
