import TdSyntax.Proofs.Tree.Wrappers

/-!
# Explained error nodes

An error node is explained if it has a token and its first token starts where an error
is told.  The first token of a node is where the node starts, trivia aside.
-/

namespace TdSyntax

namespace Draft

/-- Every error node in the draft begins with a token at a place that is told. -/
inductive Explained (told : Nat → Prop) : Draft → Prop
  | token (content : Token) : Explained told (.token content)
  | node {draft : Draft} {kind : Kind} {parts : List Draft}
      (hshape : draft.shape? = some (kind, parts))
      (herror : kind = .error → ∃ first ∈ draft.tokens.head?, told first.start)
      (hparts : ∀ part ∈ parts, Explained told part) : Explained told draft

theorem Explained.parts {told : Nat → Prop} {draft : Draft} {kind : Kind} {parts : List Draft}
    (h : draft.Explained told) (hshape : draft.shape? = some (kind, parts)) :
    ∀ part ∈ parts, part.Explained told := by
  cases h with
  | token content => cases hshape
  | node hown _ hparts =>
      cases hown.symm.trans hshape
      exact hparts

theorem Explained.head {told : Nat → Prop} {draft : Draft} {parts : List Draft}
    (h : draft.Explained told) (hshape : draft.shape? = some (.error, parts)) :
    ∃ first ∈ draft.tokens.head?, told first.start := by
  cases h with
  | token content => cases hshape
  | node hown herror _ =>
      cases hown.symm.trans hshape
      exact herror rfl

theorem tokens_of_parts {parts : List Draft} {elements : List Element}
    (h : List.Forall₂ Outlines parts elements)
    (hnodes : ∀ child ∈ elements.filterMap Element.node?, ∀ draft : Draft,
      draft.Outlines (.node child) → List.Forall₂ NodeToken.Shows child.tokens draft.tokens) :
    List.Forall₂ NodeToken.Shows (elements.flatMap Element.tokens) (tokensAll parts) := by
  induction h with
  | nil => exact .nil
  | cons hfirst _ ih =>
      rw [List.flatMap_cons, tokensAll]
      cases hfirst with
      | token hshows => exact .cons hshows (ih hnodes)
      | node hshape hkind hparts htext =>
          have hrest := ih fun child hchild => hnodes child (List.mem_cons_of_mem _ hchild)
          have hchild := hnodes _ List.mem_cons_self _ (.node hshape hkind hparts htext)
          exact List.rel_append hchild hrest

theorem Outlines.tokens {draft : Draft} {node : Node} (h : draft.Outlines (.node node)) :
    List.Forall₂ NodeToken.Shows node.tokens draft.tokens := by
  induction node using Node.induction generalizing draft with
  | step node ih =>
      cases h with
      | node hshape hkind hparts htext =>
          rw [tokens_of_shape hshape, Node.tokens_eq]
          exact tokens_of_parts hparts fun child hchild draft houtlines => ih child hchild houtlines

end Draft

namespace Node

theorem span_start {node : Node} {first : NodeToken} (h : node.firstToken? = some first) :
    node.span.start = first.span.start := by
  have hplaces := Tree.tokens_events node.source node.tree node.path node.offset
  have hfirst : ∃ rest, node.tokens = first :: rest := List.head?_eq_some_iff.1 h
  obtain ⟨rest, htokens⟩ := hfirst
  rw [show (node.tree.events node.source node.path node.offset).filterMap WalkEvent.token? =
    first :: rest from htokens] at hplaces
  cases hleaves : node.tree.leaves with
  | nil =>
      rw [hleaves] at hplaces
      cases hplaces
  | cons leaf leaves =>
      rw [hleaves, Tree.placeLeaves] at hplaces
      obtain ⟨⟨hleaf, hoffset, -⟩, -⟩ := List.forall₂_cons.1 hplaces
      obtain ⟨last, hlast⟩ := Option.isSome_iff_exists.1
        (show (leaf :: leaves).getLast?.isSome = true by simp)
      simp only [span, NodeToken.span, Tree.firstLeaf?_eq, Tree.lastLeaf?_eq, hleaves, hlast,
        List.head?_cons, hleaf, hoffset]

end Node

theorem Draft.Explained.error {told : Nat → Prop} {draft : Draft} {node : Node}
    (h : draft.Explained told) (hnode : draft.Outlines (.node node)) (hkind : node.kind = .error) :
    node.tokens ≠ [] ∧ told node.span.start := by
  have htokens := hnode.tokens
  cases hnode with
  | node hshape hown _ _ =>
      obtain rfl := hown.symm.trans hkind
      obtain ⟨first, hfirst, htold⟩ := h.head hshape
      obtain ⟨rest, hdraft⟩ := List.head?_eq_some_iff.1 hfirst
      rw [hdraft] at htokens
      obtain ⟨placed, others, hshows, -, hplaced⟩ := List.forall₂_cons_right_iff.1 htokens
      have hstart : node.span.start = placed.span.start :=
        Node.span_start (by rw [Node.firstToken?, hplaced, List.head?_cons])
      constructor
      · simp [hplaced]
      · rw [hstart, hshows.span]
        exact htold

end TdSyntax
