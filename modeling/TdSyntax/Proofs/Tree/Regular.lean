import TdSyntax.Proofs.Production.Children
import TdSyntax.Proofs.Production.Sound
import TdSyntax.Proofs.Tree.Wrappers

/-!
# Nodes that derive from the productions

What is known of a draft whose nodes fit their productions is known of the nodes that it
outlines: of their children, of the tokens below them, and of how delimiters nest there.
-/

namespace TdSyntax

namespace Node

def GluedEnd (node : Node) : Prop :=
  ∀ first last, node.elements = [first, .node last] → last.kind = .integer →
    ∃ digits, last.text = .ok ('-' :: digits)

/-- A node whose children fit the production of its kind, in a text without lexical
errors. -/
structure Regular (node : Node) : Prop where
  fits : (Production.ofKind node.kind).Fits (node.elements.map Element.kind)
  glued : node.kind = .rangePiece → node.GluedEnd
  tokens : ∀ token ∈ node.tokens, ∃ content, token.Shows content ∧ content.Sound
  text : ∀ token, node.elements = [.token token] → ∃ text, node.text = .ok text

end Node

namespace Draft

variable {draft : Draft} {element : Element} {node : Node}

theorem Outlines.kind_eq (h : draft.Outlines element) : element.kind = draft.kind := by
  cases h with
  | token hshows => rw [Element.kind, NodeToken.kind, hshows.leaf, Token.leaf, Draft.kind]
  | node hshape hkind => rw [Element.kind, hkind, kind_of_shape hshape]

theorem Outlines.map_kind {parts : List Draft} {elements : List Element}
    (h : List.Forall₂ Outlines parts elements) :
    elements.map Element.kind = parts.map Draft.kind := by
  induction h with
  | nil => rfl
  | cons hfirst _ ih => rw [List.map_cons, List.map_cons, hfirst.kind_eq, ih]

theorem Derived.tokens (h : draft.Derived) (houtlines : draft.Outlines element) :
    ∀ token ∈ element.tokens, ∃ content, token.Shows content ∧ content.Sound := by
  induction h generalizing element with
  | @token content hsound =>
      cases houtlines with
      | token hshows => exact List.forall_mem_singleton.2 ⟨content, hshows, hsound⟩
      | node hshape => cases hshape
  | node hshape _ _ _ ih =>
      cases houtlines with
      | token => cases hshape
      | node hown hkind hparts =>
          cases hown.symm.trans hshape
          intro token hmem
          rw [Element.tokens, Node.tokens_eq, List.mem_flatMap] at hmem
          obtain ⟨inner, hinner, htoken⟩ := hmem
          obtain ⟨part, hpart, hpartOutlines⟩ := exists_related hparts hinner
          exact ih part hpart hpartOutlines token htoken

theorem GluedEnd.outlined {parts : List Draft} (h : GluedEnd parts)
    (hparts : List.Forall₂ Outlines parts node.elements) : node.GluedEnd := by
  intro first last helements hkind
  rw [helements] at hparts
  obtain ⟨one, rest, -, hrest, rfl⟩ := List.forall₂_cons_right_iff.1 hparts
  obtain ⟨two, others, htwo, hothers, rfl⟩ := List.forall₂_cons_right_iff.1 hrest
  obtain rfl := List.forall₂_nil_right_iff.1 hothers
  obtain ⟨token, rfl, hsign⟩ := h one two rfl (htwo.kind_eq ▸ hkind)
  obtain ⟨digits, hdigits⟩ : ∃ digits, token.text = '-' :: digits := by
    cases htext : token.text with
    | nil => simp [htext] at hsign
    | cons sign digits => exact ⟨digits, by simpa [htext] using hsign⟩
  cases htwo with
  | node hshape _ _ htext =>
      cases hshape
      exact ⟨digits, hdigits ▸ htext token rfl⟩

theorem Derived.regular (h : draft.Derived) (houtlines : draft.Outlines (.node node)) :
    ∀ inner ∈ node.descendants, inner.Regular := by
  induction h generalizing node with
  | token => cases houtlines with | node hshape => cases hshape
  | node hshape hfits hglued hparts ih =>
      have hderived : Derived _ := .node hshape hfits hglued hparts
      have htokens := hderived.tokens houtlines
      cases houtlines with
      | node hown hkind helements htext =>
          cases hown.symm.trans hshape
          intro inner hinner
          rcases Node.mem_descendants_iff.1 hinner with rfl | ⟨child, hchild, hbelow⟩
          · refine ⟨?_, ?_, htokens, ?_⟩
            · rw [Outlines.map_kind helements, hkind]
              exact hfits
            · intro hpiece
              exact (hglued (hkind ▸ hpiece)).outlined helements
            · intro token hsingle
              rw [hsingle] at helements
              obtain ⟨one, rest, hone, hrest, rfl⟩ := List.forall₂_cons_right_iff.1 helements
              obtain rfl := List.forall₂_nil_right_iff.1 hrest
              cases hone with
              | token => exact ⟨_, htext _ rfl⟩
          · obtain ⟨part, hpart, hpartOutlines⟩ := exists_part helements hchild
            exact ih part hpart hpartOutlines inner hbelow

end Draft

namespace Node

variable {node child : Node} {element : Element}

def Sound (node : Node) : Prop := ∀ inner ∈ node.descendants, inner.Regular

theorem Sound.regular (h : node.Sound) : node.Regular := h node node.mem_descendants_self

theorem Sound.of_mem_nodes (h : node.Sound) (hchild : child ∈ node.nodes) : child.Sound :=
  fun _ hinner => h _ (mem_descendants_of_mem_nodes hchild hinner)

theorem Regular.isToken_eq_false (h : node.Regular) : node.kind.isToken = false := by
  rw [← Bool.not_eq_true]
  intro htoken
  have hfits := h.fits
  rw [Production.ofKind_of_isToken htoken] at hfits
  cases hfits

theorem Regular.token_kind (h : node.Regular) {token : NodeToken} (hmem : token ∈ node.tokens) :
    token.kind.isToken = true := by
  obtain ⟨content, hshows, hsound⟩ := h.tokens token hmem
  rw [NodeToken.kind, hshows.leaf]
  exact hsound.isToken

theorem mem_tokens_of_mem_elements {token : NodeToken} (h : .token token ∈ node.elements) :
    token ∈ node.tokens := by
  rw [tokens_eq, List.mem_flatMap]
  exact ⟨_, h, List.mem_singleton.2 rfl⟩

theorem Sound.element_cases (h : node.Sound) (hmem : element ∈ node.elements) :
    (∃ token, element = .token token ∧ token.kind.isToken = true) ∨
      ∃ child, element = .node child ∧ child.kind.isToken = false := by
  cases element with
  | token token => exact .inl ⟨token, rfl, h.regular.token_kind (mem_tokens_of_mem_elements hmem)⟩
  | node child =>
      exact .inr ⟨child, rfl, (h.of_mem_nodes (mem_nodes_iff.2 hmem)).regular.isToken_eq_false⟩

theorem Sound.nested (h : node.Sound) : Delimiter.Nested (node.tokens.map NodeToken.kind) := by
  induction node using Node.induction with
  | step node ih =>
      have hnested := Production.nested_of_fits (fun element => element.tokens.map NodeToken.kind)
        (Production.pairs_ofKind node.kind) h.regular.fits ?_ ?_
      · rw [tokens_eq, List.map_flatMap]
        exact hnested
      · intro element hmem hkind
        rcases h.element_cases hmem with ⟨token, rfl, -⟩ | ⟨child, rfl, hchild⟩
        · rfl
        · cases hchild.symm.trans (Kind.Set.isToken_of_delimiters hkind)
      · intro element hmem hkind
        cases element with
        | token token => exact .other hkind .nil
        | node child => exact ih child (mem_nodes_iff.2 hmem) (h.of_mem_nodes (mem_nodes_iff.2 hmem))

end Node

end TdSyntax
