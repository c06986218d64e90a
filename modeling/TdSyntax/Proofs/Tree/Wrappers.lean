import TdSyntax.Proofs.Tree.Descendants
import TdSyntax.Proofs.Tree.Fenced
import TdSyntax.View.Views

/-!
# Nodes that wrap statements

What a draft says about statements that are fenced off is true of the nodes that it
outlines: of all nodes below them, and of the order in which a walk meets them.
-/

namespace TdSyntax

theorem Kind.isMulticlassStatement_of_isBarred {kind : Kind} (hkind : kind.isStatement = true)
    (h : kind.isBarred = false) : kind.isMulticlassStatement = true := by
  cases kind <;> simp_all [isStatement, supertype?, isBarred, isMulticlassStatement]

namespace Node

/-- An error node with a node in it. -/
def isWrapper (node : Node) : Bool := node.kind == .error && !node.nodes.isEmpty

/-- A node stands in another one or is the same, with no error node in between. -/
inductive Encloses : Node → Node → Prop
  | refl (node : Node) : Encloses node node
  | child {outer child inner : Node} (hchild : child ∈ outer.nodes) (hkind : child.kind ≠ .error)
      (h : Encloses child inner) : Encloses outer inner

theorem Encloses.trans {outer middle inner : Node} (h : outer.Encloses middle)
    (h' : middle.Encloses inner) : outer.Encloses inner := by
  induction h with
  | refl => exact h'
  | child hchild hkind _ ih => exact .child hchild hkind (ih h')

def Wraps (error statement : Node) : Prop :=
  error.elements = [.node statement] ∧ statement.kind.isBarred = true

/-- An error node wraps a statement that begins with a token of the source. -/
def WrapsFrom (error : Node) (keyword : Token) : Prop :=
  ∃ statement placed, error.Wraps statement ∧ statement.firstToken? = some placed ∧
    placed.Shows keyword ∧ Grammar.notInMulticlass.contains keyword.kind = true

theorem isWrapper_of_ne {node : Node} (h : node.kind ≠ .error) : node.isWrapper = false := by
  simp [isWrapper, h]

end Node

namespace Draft

variable {draft : Draft} {kind : Kind} {pieces : List Draft} {node inner : Node}

theorem exists_part {elements : List Element} (h : List.Forall₂ Outlines pieces elements)
    {child : Node} (hchild : child ∈ elements.filterMap Element.node?) :
    ∃ part ∈ pieces, part.Outlines (.node child) := by
  obtain ⟨element, hmem, helement⟩ := List.mem_filterMap.1 hchild
  cases element with
  | token inner => cases helement
  | node inner =>
      cases helement
      exact exists_related h hmem

theorem Outlines.parts (h : draft.Outlines (.node node))
    (hshape : draft.shape? = some (kind, pieces)) :
    node.kind = kind ∧ List.Forall₂ Outlines pieces node.elements := by
  cases h with
  | node hown hkind hparts _ =>
      cases hown.symm.trans hshape
      exact ⟨hkind, hparts⟩

theorem Free.exists_error (h : draft.Free) (hnode : draft.Outlines (.node node)) :
    ∀ inner ∈ node.descendants, inner.kind.isBarred = true →
      ∃ error ∈ node.descendants, error.kind = .error ∧ inner ∈ error.descendants := by
  induction h generalizing node with
  | token content => cases hnode with | node hshape => cases hshape
  | error hshape =>
      intro inner hinner _
      exact ⟨node, node.mem_descendants_self, (hnode.parts hshape).1, hinner⟩
  | node hshape hkind hparts ih =>
      intro inner hinner hbarred
      obtain ⟨hnodeKind, helements⟩ := hnode.parts hshape
      rcases Node.mem_descendants_iff.1 hinner with rfl | ⟨child, hchild, hbelow⟩
      · rw [hnodeKind, hkind] at hbarred
        cases hbarred
      · obtain ⟨part, hpart, houtlines⟩ := exists_part helements hchild
        obtain ⟨error, herror, hisError, hwithin⟩ := ih part hpart houtlines inner hbelow hbarred
        exact ⟨error, Node.mem_descendants_of_mem_nodes hchild herror, hisError, hwithin⟩

theorem Free.not_barred (h : draft.Free) (hnode : draft.Outlines (.node node))
    (herror : node.kind ≠ .error) (hinner : node.Encloses inner) : inner.kind.isBarred = false := by
  induction hinner generalizing draft with
  | refl node =>
      cases h with
      | token content => cases hnode with | node hshape => cases hshape
      | error hshape => exact absurd (hnode.parts hshape).1 herror
      | node hshape hkind hparts =>
          rw [(hnode.parts hshape).1]
          exact hkind
  | child hchild hkind _ ih =>
      cases h with
      | token content => cases hnode with | node hshape => cases hshape
      | error hshape => exact absurd (hnode.parts hshape).1 herror
      | node hshape _ hparts =>
          obtain ⟨part, hpart, houtlines⟩ := exists_part (hnode.parts hshape).2 hchild
          exact ih (hparts part hpart) houtlines hkind

/-- What holds of the parts of each draft of which it holds is true of drafts of all nodes
below a node. -/
theorem exists_of_mem_descendants {holds : Draft → Prop}
    (hparts : ∀ {draft kind parts}, holds draft → draft.shape? = some (kind, parts) →
      ∀ part ∈ parts, holds part)
    (h : holds draft) (hnode : draft.Outlines (.node node)) (hinner : inner ∈ node.descendants) :
    ∃ part, holds part ∧ part.Outlines (.node inner) := by
  induction node using Node.induction generalizing draft with
  | step node ih =>
      rcases Node.mem_descendants_iff.1 hinner with rfl | ⟨child, hchild, hbelow⟩
      · exact ⟨draft, h, hnode⟩
      · cases hnode with
        | node hshape hkind helements htext =>
            obtain ⟨part, hpart, houtlines⟩ := exists_part helements hchild
            exact ih child hchild (hparts h hshape part hpart) houtlines hbelow

theorem Fenced.of_mem_descendants (h : draft.Fenced) (hnode : draft.Outlines (.node node))
    (hinner : inner ∈ node.descendants) :
    ∃ part : Draft, part.Fenced ∧ part.Outlines (.node inner) :=
  exists_of_mem_descendants Fenced.parts h hnode hinner

theorem Fenced.multiclassBody (h : draft.Fenced) (hnode : draft.Outlines (.node node))
    (hkind : node.kind = .multiclassBody) :
    (∀ inner ∈ node.descendants, inner.kind.isBarred = true →
      ∃ error ∈ node.descendants, error.kind = .error ∧ inner ∈ error.descendants) ∧
    ∀ inner, node.Encloses inner → ∀ statement ∈ inner.statements,
      statement.kind.isMulticlassStatement = true := by
  have hbarred : node.kind.isBarred = false := by rw [hkind]; rfl
  have hfree : ∀ child ∈ node.nodes, ∃ part : Draft, part.Free ∧ part.Outlines (.node child) := by
    cases h with
    | token content => cases hnode with | node hshape => cases hshape
    | stray => exact absurd (hkind.symm.trans (hnode.parts rfl).1) (by decide)
    | wrapping => exact absurd (hkind.symm.trans (hnode.parts rfl).1) (by decide)
    | node hshape _ hfree _ =>
        intro child hchild
        obtain ⟨hown, helements⟩ := hnode.parts hshape
        obtain ⟨part, hpart, houtlines⟩ := exists_part helements hchild
        exact ⟨part, hfree (hown.symm.trans hkind) part hpart, houtlines⟩
  constructor
  · intro inner hinner hinnerBarred
    rcases Node.mem_descendants_iff.1 hinner with rfl | ⟨child, hchild, hbelow⟩
    · rw [hbarred] at hinnerBarred
      cases hinnerBarred
    · obtain ⟨part, hpart, houtlines⟩ := hfree child hchild
      obtain ⟨error, herror, hisError, hwithin⟩ :=
        hpart.exists_error houtlines inner hbelow hinnerBarred
      exact ⟨error, Node.mem_descendants_of_mem_nodes hchild herror, hisError, hwithin⟩
  · intro inner hencloses statement hstatement
    obtain ⟨hmem, hisStatement⟩ := List.mem_filter.1 hstatement
    refine Kind.isMulticlassStatement_of_isBarred hisStatement ?_
    have hnotError : statement.kind ≠ .error := by
      intro herror
      rw [herror] at hisStatement
      cases hisStatement
    have hwithin : node.Encloses statement := hencloses.trans (.child hmem hnotError (.refl _))
    cases hwithin with
    | refl => exact hbarred
    | child hchild hchildKind hrest =>
        obtain ⟨part, hpart, houtlines⟩ := hfree _ hchild
        exact hpart.not_barred houtlines hchildKind hrest

theorem nodes_of_tokens {elements : List Element} (h : List.Forall₂ Outlines pieces elements)
    (htokens : ∀ piece ∈ pieces, ∃ content, piece = .token content) :
    elements.filterMap Element.node? = [] := by
  induction h with
  | nil => rfl
  | cons hfirst _ ih =>
      obtain ⟨content, rfl⟩ := htokens _ List.mem_cons_self
      cases hfirst with
      | token => exact ih fun piece hmem => htokens piece (List.mem_cons_of_mem _ hmem)
      | node hshape => cases hshape

theorem Outlines.wraps {keyword : Token} (hkind : kind.isBarred = true)
    (hkeyword : Grammar.notInMulticlass.contains keyword.kind = true)
    (h : (Draft.node .error [.node kind (.token keyword :: pieces)]).Outlines (.node node)) :
    ∃ statement, node.Wraps statement ∧ node.WrapsFrom keyword ∧
      (Draft.node kind (.token keyword :: pieces)).Outlines (.node statement) := by
  obtain ⟨element, rest, hfirst, hrest, helements⟩ := List.forall₂_cons_left_iff.1 (h.parts rfl).2
  obtain rfl := List.forall₂_nil_left_iff.1 hrest
  cases hfirst with
  | node hshape hstatement hparts htext =>
      rename_i statement
      cases hshape
      obtain ⟨first, others, htoken, hothers, hwithin⟩ := List.forall₂_cons_left_iff.1 hparts
      have hwraps : node.Wraps statement := ⟨helements, hstatement ▸ hkind⟩
      refine ⟨statement, hwraps, ?_, .node rfl hstatement hparts htext⟩
      cases htoken with
      | token hshows =>
          refine ⟨statement, _, hwraps, ?_, hshows, hkeyword⟩
          rw [Node.firstToken?, Node.tokens_eq, hwithin]
          rfl
      | node hshape => cases hshape

theorem Fenced.nodes_error (h : draft.Fenced) (hnode : draft.Outlines (.node node))
    (hkind : node.kind = .error) : node.nodes = [] ∨ ∃ statement, node.Wraps statement := by
  cases h with
  | token content => cases hnode with | node hshape => cases hshape
  | stray hparts => exact .inl (nodes_of_tokens (hnode.parts rfl).2 hparts)
  | wrapping hbarred hkeyword hparts =>
      obtain ⟨statement, hwraps, -⟩ := hnode.wraps hbarred hkeyword
      exact .inr ⟨statement, hwraps⟩
  | node hshape hnotError => exact absurd ((hnode.parts hshape).1.symm.trans hkind) hnotError

theorem forall₂_wrappers {elements : List Element} (h : List.Forall₂ Outlines pieces elements)
    (hpieces : ∀ piece ∈ pieces, ∀ node, piece.Outlines (.node node) →
      List.Forall₂ Node.WrapsFrom (node.descendants.filter Node.isWrapper) piece.wrapped) :
    List.Forall₂ Node.WrapsFrom
      (((elements.filterMap Element.node?).flatMap Node.descendants).filter Node.isWrapper)
      (wrappedAll pieces) := by
  induction h with
  | nil => exact .nil
  | cons hfirst _ ih =>
      have hrest := ih fun piece hmem => hpieces piece (List.mem_cons_of_mem _ hmem)
      cases hfirst with
      | token => exact hrest
      | node hshape hkind hparts htext =>
          simp only [List.filterMap_cons, Element.node?, List.flatMap_cons, List.filter_append,
            wrappedAll]
          exact List.rel_append (hpieces _ List.mem_cons_self _ (.node hshape hkind hparts htext))
            hrest

theorem Fenced.wrappers (h : draft.Fenced) (hnode : draft.Outlines (.node node)) :
    List.Forall₂ Node.WrapsFrom (node.descendants.filter Node.isWrapper) draft.wrapped := by
  induction h generalizing node with
  | token content => cases hnode with | node hshape => cases hshape
  | stray hparts =>
      have hnodes : node.nodes = [] := nodes_of_tokens (hnode.parts rfl).2 hparts
      rw [wrapped_stray hparts, Node.descendants_eq, hnodes]
      simp [Node.isWrapper, hnodes]
  | wrapping hbarred hkeyword hparts ih =>
      obtain ⟨statement, hwraps, hfrom, hstatement⟩ := hnode.wraps hbarred hkeyword
      have hnodes : node.nodes = [statement] := by simp [Node.nodes, hwraps.1, Element.node?]
      have hwrapper : node.isWrapper = true := by
        simp [Node.isWrapper, hnodes, (hnode.parts rfl).1]
      have hnotError : statement.kind ≠ .error := by
        intro herror
        have hstatementBarred := hwraps.2
        rw [herror] at hstatementBarred
        cases hstatementBarred
      have hinside := forall₂_wrappers (hstatement.parts rfl).2
        (List.forall_mem_cons.2 ⟨?_, fun piece hmem node houtlines => ih piece hmem houtlines⟩)
      · rw [wrapped_wrapping, Node.descendants_eq, hnodes, List.flatMap_singleton,
          List.filter_cons_of_pos hwrapper, Node.descendants_eq,
          List.filter_cons_of_neg (by simp [Node.isWrapper_of_ne hnotError])]
        exact .cons hfrom hinside
      · intro node houtlines
        cases houtlines with | node hshape => cases hshape
  | node hshape hkind hfree hparts ih =>
      obtain ⟨hnodeKind, helements⟩ := hnode.parts hshape
      rw [wrapped_of_shape hshape hkind, Node.descendants_eq,
        List.filter_cons_of_neg (by simp [Node.isWrapper_of_ne (hnodeKind ▸ hkind)])]
      exact forall₂_wrappers helements fun part hpart node houtlines => ih part hpart houtlines

end Draft

end TdSyntax
