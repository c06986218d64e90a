import TdSyntax.Proofs.Token.Ranges
import TdSyntax.Proofs.Tree.Bears

/-!
# Elements that cover tokens

An element covers some tokens if it has their leaves and its source goes on with them at its
place.  The children of a node divide the tokens that the node covers, so the ranges and the
texts of everything below the node are those of tokens in the source, the trivia around them
included.
-/

namespace TdSyntax

/-! ## Spans side by side -/

theorem Span.Tile.start_le_stop {spans : List Span} {start stop : Nat}
    (h : Tile start spans stop) : start ≤ stop := by
  induction spans generalizing start with
  | nil => exact Nat.le_of_eq h
  | cons span spans ih => exact Nat.le_trans h.2.1 (ih h.2.2)

theorem Span.Tile.bounds {spans : List Span} {start stop : Nat} (h : Tile start spans stop) :
    ∀ span ∈ spans, start ≤ span.start ∧ span.stop ≤ stop := by
  induction spans generalizing start with
  | nil => exact List.forall_mem_nil _
  | cons span spans ih =>
      obtain ⟨rfl, hle, hrest⟩ := h
      refine List.forall_mem_cons.2 ⟨⟨Nat.le_refl _, hrest.start_le_stop⟩, fun later hmem => ?_⟩
      obtain ⟨hstart, hstop⟩ := ih hrest later hmem
      exact ⟨Nat.le_trans hle hstart, hstop⟩

namespace Token

variable {offset : Nat} {first last token : Token} {tokens front : List Token}

theorem fullSpan_start_le (token : Token) : token.fullSpan.start ≤ token.start :=
  Nat.sub_le _ _

theorem stop_le_fullSpan (token : Token) : token.stop ≤ token.fullSpan.stop :=
  Nat.le_add_right _ _

theorem stop_eq_of_tileFrom (h : TileFrom offset (front ++ [last])) :
    last.stop + (TriviaText.joined last.trailing).size =
      offset + (joined (front ++ [last])).size := by
  have hlast := (tileFrom_append.1 h).2.1
  simp only [joined_append, Text.size_append, stop, hlast]
  simp only [joined, List.flatMap_cons, List.flatMap_nil, List.append_nil, fullText,
    Text.size_append]
  omega

theorem stop_le_of_mem_tail (h : TileFrom offset (first :: tokens)) :
    ∀ token ∈ tokens, first.stop ≤ token.fullSpan.start := by
  intro token hmem
  have htile := tile_fullSpan h.2
  have hbounds := (htile.bounds _ (List.mem_map_of_mem hmem)).1
  have hfull := fullSpan_eq h.1
  have hstop : first.fullSpan.stop = offset + first.fullText.size := by rw [hfull]
  exact Nat.le_trans (hstop ▸ first.stop_le_fullSpan) hbounds

theorem le_start_of_mem_front (h : TileFrom offset (front ++ [last])) :
    ∀ token ∈ front, token.fullSpan.stop ≤ last.start := by
  intro token hmem
  obtain ⟨hfront, hlast⟩ := tileFrom_append.1 h
  have hbounds := ((tile_fullSpan hfront).bounds _ (List.mem_map_of_mem hmem)).2
  have hstart := hlast.1
  omega

end Token

/-! ## Trivia at their places -/

theorem TriviaText.joined_map_content (placed : List PlacedTrivia) :
    joined (placed.map PlacedTrivia.content) = placed.flatMap PlacedTrivia.text := by
  rw [joined, List.flatMap_map]
  rfl

namespace NodeToken

def Owns (token : NodeToken) (trivia : PlacedTrivia) : Prop :=
  ∃ pieces, (token.leadingTrivia = .ok pieces ∨ token.trailingTrivia = .ok pieces) ∧
    trivia ∈ pieces

theorem placeTrivia_places {source : Text} {pieces : List TriviaPiece} {offset : Nat}
    {placed : List PlacedTrivia} (h : placeTrivia source offset pieces = .ok placed) :
    Span.Tile offset (placed.map PlacedTrivia.span) (offset + TriviaPiece.total pieces) ∧
      ∀ trivia ∈ placed, sourceSlice source trivia.span = .ok trivia.text := by
  induction pieces generalizing offset placed with
  | nil =>
      obtain rfl := Except.ok.inj h
      exact ⟨rfl, List.forall_mem_nil _⟩
  | cons piece pieces ih =>
      simp only [placeTrivia, bind, Except.bind, pure, Except.pure] at h
      split at h
      · cases h
      · rename_i text hslice
        split at h
        · cases h
        · rename_i rest hrest
          obtain rfl := Except.ok.inj h
          obtain ⟨htile, htexts⟩ := ih hrest
          rw [TriviaPiece.total, ← Nat.add_assoc]
          exact ⟨⟨rfl, Nat.le_add_right _ _, htile⟩, List.forall_mem_cons.2 ⟨hslice, htexts⟩⟩

theorem Shows.outside {placed : NodeToken} {token : Token} (h : placed.Shows token)
    {trivia : PlacedTrivia} (howns : placed.Owns trivia) :
    token.fullSpan.start ≤ trivia.span.start ∧ trivia.span.stop ≤ token.start ∨
      token.stop ≤ trivia.span.start ∧ trivia.span.stop ≤ token.fullSpan.stop := by
  have hstop : placed.span.stop = token.stop := congrArg Span.stop h.span
  have hstart : token.start = placed.offset + (TriviaText.joined token.leading).size := by
    have hspan : placed.span.start = token.start := congrArg Span.start h.span
    rw [← hspan, NodeToken.span, h.leaf, token.leaf_trimmedSpan]
  obtain ⟨pieces, hleading | htrailing, hmem⟩ := howns
  · left
    obtain ⟨htile, -⟩ := placeTrivia_places hleading
    have hbounds := htile.bounds _ (List.mem_map_of_mem hmem)
    rw [h.leaf, Token.leaf, TriviaText.total_map_piece, ← hstart] at hbounds
    exact ⟨by rw [Token.fullSpan_eq hstart]; exact hbounds.1, hbounds.2⟩
  · right
    obtain ⟨htile, -⟩ := placeTrivia_places htrailing
    have hbounds := htile.bounds _ (List.mem_map_of_mem hmem)
    rw [hstop, h.leaf, Token.leaf, TriviaText.total_map_piece] at hbounds
    exact hbounds

end NodeToken

/-! ## Elements -/

theorem Tree.leavesAll_eq_flatMap (trees : List Tree) :
    leavesAll trees = trees.flatMap leaves := by
  induction trees with
  | nil => rfl
  | cons tree trees ih => rw [leavesAll, ih, List.flatMap_cons]

theorem Tree.size_of_leaves {tree : Tree} {tokens : List Token}
    (h : tree.leaves = tokens.map Token.leaf) : tree.size = (Token.joined tokens).size := by
  rw [Tree.size_eq_size_text, Tree.text, h, List.flatMap_map]
  rfl

namespace Element

def tree : Element → Tree
  | .node inner => inner.tree
  | .token inner => .leaf inner.leaf

def offset : Element → Nat
  | .node inner => inner.offset
  | .token inner => inner.offset

def source : Element → Text
  | .node inner => inner.source
  | .token inner => inner.source

theorem fullSpan_eq (element : Element) :
    element.fullSpan = ⟨element.offset, element.offset + element.tree.size⟩ := by
  cases element <;> rfl

variable {source : Text} {path : List Nat} {offset : Nat}

theorem tree_ofTree (tree : Tree) : (ofTree source path offset tree).tree = tree := by
  cases tree <;> rfl

theorem offset_ofTree (tree : Tree) : (ofTree source path offset tree).offset = offset := by
  cases tree <;> rfl

theorem source_ofTree (tree : Tree) : (ofTree source path offset tree).source = source := by
  cases tree <;> rfl

theorem tile_ofSiblings (trees : List Tree) (index : Nat) :
    Span.Tile offset ((ofSiblings source path index offset trees).map fullSpan)
      (offset + Tree.sizeAll trees) := by
  induction trees generalizing index offset with
  | nil => rfl
  | cons tree trees ih =>
      rw [ofSiblings, List.map_cons, fullSpan_eq, offset_ofTree, tree_ofTree, Tree.sizeAll,
        ← Nat.add_assoc]
      exact ⟨rfl, Nat.le_add_right _ _, ih (index + 1)⟩

theorem source_of_mem_ofSiblings {trees : List Tree} {index : Nat} {element : Element}
    (h : element ∈ ofSiblings source path index offset trees) : element.source = source := by
  induction trees generalizing index offset with
  | nil => cases h
  | cons tree trees ih =>
      rcases List.mem_cons.1 h with rfl | hmem
      · exact source_ofTree tree
      · exact ih hmem

/-- The source goes on with some tokens at the place of an element, and these are the leaves
of the element. -/
structure Covers (element : Element) (tokens : List Token) : Prop where
  leaves : element.tree.leaves = tokens.map Token.leaf
  source : element.source.HasAt element.offset (Token.joined tokens)
  tiles : Token.TileFrom element.offset tokens

theorem covers_ofSiblings {trees : List Tree} {tokens : List Token}
    (hleaves : Tree.leavesAll trees = tokens.map Token.leaf)
    (hsource : source.HasAt offset (Token.joined tokens)) (htiles : Token.TileFrom offset tokens)
    (index : Nat) :
    ∃ groups : List (List Token), groups.flatten = tokens ∧
      List.Forall₂ Covers (ofSiblings source path index offset trees) groups := by
  induction trees generalizing tokens index offset with
  | nil =>
      obtain rfl := List.map_eq_nil_iff.1 hleaves.symm
      exact ⟨[], rfl, .nil⟩
  | cons tree trees ih =>
      obtain ⟨own, others, rfl, hown, hothers⟩ := List.map_eq_append_iff.1 hleaves.symm
      obtain ⟨htilesOwn, htilesOthers⟩ := Token.tileFrom_append.1 htiles
      rw [Token.joined_append] at hsource
      have hsize := Tree.size_of_leaves hown.symm
      have hsourceOthers := hsource.right
      rw [← hsize] at hsourceOthers htilesOthers
      obtain ⟨groups, rfl, hgroups⟩ := ih hothers.symm hsourceOthers htilesOthers (index + 1)
      refine ⟨own :: groups, rfl, .cons ⟨?_, ?_, ?_⟩ hgroups⟩
      · rw [tree_ofTree, hown]
      · rw [source_ofTree, offset_ofTree]
        exact hsource.left
      · rw [offset_ofTree]
        exact htilesOwn

namespace Covers

variable {element : Element} {node : Node} {placed : NodeToken} {tokens : List Token}
  {token first last : Token}

theorem fullSpan (h : element.Covers tokens) :
    element.fullSpan = ⟨element.offset, element.offset + (Token.joined tokens).size⟩ := by
  rw [fullSpan_eq, Tree.size_of_leaves h.leaves]

theorem slice (h : element.Covers tokens) :
    sourceSlice element.source element.fullSpan = .ok (Token.joined tokens) := by
  rw [h.fullSpan]
  exact h.source.slice

theorem elements (h : (Element.node node).Covers tokens) :
    ∃ groups : List (List Token), groups.flatten = tokens ∧
      List.Forall₂ Covers node.elements groups :=
  covers_ofSiblings h.leaves h.source h.tiles 0

theorem of_mem_elements (h : (Element.node node).Covers tokens) (hmem : element ∈ node.elements) :
    ∃ own ⊆ tokens, element.Covers own := by
  obtain ⟨groups, rfl, hgroups⟩ := h.elements
  obtain ⟨own, hown, hcovers⟩ := exists_related hgroups.flip hmem
  exact ⟨own, fun token htoken => List.mem_flatten.2 ⟨own, hown, htoken⟩, hcovers⟩

theorem of_mem_nodes (h : (Element.node node).Covers tokens) {child : Node}
    (hmem : child ∈ node.nodes) : ∃ own ⊆ tokens, (Element.node child).Covers own :=
  h.of_mem_elements (Node.mem_nodes_iff.1 hmem)

theorem of_mem_descendants (h : (Element.node node).Covers tokens) {inner : Node}
    (hinner : inner ∈ node.descendants) : ∃ own ⊆ tokens, (Element.node inner).Covers own := by
  induction node using Node.induction generalizing tokens with
  | step node ih =>
      rcases Node.mem_descendants_iff.1 hinner with rfl | ⟨child, hchild, hbelow⟩
      · exact ⟨tokens, List.Subset.refl _, h⟩
      · obtain ⟨part, hpart, hcovers⟩ := h.of_mem_nodes hchild
        obtain ⟨own, hown, hinnerCovers⟩ := ih child hchild hcovers hbelow
        exact ⟨own, List.Subset.trans hown hpart, hinnerCovers⟩

theorem exists_token (h : (Element.token placed).Covers tokens) : ∃ token, tokens = [token] := by
  have hlength : tokens.length = 1 := by
    rw [← List.length_map Token.leaf, ← h.leaves]
    rfl
  exact List.length_eq_one_iff.1 hlength

theorem shows (h : (Element.token placed).Covers [token]) : placed.Shows token := by
  obtain ⟨path, leaf, offset, source⟩ := placed
  obtain rfl : leaf = token.leaf := List.head_eq_of_cons_eq h.leaves
  have hsource : source.HasAt offset (Token.joined [token]) := h.source
  exact NodeToken.shows_of_hasAt (by simpa [Token.joined] using hsource) h.tiles.1

theorem tokens_of_forall₂ {elements : List Element} {groups : List (List Token)}
    (h : List.Forall₂ Covers elements groups)
    (hnodes : ∀ child ∈ elements.filterMap Element.node?, ∀ own : List Token,
      (Element.node child).Covers own →
        List.Forall₂ (fun placed token => (Element.token placed).Covers [token])
          child.tokens own) :
    List.Forall₂ (fun placed token => (Element.token placed).Covers [token])
      (elements.flatMap Element.tokens) groups.flatten := by
  induction h with
  | nil => exact .nil
  | @cons element own elements groups hfirst _ ih =>
      rw [List.flatMap_cons, List.flatten_cons]
      cases element with
      | token placed =>
          obtain ⟨token, rfl⟩ := hfirst.exists_token
          exact .cons hfirst (ih hnodes)
      | node child =>
          have hchild := hnodes child List.mem_cons_self own hfirst
          exact List.rel_append hchild
            (ih fun other hother => hnodes other (List.mem_cons_of_mem _ hother))

theorem shows_tokens (h : (Element.node node).Covers tokens) :
    List.Forall₂ (fun placed token => (Element.token placed).Covers [token])
      node.tokens tokens := by
  induction node using Node.induction generalizing tokens with
  | step node ih =>
      obtain ⟨groups, rfl, hgroups⟩ := h.elements
      rw [Node.tokens_eq]
      exact tokens_of_forall₂ hgroups fun child hchild own hown => ih child hchild hown

/-! ### The range without the trivia at the ends -/

theorem span_nil (h : (Element.node node).Covers []) : node.span = Span.empty node.offset := by
  have hleaves : node.tree.leaves = [] := h.leaves
  simp [Node.span, Tree.firstLeaf?_eq, hleaves]

theorem span_eq (h : (Element.node node).Covers tokens) (hfirst : tokens.head? = some first)
    (hlast : tokens.getLast? = some last) : node.span = ⟨first.start, last.stop⟩ := by
  have hleaves : node.tree.leaves = tokens.map Token.leaf := h.leaves
  obtain ⟨rest, rfl⟩ := List.head?_eq_some_iff.1 hfirst
  have hstart : first.start = node.offset + (TriviaText.joined first.leading).size := h.tiles.1
  obtain ⟨front, hfront⟩ := List.getLast?_eq_some_iff.1 hlast
  have htiles : Token.TileFrom node.offset (first :: rest) := h.tiles
  rw [hfront] at htiles
  have hlastStart := (Token.tileFrom_append.1 htiles).2.1
  have hsize : node.tree.size = (Token.joined (first :: rest)).size := Tree.size_of_leaves h.leaves
  rw [hfront, Token.joined_append, Text.size_append] at hsize
  have hlastSize : (Token.joined [last]).size = last.leaf.size := by
    simp [Token.joined, Token.leaf, Leaf.size]
  simp only [Node.span, Tree.firstLeaf?_eq, Tree.lastLeaf?_eq, hleaves, List.head?_map,
    List.getLast?_map, hfirst, hlast, Option.map_some, Token.leaf_trimmedSpan, ← hstart,
    Node.fullSpan, Span.mk.injEq, true_and, Token.stop]
  omega

end Covers

end Element

end TdSyntax
