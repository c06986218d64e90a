import TdSyntax.Proofs.Tree.Cut
import TdSyntax.Proofs.Tree.Skipped

/-!
# What is reached in a built tree

No tree keeps offsets: a handle of a node or a token gets its place from the sizes of what
stands in front of it on the way to it.  On every way the handles agree with the source text:
the ranges of the children of a node stand side by side, the source in the range of a node or a
token is the text that its tokens keep, and so are the parts of a token.  One path from the
root leads to one handle, however it was reached.
-/

namespace TdSyntax

namespace Node

/-- The nodes and tokens that are reached from a node: its children, those of one kind, its
first token, and what its walks, its descendants and its tokens show, again and again. -/
inductive Reaches (root : Node) : Element → Prop
  | self : Reaches root (.node root)
  | element {node : Node} {element : Element} (h : Reaches root (.node node))
      (hfound : element ∈ node.elements) : Reaches root element
  | child {node child : Node} (h : Reaches root (.node node)) (hfound : child ∈ node.nodes) :
      Reaches root (.node child)
  | childOfKind {node child : Node} {kind : Kind} (h : Reaches root (.node node))
      (hfound : node.childOfKind? kind = some child) : Reaches root (.node child)
  | tokenOfKind {node : Node} {inner : NodeToken} {kind : Kind} (h : Reaches root (.node node))
      (hfound : node.tokenOfKind? kind = some inner) : Reaches root (.token inner)
  | firstToken {node : Node} {inner : NodeToken} (h : Reaches root (.node node))
      (hfound : node.firstToken? = some inner) : Reaches root (.token inner)
  | walk {node : Node} {requests : List Walk.Request} {event : WalkEvent}
      (h : Reaches root (.node node))
      (hfound : .event (some event) ∈ (Walk.ofNode node).replies Walk.next requests) :
      Reaches root event.element
  | nodeWalk {node : Node} {requests : List Walk.Request} {event : WalkEvent}
      (h : Reaches root (.node node))
      (hfound : .event (some event) ∈ (Walk.ofNode node).replies Walk.nextNode requests) :
      Reaches root event.element
  | descendant {node inner : Node} (h : Reaches root (.node node))
      (hfound : inner ∈ node.descendants) : Reaches root (.node inner)
  | token {node : Node} {inner : NodeToken} (h : Reaches root (.node node))
      (hfound : inner ∈ node.tokens) : Reaches root (.token inner)

inductive Holds (root : Node) : Element → Prop
  | self : Holds root (.node root)
  | child {node : Node} {element : Element} (h : Holds root (.node node))
      (hmem : element ∈ node.elements) : Holds root element

variable {root node : Node} {element : Element}

theorem Holds.trans (h : root.Holds (.node node)) (h' : node.Holds element) :
    root.Holds element := by
  induction h' with
  | self => exact h
  | child _ hmem ih => exact .child ih hmem

theorem holds_of_mem_events (node : Node) : ∀ event ∈ node.events, node.Holds event.element := by
  induction node using Node.induction with
  | step node ih =>
      intro event hmem
      rw [events_eq, List.mem_cons, List.mem_append, List.mem_flatMap, List.mem_singleton] at hmem
      rcases hmem with rfl | ⟨element, helement, hevent⟩ | rfl
      · exact .self
      · have hchild : node.Holds element := .child .self helement
        cases element with
        | node child => exact hchild.trans (ih child (mem_nodes_iff.2 helement) event hevent)
        | token inner =>
            rw [List.mem_singleton.1 hevent]
            exact hchild
      · exact .self

theorem holds_of_mem_tokens {inner : NodeToken} (h : inner ∈ node.tokens) :
    node.Holds (.token inner) := by
  obtain ⟨event, hevent, htoken⟩ := List.mem_filterMap.1 h
  cases event with
  | token other =>
      obtain rfl := Option.some.inj htoken
      exact holds_of_mem_events node _ hevent
  | enter | leave => cases htoken

theorem holds_of_mem_descendants {inner : Node} (h : inner ∈ node.descendants) :
    node.Holds (.node inner) := by
  obtain ⟨event, hevent, hnode⟩ := List.mem_filterMap.1 h
  cases event with
  | enter other =>
      obtain rfl := Option.some.inj hnode
      exact holds_of_mem_events node _ hevent
  | token | leave => cases hnode

theorem holds_of_mem_nodes {child : Node} (h : child ∈ node.nodes) : node.Holds (.node child) :=
  .child .self (mem_nodes_iff.1 h)

theorem Reaches.holds (h : root.Reaches element) : root.Holds element := by
  induction h with
  | self => exact .self
  | element _ hfound ih => exact .child ih hfound
  | child _ hfound ih => exact ih.trans (holds_of_mem_nodes hfound)
  | childOfKind _ hfound ih =>
      exact ih.trans (holds_of_mem_nodes (List.mem_of_find?_eq_some hfound))
  | tokenOfKind _ hfound ih =>
      obtain ⟨element, helement, htoken⟩ :=
        List.mem_filterMap.1 (List.mem_of_find?_eq_some hfound)
      cases element with
      | node inner => cases htoken
      | token inner =>
          obtain rfl := Option.some.inj htoken
          exact .child ih helement
  | firstToken _ hfound ih => exact ih.trans (holds_of_mem_tokens (List.mem_of_head? hfound))
  | walk _ hfound ih =>
      have hevent := Walk.mem_events_of_mem_replies Walk.next_steps hfound
      exact ih.trans (holds_of_mem_events _ _ hevent)
  | nodeWalk _ hfound ih =>
      have hevent := Walk.mem_events_of_mem_replies Walk.nextNode_steps hfound
      exact ih.trans (holds_of_mem_events _ _ hevent)
  | descendant _ hfound ih => exact ih.trans (holds_of_mem_descendants hfound)
  | token _ hfound ih => exact ih.trans (holds_of_mem_tokens hfound)

def find? (root : Node) : List Nat → Option Element
  | [] => some (.node root)
  | index :: outer =>
      match root.find? outer with
      | some (.node node) => node.elements[index]?
      | _ => none

theorem Holds.find?_eq (hroot : root.path = []) (h : root.Holds element) :
    root.find? element.path = some element := by
  induction h with
  | self =>
      rw [Element.path, hroot]
      rfl
  | child _ hmem ih =>
      obtain ⟨index, hindex⟩ := List.mem_iff_getElem?.1 hmem
      rw [path_of_getElem? hindex, find?]
      simp only [Element.path] at ih
      rw [ih]
      exact hindex

end Node

/-! ## Agreement with the source -/

/-- The children of a node stand side by side in its range, and the source in this range is what
the tokens of the node keep. -/
structure Node.Agrees (node : Node) (text : Text) : Prop where
  source : node.source = text
  tile : Span.Tile node.fullSpan.start (node.elements.map Element.fullSpan) node.fullSpan.stop
  slice : node.fullText = .ok (node.tokens.flatMap NodeToken.fullText)

/-- The source in the range of a token is the text that it keeps, which consists of the pieces
of trivia in front of its own text, its own text, and the pieces behind it, at places side by
side. -/
structure NodeToken.Agrees (token : NodeToken) (text : Text) : Prop where
  source : token.source = text
  slice : sourceSlice text token.fullSpan = .ok token.fullText
  pieces : ∃ leading own trailing, token.leadingTrivia = .ok leading ∧ token.text = .ok own ∧
    token.trailingTrivia = .ok trailing ∧
    Span.Tile token.fullSpan.start
      (leading.map PlacedTrivia.span ++ token.span :: trailing.map PlacedTrivia.span)
      token.fullSpan.stop ∧
    (∀ trivia ∈ leading ++ trailing, sourceSlice text trivia.span = .ok trivia.text) ∧
    sourceSlice text token.span = .ok own ∧
    leading.flatMap PlacedTrivia.text ++ own ++ trailing.flatMap PlacedTrivia.text =
      token.fullText

def Element.Agrees (text : Text) : Element → Prop
  | .node inner => inner.Agrees text
  | .token inner => inner.Agrees text

namespace Element.Covers

variable {node : Node} {placed : NodeToken} {token : Token} {tokens : List Token}

theorem node_agrees (h : (Element.node node).Covers tokens) : node.Agrees node.source := by
  have htexts : node.tokens.map NodeToken.fullText = tokens.map Token.fullText := by
    rw [← List.forall₂_eq_eq_eq, List.forall₂_map_left_iff, List.forall₂_map_right_iff]
    exact h.shows_tokens.imp fun _ _ hcovers => congrArg Leaf.text hcovers.shows.leaf
  refine ⟨rfl, tile_ofSiblings node.children 0, ?_⟩
  rw [List.flatMap_def, htexts, ← List.flatMap_def]
  exact h.slice

theorem token_agrees (h : (Element.token placed).Covers [token]) :
    placed.Agrees placed.source := by
  have hshows := h.shows
  have hjoined : Token.joined [token] = token.fullText := List.append_nil _
  have hfull : placed.fullText = token.fullText := congrArg Leaf.text hshows.leaf
  have hstart : token.start = placed.offset + (TriviaText.joined token.leading).size := h.tiles.1
  have hspan : placed.span = ⟨token.start, token.start + token.text.size⟩ := hshows.span
  have hsource : placed.source.HasAt placed.offset token.fullText := hjoined ▸ h.source
  have hslice := h.slice
  rw [hjoined] at hslice
  obtain ⟨leading, hleading, hbefore⟩ := hshows.leading
  obtain ⟨trailing, htrailing, hafter⟩ := hshows.trailing
  obtain ⟨htileBefore, htextsBefore⟩ := NodeToken.placeTrivia_places hleading
  obtain ⟨htileAfter, htextsAfter⟩ := NodeToken.placeTrivia_places htrailing
  refine ⟨rfl, hfull ▸ hslice, leading, token.text, trailing, hleading, hshows.text, htrailing,
    ?_, List.forall_mem_append.2 ⟨htextsBefore, htextsAfter⟩, ?_, ?_⟩
  · have hstop : placed.span.stop + TriviaPiece.total placed.leaf.trailing =
        placed.fullSpan.stop := by
      have hsize : placed.leaf.size = token.fullText.size := congrArg Text.size hfull
      rw [hspan, NodeToken.fullSpan, hsize, hstart, hshows.leaf, Token.leaf,
        TriviaText.total_map_piece, Token.fullText, Text.size_append, Text.size_append]
      simp only [Nat.add_assoc]
    rw [hstop] at htileAfter
    refine htileBefore.append ⟨rfl, ?_, htileAfter⟩
    show placed.span.start ≤ placed.span.stop
    rw [hspan]
    exact Nat.le_add_right _ _
  · rw [hspan, hstart]
    exact hsource.left.right.slice
  · rw [hfull, ← TriviaText.joined_map_content, ← TriviaText.joined_map_content, hbefore, hafter]
    rfl

end Element.Covers

namespace Node

theorem Holds.covers {root : Node} {element : Element} (h : root.Holds element)
    {tokens : List Token} (hroot : (Element.node root).Covers tokens) :
    element.source = root.source ∧ ∃ own, element.Covers own := by
  induction h with
  | self => exact ⟨rfl, tokens, hroot⟩
  | child _ hmem ih =>
      obtain ⟨hsource, own, hown⟩ := ih
      obtain ⟨part, -, hpart⟩ := hown.of_mem_elements hmem
      exact ⟨(Element.source_of_mem_ofSiblings hmem).trans hsource, part, hpart⟩

end Node

namespace Builder

variable {text : Text} {calls : List Call} {tree : SourceTree}

/-- In a tree that is built, with trivia that end between two characters, everything that is
reached from the root agrees with the text, and the path of a handle tells it apart from all
others. -/
theorem agrees_of_reaches (h : build text calls = .ok tree)
    (hcut : ∀ leaf ∈ tree.tree.leaves, leaf.Cut) :
    (∀ element, tree.root.Reaches element → element.Agrees text) ∧
      (∀ element, tree.root.Reaches element →
        tree.root.find? element.path = some element) ∧
      ∀ one other, tree.root.Reaches one → tree.root.Reaches other → one.path = other.path →
        one = other := by
  obtain ⟨rfl, tokens, hroot⟩ := covers_of_build h hcut
  have hfind : ∀ element, tree.root.Reaches element →
      tree.root.find? element.path = some element := fun _ hreach => hreach.holds.find?_eq rfl
  refine ⟨fun element hreach => ?_, hfind, fun one other hone hother hpath => ?_⟩
  · obtain ⟨hsource, own, hown⟩ := hreach.holds.covers hroot
    cases element with
    | node inner =>
        have hsame : inner.source = tree.text := hsource
        rw [Element.Agrees, ← hsame]
        exact hown.node_agrees
    | token inner =>
        obtain ⟨token, rfl⟩ := hown.exists_token
        have hsame : inner.source = tree.text := hsource
        rw [Element.Agrees, ← hsame]
        exact hown.token_agrees
  · have heq := hfind one hone
    rw [hpath, hfind other hother] at heq
    exact (Option.some.inj heq).symm

def twoWords : Text := " é/**/ x\n".toList

def twoWordsCalls : List Call :=
  [.startNode .sourceFile,
    .token ⟨[⟨.whitespace, 1⟩], .identifier, ⟨1, 3⟩, [⟨.blockComment, 4⟩, ⟨.whitespace, 1⟩],
      by decide⟩,
    .startNode .error, .finishNode, .startNode .ident,
    .token ⟨[], .identifier, ⟨8, 9⟩, [⟨.whitespace, 1⟩], by decide⟩, .finishNode, .finishNode]

theorem agrees_of_reaches_twoWords :
    ∃ tree, build twoWords twoWordsCalls = .ok tree ∧ (∀ leaf ∈ tree.tree.leaves, leaf.Cut) ∧
      tree.root.tokens.map NodeToken.span = [⟨1, 3⟩, ⟨8, 9⟩] ∧
      ∀ element, tree.root.Reaches element → element.Agrees twoWords := by
  have hrun : (build twoWords twoWordsCalls).toOption.any (fun tree =>
      decide ((∀ leaf ∈ tree.tree.leaves, leaf.Cut) ∧
        tree.root.tokens.map NodeToken.span = [⟨1, 3⟩, ⟨8, 9⟩])) = true := by
    decide +kernel
  cases hbuild : build twoWords twoWordsCalls with
  | error fault =>
      rw [hbuild] at hrun
      cases hrun
  | ok tree =>
      rw [hbuild] at hrun
      obtain ⟨hcut, htokens⟩ := of_decide_eq_true hrun
      exact ⟨tree, rfl, hcut, htokens, (agrees_of_reaches hbuild hcut).1⟩

end Builder

end TdSyntax
