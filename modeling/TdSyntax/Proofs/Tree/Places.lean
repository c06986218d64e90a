import Mathlib.Data.List.Forall2
import TdSyntax.Draft
import TdSyntax.Tree.Walk

/-!
# Trees at their places

A tree stands at an offset of a source text if the text goes on with the text of
the tree there.  Then all its parts stand at their places too, and every range that
is computed from the sizes of trees and trivia can be sliced out of the source.
-/

namespace TdSyntax

namespace Text

theorem slice?_append (before part after : Text) :
    slice? before.size (before.size + part.size) (before ++ part ++ after) = some part := by
  have hlong : ¬ before.size + part.size < before.size := by omega
  simp only [slice?, List.append_assoc, splitAt?_size, Option.bind_eq_bind, Option.bind_some,
    if_neg hlong, Nat.add_sub_cancel_left]
  rfl

end Text

theorem sourceSlice_append (before part after : Text) :
    sourceSlice (before ++ part ++ after) ⟨before.size, before.size + part.size⟩ = .ok part := by
  simp only [sourceSlice, Text.slice?_append]

namespace Token

theorem leaf_trimmedSpan (token : Token) : token.leaf.trimmedSpan =
    ((TriviaText.joined token.leading).size,
      (TriviaText.joined token.leading).size + token.text.size) := by
  simp only [Leaf.trimmedSpan, leaf, TriviaText.total_map_piece, Leaf.size, fullText,
    Text.size_append, Prod.mk.injEq, true_and]
  omega

theorem leaf_trimmed (token : Token) : token.leaf.trimmed = .ok token.text := by
  have hslice := Text.slice?_append (TriviaText.joined token.leading) token.text
    (TriviaText.joined token.trailing)
  rw [Leaf.trimmed, leaf_trimmedSpan]
  simp only [leaf, fullText, hslice]

end Token

namespace Draft

mutual

theorem leaves_tree : ∀ draft : Draft, draft.tree.leaves = draft.tokens.map Token.leaf
  | .token content => rfl
  | .node _ children => by simp [tree, tokens, Tree.leaves, leavesAll_treeAll children]
  | .grown _ first rest => by
      simp [tree, tokens, Tree.leaves, Tree.leavesAll, leaves_tree first, leavesAll_treeAll rest]

theorem leavesAll_treeAll : ∀ drafts : List Draft,
    Tree.leavesAll (treeAll drafts) = (tokensAll drafts).map Token.leaf
  | [] => rfl
  | first :: rest => by
      simp [treeAll, tokensAll, Tree.leavesAll, leaves_tree first, leavesAll_treeAll rest]

end

end Draft

namespace Tree

def textAll (trees : List Tree) : Text := (leavesAll trees).flatMap Leaf.text

@[simp] theorem text_leaf (content : Leaf) : (leaf content).text = content.text := by
  simp [text, leaves]

@[simp] theorem text_branch (kind : Kind) (children : List Tree) :
    (branch kind children).text = textAll children := rfl

@[simp] theorem textAll_nil : textAll [] = [] := rfl

@[simp] theorem textAll_cons (first : Tree) (rest : List Tree) :
    textAll (first :: rest) = first.text ++ textAll rest := by
  simp [textAll, text, leavesAll]

mutual

theorem size_eq_size_text : ∀ tree : Tree, tree.size = tree.text.size
  | .leaf content => by simp [size, Leaf.size]
  | .branch _ children => by simp [size, sizeAll_eq_size_textAll children]

theorem sizeAll_eq_size_textAll : ∀ trees : List Tree, sizeAll trees = (textAll trees).size
  | [] => rfl
  | first :: rest => by
      simp [sizeAll, size_eq_size_text first, sizeAll_eq_size_textAll rest]

end

end Tree

def Text.HasAt (source : Text) (offset : Nat) (part : Text) : Prop :=
  ∃ before after, source = before ++ part ++ after ∧ offset = before.size

namespace Text.HasAt

variable {source first second : Text} {offset : Nat}

theorem left (h : source.HasAt offset (first ++ second)) : source.HasAt offset first := by
  obtain ⟨before, after, hsource, hoffset⟩ := h
  exact ⟨before, second ++ after, by simp [hsource], hoffset⟩

theorem right (h : source.HasAt offset (first ++ second)) :
    source.HasAt (offset + first.size) second := by
  obtain ⟨before, after, hsource, hoffset⟩ := h
  exact ⟨before ++ first, after, by simp [hsource], by simp [hoffset]⟩

theorem slice (h : source.HasAt offset first) :
    sourceSlice source ⟨offset, offset + first.size⟩ = .ok first := by
  obtain ⟨before, after, rfl, rfl⟩ := h
  exact sourceSlice_append before first after

end Text.HasAt

def PlacedTrivia.content (trivia : PlacedTrivia) : TriviaText := ⟨trivia.kind, trivia.text⟩

namespace NodeToken

theorem placeTrivia_of_hasAt {source : Text} (trivia : List TriviaText) {offset : Nat}
    (h : source.HasAt offset (TriviaText.joined trivia)) :
    ∃ placed, placeTrivia source offset (trivia.map TriviaText.piece) = .ok placed ∧
      placed.map PlacedTrivia.content = trivia := by
  induction trivia generalizing offset with
  | nil => exact ⟨[], rfl, rfl⟩
  | cons first rest ih =>
      have hslice : sourceSlice source ⟨offset, offset + first.piece.length⟩ = .ok first.text :=
        h.left.slice
      obtain ⟨placed, hplaced, hcontent⟩ := @ih (offset + first.piece.length) h.right
      refine ⟨⟨first.kind, ⟨offset, offset + first.piece.length⟩, first.text⟩ :: placed, ?_, ?_⟩
      · simp only [List.map_cons, placeTrivia, hslice, hplaced, bind, Except.bind, pure,
          Except.pure]
        rfl
      · simp [PlacedTrivia.content, hcontent]

/-- A token of a tree is a token of the source: kind, place, text and trivia. -/
structure Shows (placed : NodeToken) (token : Token) : Prop where
  leaf : placed.leaf = token.leaf
  span : placed.span = token.span
  text : placed.text = .ok token.text
  leading : ∃ trivia, placed.leadingTrivia = .ok trivia ∧
    trivia.map PlacedTrivia.content = token.leading
  trailing : ∃ trivia, placed.trailingTrivia = .ok trivia ∧
    trivia.map PlacedTrivia.content = token.trailing

theorem shows_of_hasAt {path : List Nat} {source : Text} {offset : Nat} {token : Token}
    (h : source.HasAt offset token.fullText)
    (hstart : token.start = offset + (TriviaText.joined token.leading).size) :
    Shows ⟨path, token.leaf, offset, source⟩ token := by
  have hspan : NodeToken.span ⟨path, token.leaf, offset, source⟩ = token.span := by
    simp only [NodeToken.span, token.leaf_trimmedSpan, Token.span, Token.stop, hstart,
      Nat.add_assoc]
  refine ⟨rfl, hspan, token.leaf_trimmed, placeTrivia_of_hasAt token.leading h.left.left, ?_⟩
  have htrailing := h.right
  rw [Text.size_append, ← Nat.add_assoc, ← hstart] at htrailing
  rw [trailingTrivia, hspan]
  exact placeTrivia_of_hasAt token.trailing htrailing

end NodeToken

namespace Tree

def placeLeaves : Nat → List Leaf → List (Leaf × Nat)
  | _, [] => []
  | offset, first :: rest => (first, offset) :: placeLeaves (offset + first.size) rest

theorem placeLeaves_append (offset : Nat) (first second : List Leaf) :
    placeLeaves offset (first ++ second) = placeLeaves offset first ++
      placeLeaves (offset + Text.size (first.flatMap Leaf.text)) second := by
  induction first generalizing offset with
  | nil => rfl
  | cons leaf first ih => simp [placeLeaves, ih, Leaf.size, Nat.add_assoc]

mutual

theorem tokens_events (source : Text) : ∀ (tree : Tree) (path : List Nat) (offset : Nat),
    List.Forall₂ (fun placed leaf => placed.leaf = leaf.1 ∧ placed.offset = leaf.2 ∧
        placed.source = source)
      ((tree.events source path offset).filterMap WalkEvent.token?)
      (placeLeaves offset tree.leaves)
  | .leaf content, path, offset => .cons ⟨rfl, rfl, rfl⟩ .nil
  | .branch kind children, path, offset => by
      have hchildren := tokens_eventsAll source children path 0 offset
      rw [events, List.filterMap_cons_none rfl, List.filterMap_append,
        List.filterMap_cons_none rfl, List.filterMap_nil, List.append_nil, leaves]
      exact hchildren

theorem tokens_eventsAll (source : Text) :
    ∀ (trees : List Tree) (path : List Nat) (index offset : Nat),
      List.Forall₂ (fun placed leaf => placed.leaf = leaf.1 ∧ placed.offset = leaf.2 ∧
          placed.source = source)
        ((eventsAll source path index offset trees).filterMap WalkEvent.token?)
        (placeLeaves offset (leavesAll trees))
  | [], _, _, _ => .nil
  | first :: rest, path, index, offset => by
      have hfirst := tokens_events source first (index :: path) offset
      have hrest := tokens_eventsAll source rest path (index + 1) (offset + first.size)
      rw [size_eq_size_text] at hrest
      rw [eventsAll, List.filterMap_append, leavesAll, placeLeaves_append]
      exact List.rel_append hfirst (by simpa [size_eq_size_text, text] using hrest)

end

end Tree

end TdSyntax
