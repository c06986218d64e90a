import TdSyntax.Proofs.Reading.Coverage
import TdSyntax.Proofs.Token.Tiling
import TdSyntax.Proofs.Tree.Bears

/-!
# What a draft outlines

A draft outlines an element of a tree if both have the same shape and the same kinds
and the tokens of the element are those of the draft, places included.  A node with a
single token has the text of that token.
-/

namespace TdSyntax

namespace Draft

def shape? : Draft → Option (Kind × List Draft)
  | .token _ => none
  | .node kind parts => some (kind, parts)
  | .grown kind first rest => some (kind, first :: rest)

theorem shape?_grow (kind : Kind) (first : Draft) (rest : List Draft) :
    (grow kind first rest).shape? = some (kind, first :: rest) := by
  cases first <;> rfl

inductive Outlines : Draft → Element → Prop
  | token {token : Token} {placed : NodeToken} (h : placed.Shows token) :
      Outlines (.token token) (.token placed)
  | node {draft : Draft} {kind : Kind} {parts : List Draft} {node : Node}
      (hshape : draft.shape? = some (kind, parts)) (hkind : node.kind = kind)
      (hparts : List.Forall₂ Outlines parts node.elements)
      (htext : ∀ token, parts = [.token token] → node.text = .ok token.text) :
      Outlines draft (.node node)

theorem shows_kind {placed : NodeToken} {token : Token} (h : placed.Shows token) :
    placed.kind = token.kind := by
  rw [NodeToken.kind, h.leaf, Token.leaf]

theorem outlines_token {token : Token} {element : Element}
    (h : (Draft.token token).Outlines element) :
    ∃ placed, element = .token placed ∧ placed.Shows token := by
  cases h with
  | token hshows => exact ⟨_, rfl, hshows⟩
  | node hshape => cases hshape

mutual

theorem text_tree : ∀ draft : Draft, draft.tree.text = Token.joined draft.tokens
  | .token content => by simp [tree, tokens, Token.joined, Token.leaf]
  | .node kind children => textAll_treeAll children
  | .grown kind first rest => by
      rw [tree, Tree.text_branch, Tree.textAll_cons, text_tree first, textAll_treeAll rest, tokens,
        Token.joined_append]

theorem textAll_treeAll : ∀ drafts : List Draft,
    Tree.textAll (treeAll drafts) = Token.joined (tokensAll drafts)
  | [] => rfl
  | first :: rest => by
      rw [treeAll, Tree.textAll_cons, text_tree first, textAll_treeAll rest, tokensAll,
        Token.joined_append]

end

mutual

/-- A draft whose tokens tile a part of the source outlines its tree at this place. -/
theorem outlines_tree {source : Text} : ∀ (draft : Draft) (path : List Nat) (offset : Nat),
    source.HasAt offset (Token.joined draft.tokens) → Token.TileFrom offset draft.tokens →
    draft.Outlines (Element.ofTree source path offset draft.tree)
  | .token content, path, offset, htext, htiles =>
      .token (NodeToken.shows_of_hasAt (by simpa [tokens, Token.joined] using htext) htiles.1)
  | .node kind children, path, offset, htext, htiles => by
      refine .node rfl rfl (outlines_treeAll children path 0 offset htext htiles) ?_
      rintro token rfl
      exact Node.text_of_token (by simpa [tokens, tokensAll, Token.joined] using htext)
  | .grown kind first rest, path, offset, htext, htiles => by
      obtain ⟨hfirst, hrest⟩ := Token.tileFrom_append.1 htiles
      have hjoined := htext
      rw [tokens, Token.joined_append] at htext
      refine .node rfl rfl (.cons (outlines_tree first (0 :: path) offset htext.left hfirst) ?_) ?_
      · have hsize : first.tree.size = (Token.joined first.tokens).size := by
          rw [Tree.size_eq_size_text, text_tree]
        rw [hsize]
        exact outlines_treeAll rest path 1 _ htext.right hrest
      · rintro token hparts
        obtain ⟨rfl, rfl⟩ := List.cons.inj hparts
        exact Node.text_of_token (by simpa [tokens, tokensAll, Token.joined] using hjoined)

theorem outlines_treeAll {source : Text} :
    ∀ (drafts : List Draft) (path : List Nat) (index offset : Nat),
      source.HasAt offset (Token.joined (tokensAll drafts)) →
      Token.TileFrom offset (tokensAll drafts) →
      List.Forall₂ Outlines drafts
        (Element.ofSiblings source path index offset (treeAll drafts))
  | [], _, _, _, _, _ => .nil
  | first :: rest, path, index, offset, htext, htiles => by
      rw [tokensAll, Token.joined_append] at htext
      obtain ⟨hfirst, hrest⟩ := Token.tileFrom_append.1 htiles
      refine .cons (outlines_tree first (index :: path) offset htext.left hfirst) ?_
      have hsize : first.tree.size = (Token.joined first.tokens).size := by
        rw [Tree.size_eq_size_text, text_tree]
      rw [hsize]
      exact outlines_treeAll rest path (index + 1) _ htext.right hrest

end

theorem tokens_root {text : Text} {drafts : List Draft}
    (h : tokensAll drafts = (TokenList.ofText text).tokens) :
    (Draft.node .sourceFile (drafts ++ [.token (TokenList.ofText text).eof])).tokens =
      tokenize text := by
  rw [Draft.tokens, Draft.tokensAll_append, h]
  rfl

theorem outlines_root {text : Text} {drafts : List Draft}
    (h : tokensAll drafts = (TokenList.ofText text).tokens) :
    (Draft.node .sourceFile (drafts ++ [.token (TokenList.ofText text).eof])).Outlines
      (.node (SourceTree.root ⟨.sourceFile,
        treeAll (drafts ++ [.token (TokenList.ofText text).eof]), text⟩)) := by
  have hall := tokens_root h
  obtain ⟨htiles, hjoined⟩ := tokenize_tiles text
  refine outlines_tree _ [] 0 ?_ (hall ▸ htiles)
  rw [hall, hjoined]
  exact ⟨[], [], by simp, rfl⟩

end Draft

end TdSyntax
