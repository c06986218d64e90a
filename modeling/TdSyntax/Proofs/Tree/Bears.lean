import TdSyntax.Proofs.Tree.Bare
import TdSyntax.View.Children

/-!
# Bare trees of nodes

An element of a tree at its place bears a bare tree if its kinds, its shape and the
texts of its tokens are those of the bare tree.  What the children of a node are
searched for is then found among the children of the bare tree.
-/

namespace TdSyntax

namespace BareTree

def kind : BareTree → Kind
  | .token word => word.kind
  | .node kind _ => kind

def isOf (member : Kind → Bool) : BareTree → Bool
  | .token _ => false
  | .node kind _ => member kind

def wordOf? (kind : Kind) : BareTree → Option Word
  | .token word => if word.kind == kind then some word else none
  | .node _ _ => none

end BareTree

def NodeToken.Bears (token : NodeToken) (word : Word) : Prop :=
  token.kind = word.kind ∧ token.text = .ok word.text

/-- An element has the kinds, the shape and the texts of a bare tree. -/
inductive Element.Bears : Element → BareTree → Prop
  | token {token : NodeToken} {word : Word} (h : token.Bears word) :
      Bears (.token token) (.token word)
  | node {node : Node} {kind : Kind} {children : List BareTree} (hkind : node.kind = kind)
      (helements : List.Forall₂ Bears node.elements children)
      (htext : ∀ word, children = [.token word] → node.text = .ok word.text) :
      Bears (.node node) (.node kind children)

def Node.Bears (node : Node) (tree : BareTree) : Prop := (Element.node node).Bears tree

/-! ## The trees that drafts outline -/

theorem Node.text_of_token {path : List Nat} {kind : Kind} {token : Token} {offset : Nat}
    {source : Text} (h : source.HasAt offset token.fullText) :
    Node.text ⟨path, kind, [.leaf token.leaf], offset, source⟩ = .ok token.text := by
  have hslice := h.left.right.slice
  have hstop : offset + token.leaf.size - token.leaf.size +
      ((TriviaText.joined token.leading).size + token.text.size) =
        offset + (TriviaText.joined token.leading).size + token.text.size := by
    omega
  simp only [Node.text, Node.span, Node.tree, Tree.firstLeaf?, Tree.firstLeafAll?, Tree.lastLeaf?,
    Tree.lastLeafAll?, Node.fullSpan, Tree.size, Tree.sizeAll, token.leaf_trimmedSpan,
    Nat.add_zero, hstop]
  exact hslice

namespace Draft

theorem eq_of_bareAll_eq_token {drafts : List Draft} {word : Word}
    (h : bareAll drafts = [.token word]) :
    ∃ token, drafts = [.token token] ∧ token.word = word := by
  rw [bareAll_eq_map] at h
  obtain ⟨draft, rest, rfl, hdraft, hrest⟩ := List.map_eq_cons_iff.1 h
  obtain rfl := List.map_eq_nil_iff.1 hrest
  cases draft with
  | token content => exact ⟨content, rfl, by simpa [bare] using hdraft⟩
  | node kind children => simp [bare] at hdraft
  | grown kind first rest => simp [bare] at hdraft

mutual

theorem bears_bare {source : Text} : ∀ (draft : Draft) (path : List Nat) (offset : Nat),
    source.HasAt offset draft.tree.text →
    (Element.ofTree source path offset draft.tree).Bears draft.bare
  | .token content, path, offset, _ => .token ⟨rfl, content.leaf_trimmed⟩
  | .node kind children, path, offset, h => by
      refine .node rfl (bears_bareAll children path 0 offset h) fun word hword => ?_
      obtain ⟨token, rfl, rfl⟩ := eq_of_bareAll_eq_token hword
      simp only [tree, Tree.text_branch, treeAll, Tree.textAll_cons, Tree.text_leaf,
        Tree.textAll_nil, List.append_nil] at h
      exact Node.text_of_token h
  | .grown kind first rest, path, offset, h => by
      rw [tree, Tree.text_branch, Tree.textAll_cons] at h
      have hall : (Element.ofTree source path offset (Tree.branch kind
          (treeAll (first :: rest)))).Bears (.node kind (bareAll (first :: rest))) := by
        have hfirst := bears_bare first (0 :: path) offset h.left
        have hrest := bears_bareAll rest path 1 (offset + first.tree.size) (by
          rw [Tree.size_eq_size_text]
          exact h.right)
        refine .node rfl (.cons hfirst hrest) fun word hword => ?_
        obtain ⟨token, hdrafts, rfl⟩ := eq_of_bareAll_eq_token hword
        obtain ⟨rfl, rfl⟩ := List.cons.inj hdrafts
        simp only [tree, treeAll, Tree.text_leaf, Tree.textAll_nil, List.append_nil] at h
        exact Node.text_of_token h
      exact hall

theorem bears_bareAll {source : Text} :
    ∀ (drafts : List Draft) (path : List Nat) (index offset : Nat),
      source.HasAt offset (Tree.textAll (treeAll drafts)) →
      List.Forall₂ Element.Bears (Element.ofSiblings source path index offset (treeAll drafts))
        (bareAll drafts)
  | [], _, _, _, _ => .nil
  | first :: rest, path, index, offset, h => by
      rw [treeAll, Tree.textAll_cons] at h
      refine .cons (bears_bare first (index :: path) offset h.left) ?_
      refine bears_bareAll rest path (index + 1) (offset + first.tree.size) ?_
      rw [Tree.size_eq_size_text]
      exact h.right

end

end Draft

/-! ## Finding children -/

namespace Element.Bears

variable {element : Element} {elements : List Element} {tree : BareTree} {trees : List BareTree}

theorem kind_eq (h : element.Bears tree) : element.kind = tree.kind := by
  cases h with
  | token h => exact h.1
  | node hkind => exact hkind

theorem filter_nodes (h : List.Forall₂ Element.Bears elements trees) (member : Kind → Bool) :
    List.Forall₂ Node.Bears
      ((elements.filterMap Element.node?).filter fun child => member child.kind)
      (trees.filter (BareTree.isOf member)) := by
  induction h with
  | nil => exact .nil
  | cons hfirst _ ih =>
      cases hfirst with
      | token hword => exact ih
      | node hkind helements htext =>
          rename_i node kind children
          have hnode : Node.Bears node (.node kind children) := .node hkind helements htext
          have hchild : member node.kind = BareTree.isOf member (.node kind children) := by
            rw [hkind]
            rfl
          simp only [List.filterMap_cons, Element.node?, List.filter_cons, hchild]
          split
          · exact .cons hnode ih
          · exact ih

theorem tokens (h : List.Forall₂ Element.Bears elements trees) (kind : Kind) :
    List.Forall₂ NodeToken.Bears
      ((elements.filterMap Element.token?).filter fun token => token.kind == kind)
      (trees.filterMap (BareTree.wordOf? kind)) := by
  induction h with
  | nil => exact .nil
  | cons hfirst _ ih =>
      cases hfirst with
      | node hkind helements htext => exact ih
      | token hword =>
          simp only [List.filterMap_cons, Element.token?, List.filter_cons, hword.1,
            BareTree.wordOf?]
          split
          · exact .cons hword ih
          · exact ih

theorem tokens_of_words {words : List Word}
    (h : List.Forall₂ Element.Bears elements (words.map .token)) :
    List.Forall₂ NodeToken.Bears (elements.filterMap Element.token?) words := by
  induction words generalizing elements with
  | nil =>
      obtain rfl := List.forall₂_nil_right_iff.1 h
      exact .nil
  | cons word words ih =>
      obtain ⟨element, rest, hfirst, hrest, rfl⟩ := List.forall₂_cons_right_iff.1 h
      cases hfirst with
      | token hword => exact .cons hword (ih hrest)

theorem takeWhile (h : List.Forall₂ Element.Bears elements trees) (kind : Kind) :
    List.Forall₂ Element.Bears (elements.takeWhile fun element => element.kind ≠ kind)
      (trees.takeWhile fun tree => tree.kind ≠ kind) := by
  induction h with
  | nil => exact .nil
  | cons hfirst _ ih =>
      simp only [List.takeWhile_cons, hfirst.kind_eq]
      split
      · exact .cons hfirst ih
      · exact .nil

theorem dropWhile (h : List.Forall₂ Element.Bears elements trees) (kind : Kind) :
    List.Forall₂ Element.Bears (elements.dropWhile fun element => element.kind ≠ kind)
      (trees.dropWhile fun tree => tree.kind ≠ kind) := by
  induction h with
  | nil => exact .nil
  | cons hfirst hrest ih =>
      simp only [List.dropWhile_cons, hfirst.kind_eq]
      split
      · exact ih
      · exact .cons hfirst hrest

end Element.Bears

section Lookup

variable {α β : Type} {related : α → β → Prop}

theorem rel_head? {first : List α} {second : List β} (h : List.Forall₂ related first second) :
    Option.Rel related first.head? second.head? := by
  cases h with
  | nil => exact .none
  | cons hfirst _ => exact .some hfirst

theorem exists_related {first : List α} {second : List β} {b : β}
    (h : List.Forall₂ related first second) (hmem : b ∈ second) : ∃ a ∈ first, related a b := by
  induction h with
  | nil => cases hmem
  | cons hfirst _ ih =>
      rcases List.mem_cons.1 hmem with rfl | hmem
      · exact ⟨_, List.mem_cons_self, hfirst⟩
      · obtain ⟨a, hfound, hrelated⟩ := ih hmem
        exact ⟨a, List.mem_cons_of_mem _ hfound, hrelated⟩

theorem found {first : Option α} {second : Option β} {b : β} (h : Option.Rel related first second)
    (hsecond : second = some b) : ∃ a, first = some a ∧ related a b := by
  subst hsecond
  cases h with
  | some hab => exact ⟨_, rfl, hab⟩

theorem notFound {first : Option α} {second : Option β} (h : Option.Rel related first second)
    (hsecond : second = none) : first = none := by
  subst hsecond
  cases h with
  | none => rfl

end Lookup

namespace Node

variable {node : Node} {kind : Kind} {children : List BareTree}

theorem Bears.kind_eq (h : node.Bears (.node kind children)) : node.kind = kind := by
  cases h with
  | node hkind _ _ => exact hkind

theorem Bears.elements (h : node.Bears (.node kind children)) :
    List.Forall₂ Element.Bears node.elements children := by
  cases h with
  | node _ helements _ => exact helements

theorem Bears.single {word : Word} (h : node.Bears (.node kind [.token word])) :
    ∃ token, node.elements = [.token token] ∧ token.Bears word := by
  obtain ⟨element, rest, hfirst, hrest, heq⟩ := List.forall₂_cons_right_iff.1 h.elements
  obtain rfl := List.forall₂_nil_right_iff.1 hrest
  cases hfirst with
  | token hword => exact ⟨_, heq, hword⟩

theorem Bears.text {word : Word} (h : node.Bears (.node kind [.token word])) :
    node.text = .ok word.text := by
  cases h with
  | node _ _ htext => exact htext word rfl

theorem allOf_bears (h : List.Forall₂ Element.Bears node.elements children)
    (member : Kind → Bool) :
    List.Forall₂ Node.Bears (node.allOf member) (children.filter (BareTree.isOf member)) :=
  Element.Bears.filter_nodes h member

theorem firstOf?_bears (h : List.Forall₂ Element.Bears node.elements children)
    (member : Kind → Bool) :
    Option.Rel Node.Bears (node.firstOf? member) (children.find? (BareTree.isOf member)) := by
  rw [firstOf?, ← List.head?_filter, ← List.head?_filter]
  exact rel_head? (allOf_bears h member)

theorem childOfKind?_bears (h : List.Forall₂ Element.Bears node.elements children)
    (kind : Kind) :
    Option.Rel Node.Bears (node.childOfKind? kind) (children.find? (BareTree.isOf (· == kind))) :=
  firstOf?_bears h (· == kind)

theorem firstBefore?_bears (h : List.Forall₂ Element.Bears node.elements children)
    (separator : Kind) (member : Kind → Bool) :
    Option.Rel Node.Bears (node.firstBefore? separator member)
      ((children.takeWhile fun tree => tree.kind ≠ separator).find? (BareTree.isOf member)) := by
  rw [firstBefore?, ← List.head?_filter, ← List.head?_filter]
  exact rel_head? (Element.Bears.filter_nodes (Element.Bears.takeWhile h separator) member)

theorem firstAfter?_bears (h : List.Forall₂ Element.Bears node.elements children)
    (separator : Kind) (member : Kind → Bool) :
    Option.Rel Node.Bears (node.firstAfter? separator member)
      ((children.dropWhile fun tree => tree.kind ≠ separator).find? (BareTree.isOf member)) := by
  rw [firstAfter?, ← List.head?_filter, ← List.head?_filter]
  exact rel_head? (Element.Bears.filter_nodes (Element.Bears.dropWhile h separator) member)

theorem tokenOfKind?_bears (h : List.Forall₂ Element.Bears node.elements children)
    (kind : Kind) :
    Option.Rel NodeToken.Bears (node.tokenOfKind? kind)
      (children.findSome? (BareTree.wordOf? kind)) := by
  rw [tokenOfKind?, ← List.head?_filter, ← List.head?_filterMap]
  exact rel_head? (Element.Bears.tokens h kind)

end Node

end TdSyntax
