import TdSyntax.Span
import TdSyntax.Tree.Basic

/-!
# Places in a tree

A node is a branch of a tree together with its place: the way to it from the
root, its offset, and the source text.  Two nodes are equal when they stand at
one place, so equal subtrees at different places remain apart.
-/

namespace TdSyntax

def sourceSlice (source : Text) (span : Span) : Except Fault Text :=
  match source.slice? span.start span.stop with
  | some text => .ok text
  | none => .error .badSlice

structure Node where
  path : List Nat
  kind : Kind
  children : List Tree
  offset : Nat
  source : Text
  deriving DecidableEq, Repr

structure NodeToken where
  path : List Nat
  leaf : Leaf
  offset : Nat
  source : Text
  deriving DecidableEq, Repr

inductive Element where
  | node (inner : Node)
  | token (inner : NodeToken)
  deriving DecidableEq, Repr

structure PlacedTrivia where
  kind : TriviaKind
  span : Span
  text : Text
  deriving DecidableEq, Repr

namespace NodeToken

def kind (token : NodeToken) : Kind := token.leaf.kind

def fullSpan (token : NodeToken) : Span := ⟨token.offset, token.offset + token.leaf.size⟩

def span (token : NodeToken) : Span :=
  ⟨token.offset + token.leaf.trimmedSpan.1, token.offset + token.leaf.trimmedSpan.2⟩

def fullText (token : NodeToken) : Text := token.leaf.text

def text (token : NodeToken) : Except Fault Text := token.leaf.trimmed

def placeTrivia (source : Text) : Nat → List TriviaPiece → Except Fault (List PlacedTrivia)
  | _, [] => .ok []
  | offset, piece :: rest => do
      let span : Span := ⟨offset, offset + piece.length⟩
      let text ← sourceSlice source span
      let placed ← placeTrivia source span.stop rest
      pure (⟨piece.kind, span, text⟩ :: placed)

def leadingTrivia (token : NodeToken) : Except Fault (List PlacedTrivia) :=
  placeTrivia token.source token.offset token.leaf.leading

def trailingTrivia (token : NodeToken) : Except Fault (List PlacedTrivia) :=
  placeTrivia token.source token.span.stop token.leaf.trailing

def reference (token : NodeToken) : Except Fault String := do
  let text ← token.text
  pure (token.kind.label ++ "@" ++ token.span.render ++ " " ++ String.ofList text.quoted)

end NodeToken

def Element.ofTree (source : Text) (path : List Nat) (offset : Nat) : Tree → Element
  | .leaf leaf => .token ⟨path, leaf, offset, source⟩
  | .branch kind children => .node ⟨path, kind, children, offset, source⟩

namespace Element

def kind : Element → Kind
  | .node inner => inner.kind
  | .token inner => inner.kind

def node? : Element → Option Node
  | .node inner => some inner
  | .token _ => none

def token? : Element → Option NodeToken
  | .node _ => none
  | .token inner => some inner

def ofSiblings (source : Text) (path : List Nat) : Nat → Nat → List Tree → List Element
  | _, _, [] => []
  | index, offset, first :: rest =>
      ofTree source (index :: path) offset first ::
        ofSiblings source path (index + 1) (offset + first.size) rest

end Element

namespace Node

def tree (node : Node) : Tree := .branch node.kind node.children

def fullSpan (node : Node) : Span := ⟨node.offset, node.offset + node.tree.size⟩

def elements (node : Node) : List Element :=
  Element.ofSiblings node.source node.path 0 node.offset node.children

def nodes (node : Node) : List Node := node.elements.filterMap Element.node?

def childOfKind? (node : Node) (kind : Kind) : Option Node :=
  node.nodes.find? fun child => child.kind == kind

def tokenOfKind? (node : Node) (kind : Kind) : Option NodeToken :=
  (node.elements.filterMap Element.token?).find? fun token => token.kind == kind

def fullText (node : Node) : Except Fault Text := sourceSlice node.source node.fullSpan

def reference (node : Node) : String := node.kind.label ++ "@" ++ node.fullSpan.render

end Node

namespace Element

def fullSpan : Element → Span
  | .node inner => inner.fullSpan
  | .token inner => inner.fullSpan

end Element

def SourceTree.root (source : SourceTree) : Node :=
  ⟨[], source.kind, source.children, 0, source.text⟩

end TdSyntax
