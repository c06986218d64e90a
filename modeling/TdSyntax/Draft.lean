import TdSyntax.Token.Basic
import TdSyntax.Tree.Basic

/-!
# Drafts

A draft is the outline of a tree over the tokens of a source text.  Besides
tokens and nodes there are nodes that have grown around a finished one: the
finished node turns out to be the first child of a larger node only when the
token behind it is seen.
-/

namespace TdSyntax

inductive Draft where
  | token (content : Token)
  | node (kind : Kind) (children : List Draft)
  | grown (kind : Kind) (first : Draft) (rest : List Draft)
  deriving Repr

def Token.leaf (token : Token) : Leaf where
  leading := token.leading.map TriviaText.piece
  kind := token.kind
  text := token.fullText
  trailing := token.trailing.map TriviaText.piece

namespace Draft

mutual

def tokens : Draft → List Token
  | .token content => [content]
  | .node _ children => tokensAll children
  | .grown _ first rest => tokens first ++ tokensAll rest

def tokensAll : List Draft → List Token
  | [] => []
  | first :: rest => tokens first ++ tokensAll rest

end

mutual

def tree : Draft → Tree
  | .token content => .leaf content.leaf
  | .node kind children => .branch kind (treeAll children)
  | .grown kind first rest => .branch kind (tree first :: treeAll rest)

def treeAll : List Draft → List Tree
  | [] => []
  | first :: rest => tree first :: treeAll rest

end

/-- A node around `first` and `rest` that begins where `first` does.  Only a
node can have another one grow around it. -/
def grow (kind : Kind) (first : Draft) (rest : List Draft) : Draft :=
  match first with
  | .token _ => .node kind (first :: rest)
  | _ => .grown kind first rest

def growLast (kind : Kind) (drafts rest : List Draft) : List Draft :=
  match drafts.getLast? with
  | none => [.node kind rest]
  | some last => drafts.dropLast ++ [grow kind last rest]

end Draft

end TdSyntax
