import TdSyntax.BangOperator
import TdSyntax.Kind.Class
import TdSyntax.Tree.Node

/-!
# Finding children

The parts of a production are found among the children of a node by their class,
and by the side of a separating token on which they stand.
-/

namespace TdSyntax

namespace Kind

def isBodyItem : Kind → Bool
  | .field | .letInstruction | .defvarStmt | .assertStmt => true
  | _ => false

def isMulticlassStatement : Kind → Bool
  | .assertStmt | .defStmt | .defmStmt | .defvarStmt | .foreachStmt | .ifStmt | .letStmt => true
  | _ => false

end Kind

namespace Node

def allOf (node : Node) (member : Kind → Bool) : List Node :=
  node.nodes.filter fun child => member child.kind

def firstOf? (node : Node) (member : Kind → Bool) : Option Node :=
  node.nodes.find? fun child => member child.kind

/-- The first child whose kind is in a class, from the first element of the
given kind on. -/
def firstAfter? (node : Node) (separator : Kind) (member : Kind → Bool) : Option Node :=
  ((node.elements.dropWhile fun element => element.kind ≠ separator).filterMap
    Element.node?).find? fun child => member child.kind

def firstBefore? (node : Node) (separator : Kind) (member : Kind → Bool) : Option Node :=
  ((node.elements.takeWhile fun element => element.kind ≠ separator).filterMap
    Element.node?).find? fun child => member child.kind

def hasToken (node : Node) (kind : Kind) : Bool := (node.tokenOfKind? kind).isSome

end Node

end TdSyntax
