import TdSyntax.Fault
import TdSyntax.Text.Quoted
import TdSyntax.Trivia

/-!
# Trees

A tree is a leaf, which is a token with its trivia, or a branch with a kind and
its subtrees in order.  A tree has a size but no position, so equal parts of a
source text have equal trees wherever they stand.
-/

namespace TdSyntax

/-- A token as a tree keeps it.  Its text includes the trivia, of which the
kinds and lengths are listed. -/
structure Leaf where
  leading : List TriviaPiece
  kind : Kind
  text : Text
  trailing : List TriviaPiece
  deriving DecidableEq, Repr

namespace Leaf

/-- A leaf whose trivia has to fit into its text. -/
def ofParts (leading : List TriviaPiece) (kind : Kind) (text : Text)
    (trailing : List TriviaPiece) : Except Fault Leaf :=
  if TriviaPiece.total leading + TriviaPiece.total trailing ≤ text.size then
    .ok ⟨leading, kind, text, trailing⟩
  else .error .triviaTooLong

def size (leaf : Leaf) : Nat := leaf.text.size

def trimmedSpan (leaf : Leaf) : Nat × Nat :=
  (TriviaPiece.total leaf.leading, leaf.size - TriviaPiece.total leaf.trailing)

def trimmed (leaf : Leaf) : Except Fault Text :=
  match leaf.text.slice? leaf.trimmedSpan.1 leaf.trimmedSpan.2 with
  | some text => .ok text
  | none => .error .badSlice

end Leaf

inductive Tree where
  | leaf (content : Leaf)
  | branch (kind : Kind) (children : List Tree)
  deriving Repr

namespace Tree

def kind : Tree → Kind
  | .leaf content => content.kind
  | .branch kind _ => kind

mutual

def size : Tree → Nat
  | .leaf content => content.size
  | .branch _ children => sizeAll children

def sizeAll : List Tree → Nat
  | [] => 0
  | first :: rest => size first + sizeAll rest

end

mutual

def leaves : Tree → List Leaf
  | .leaf content => [content]
  | .branch _ children => leavesAll children

def leavesAll : List Tree → List Leaf
  | [] => []
  | first :: rest => leaves first ++ leavesAll rest

end

mutual

def firstLeaf? : Tree → Option Leaf
  | .leaf content => some content
  | .branch _ children => firstLeafAll? children

def firstLeafAll? : List Tree → Option Leaf
  | [] => none
  | first :: rest =>
      match firstLeaf? first with
      | some content => some content
      | none => firstLeafAll? rest

end

mutual

def lastLeaf? : Tree → Option Leaf
  | .leaf content => some content
  | .branch _ children => lastLeafAll? children

def lastLeafAll? : List Tree → Option Leaf
  | [] => none
  | first :: rest =>
      match lastLeafAll? rest with
      | some content => some content
      | none => lastLeaf? first

end

mutual

theorem firstLeaf?_eq : ∀ tree : Tree, tree.firstLeaf? = tree.leaves.head?
  | .leaf content => by simp [firstLeaf?, leaves]
  | .branch _ children => by simp [firstLeaf?, leaves, firstLeafAll?_eq children]

theorem firstLeafAll?_eq : ∀ trees : List Tree,
    firstLeafAll? trees = (leavesAll trees).head?
  | [] => by simp [firstLeafAll?, leavesAll]
  | first :: rest => by
      rw [firstLeafAll?, leavesAll, List.head?_append, firstLeaf?_eq first,
        firstLeafAll?_eq rest]
      cases (leaves first).head? <;> rfl

end

mutual

theorem lastLeaf?_eq : ∀ tree : Tree, tree.lastLeaf? = tree.leaves.getLast?
  | .leaf content => by simp [lastLeaf?, leaves]
  | .branch _ children => by simp [lastLeaf?, leaves, lastLeafAll?_eq children]

theorem lastLeafAll?_eq : ∀ trees : List Tree,
    lastLeafAll? trees = (leavesAll trees).getLast?
  | [] => by simp [lastLeafAll?, leavesAll]
  | first :: rest => by
      rw [lastLeafAll?, leavesAll, List.getLast?_append, lastLeaf?_eq first,
        lastLeafAll?_eq rest]
      cases (leavesAll rest).getLast? <;> rfl

end

def text (tree : Tree) : Text := tree.leaves.flatMap Leaf.text

mutual

def same : Tree → Tree → Bool
  | .leaf first, .leaf second => first == second
  | .branch firstKind first, .branch secondKind second =>
      firstKind == secondKind && sameAll first second
  | .leaf _, .branch _ _ => false
  | .branch _ _, .leaf _ => false

def sameAll : List Tree → List Tree → Bool
  | [], [] => true
  | first :: firstRest, second :: secondRest =>
      same first second && sameAll firstRest secondRest
  | [], _ :: _ => false
  | _ :: _, [] => false

end

mutual

theorem same_iff : ∀ first second : Tree, same first second = true ↔ first = second
  | .leaf first, .leaf second => by simp [same]
  | .branch firstKind first, .branch secondKind second => by
      simp [same, sameAll_iff first second]
  | .leaf _, .branch _ _ => by simp [same]
  | .branch _ _, .leaf _ => by simp [same]

theorem sameAll_iff : ∀ first second : List Tree, sameAll first second = true ↔ first = second
  | [], [] => by simp [sameAll]
  | first :: firstRest, second :: secondRest => by
      simp [sameAll, same_iff first second, sameAll_iff firstRest secondRest]
  | [], _ :: _ => by simp [sameAll]
  | _ :: _, [] => by simp [sameAll]

end

instance : DecidableEq Tree := fun first second =>
  decidable_of_iff (same first second = true) (same_iff first second)

end Tree

structure SourceTree where
  kind : Kind
  children : List Tree
  text : Text
  deriving DecidableEq, Repr

def SourceTree.tree (source : SourceTree) : Tree := .branch source.kind source.children

end TdSyntax
