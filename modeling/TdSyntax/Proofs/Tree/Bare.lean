import TdSyntax.Proofs.Reading.Coverage
import TdSyntax.Proofs.Tree.Places

/-!
# Bare trees

A bare tree has the kinds, the shape and the trimmed token texts of a tree, and
neither trivia nor offsets.  Drafts have bare trees as well, and the tree that a draft
outlines has the same one.
-/

namespace TdSyntax

structure Word where
  kind : Kind
  text : Text
  deriving DecidableEq, Repr

def Token.word (token : Token) : Word := ⟨token.kind, token.text⟩

inductive BareTree where
  | token (word : Word)
  | node (kind : Kind) (children : List BareTree)
  deriving Repr

namespace BareTree

def growLast (kind : Kind) (trees rest : List BareTree) : List BareTree :=
  match trees.getLast? with
  | none => [.node kind rest]
  | some last => trees.dropLast ++ [.node kind (last :: rest)]

@[simp] theorem growLast_nil (kind : Kind) (rest : List BareTree) :
    growLast kind [] rest = [.node kind rest] := rfl

@[simp] theorem growLast_append_singleton (kind : Kind) (trees : List BareTree)
    (last : BareTree) (rest : List BareTree) :
    growLast kind (trees ++ [last]) rest = trees ++ [.node kind (last :: rest)] := by
  simp [growLast]

end BareTree

namespace Tree

mutual

def bare : Tree → Except Fault BareTree
  | .leaf content => do
      let text ← content.trimmed
      pure (.token ⟨content.kind, text⟩)
  | .branch kind children => do
      let children ← bareAll children
      pure (.node kind children)

def bareAll : List Tree → Except Fault (List BareTree)
  | [] => pure []
  | first :: rest => do
      let first ← bare first
      let rest ← bareAll rest
      pure (first :: rest)

end

end Tree

namespace Draft

mutual

def bare : Draft → BareTree
  | .token content => .token content.word
  | .node kind children => .node kind (bareAll children)
  | .grown kind first rest => .node kind (bare first :: bareAll rest)

def bareAll : List Draft → List BareTree
  | [] => []
  | first :: rest => bare first :: bareAll rest

end

theorem bareAll_eq_map (drafts : List Draft) : bareAll drafts = drafts.map bare := by
  induction drafts with
  | nil => rfl
  | cons draft drafts ih => simp [bareAll, ih]

theorem bareAll_append (first second : List Draft) :
    bareAll (first ++ second) = bareAll first ++ bareAll second := by
  simp [bareAll_eq_map]

theorem bareAll_map_token (tokens : List Token) :
    bareAll (tokens.map .token) = tokens.map (fun token => .token token.word) := by
  simp only [bareAll_eq_map, List.map_map]
  rfl

theorem bare_grow (kind : Kind) (first : Draft) (rest : List Draft) :
    (grow kind first rest).bare = .node kind (first.bare :: bareAll rest) := by
  cases first <;> simp [grow, bare, bareAll]

theorem bareAll_growLast (kind : Kind) (drafts rest : List Draft) :
    bareAll (growLast kind drafts rest) =
      BareTree.growLast kind (bareAll drafts) (bareAll rest) := by
  rcases List.eq_nil_or_concat drafts with rfl | ⟨before, last, rfl⟩
  · simp [Draft.growLast_nil, bareAll, bare]
  · rw [List.concat_eq_append, Draft.growLast_append_singleton, bareAll_append,
      bareAll_append]
    simp [bareAll, bare_grow]

mutual

theorem bare_tree : ∀ draft : Draft, draft.tree.bare = .ok draft.bare
  | .token content => by
      have htrimmed := content.leaf_trimmed
      simp only [tree, Tree.bare, htrimmed, bare, bind, Except.bind, pure, Except.pure]
      rfl
  | .node kind children => by
      simp only [tree, Tree.bare, bareAll_treeAll children, bare, bind, Except.bind, pure,
        Except.pure]
  | .grown kind first rest => by
      simp only [tree, Tree.bare, Tree.bareAll, bare_tree first, bareAll_treeAll rest, bare,
        bind, Except.bind, pure, Except.pure]

theorem bareAll_treeAll : ∀ drafts : List Draft,
    Tree.bareAll (treeAll drafts) = .ok (bareAll drafts)
  | [] => rfl
  | first :: rest => by
      simp only [treeAll, Tree.bareAll, bare_tree first, bareAll_treeAll rest, bareAll, bind,
        Except.bind, pure, Except.pure]

end

end Draft

end TdSyntax
