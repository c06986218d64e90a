import TdSyntax.Proofs.Token.Joined
import TdSyntax.Proofs.Tree.Bare

/-!
# Trees that are alike but for outer trivia

Where two texts meet, the trivia between them may belong to the token in front or to
the one behind.  Trees that are equal otherwise have the same bare trees and, but for
the trivia of a single one, the same leaves.
-/

namespace TdSyntax

structure Leaf.SameToTrailing (one two : Leaf) : Prop where
  kind : one.kind = two.kind
  leading : one.leading = two.leading
  text : ∃ text before after, one.text = text ++ before ∧ two.text = text ++ after ∧
    before.size = TriviaPiece.total one.trailing ∧ after.size = TriviaPiece.total two.trailing

structure Leaf.SameFromLeading (one two : Leaf) : Prop where
  kind : one.kind = two.kind
  trailing : one.trailing = two.trailing
  text : ∃ text before after, one.text = before ++ text ∧ two.text = after ++ text ∧
    before.size = TriviaPiece.total one.leading ∧ after.size = TriviaPiece.total two.leading

namespace Token

variable {one two : Token}

theorem SameToTrailing.leaf (h : one.SameToTrailing two) : one.leaf.SameToTrailing two.leaf := by
  rw [h]
  refine ⟨rfl, rfl, TriviaText.joined one.leading ++ one.text, _, _, rfl, rfl, ?_, ?_⟩
  · exact (TriviaText.total_map_piece _).symm
  · exact (TriviaText.total_map_piece _).symm

theorem SameFromLeading.leaf (h : one.SameFromLeading two) :
    one.leaf.SameFromLeading two.leaf := by
  rw [h]
  refine ⟨rfl, rfl, one.text ++ TriviaText.joined one.trailing, TriviaText.joined one.leading,
    TriviaText.joined two.leading, ?_, ?_, ?_, ?_⟩
  · exact List.append_assoc _ _ _
  · exact List.append_assoc _ _ _
  · exact (TriviaText.total_map_piece _).symm
  · exact (TriviaText.total_map_piece _).symm

end Token

namespace Tree

/-- Trees of the same kinds and shape and with the same tokens, whose leaves are related. -/
structure Alike (related : List Leaf → List Leaf → Prop) (one two : List Tree) : Prop where
  bare : ∃ shape, bareAll one = .ok shape ∧ bareAll two = .ok shape
  leaves : related (leavesAll one) (leavesAll two)

def SameToTrailing : List Tree → List Tree → Prop := Alike (AlikeToLast Leaf.SameToTrailing)

def SameFromLeading : List Tree → List Tree → Prop := Alike (AlikeFromFirst Leaf.SameFromLeading)

end Tree

namespace Draft

variable {one two : List Draft}

theorem alike (hbare : bareAll one = bareAll two) {related : List Leaf → List Leaf → Prop}
    (h : related ((tokensAll one).map Token.leaf) ((tokensAll two).map Token.leaf)) :
    Tree.Alike related (treeAll one) (treeAll two) := by
  constructor
  · exact ⟨bareAll one, bareAll_treeAll one, hbare ▸ bareAll_treeAll two⟩
  · rw [leavesAll_treeAll, leavesAll_treeAll]
    exact h

theorem treeAll_append (first second : List Draft) :
    treeAll (first ++ second) = treeAll first ++ treeAll second := by
  induction first with
  | nil => rfl
  | cons draft first ih => simp [treeAll, ih]

end Draft

end TdSyntax
