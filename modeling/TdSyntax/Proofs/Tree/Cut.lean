import Mathlib.Data.List.Infix
import TdSyntax.Proofs.Token.Placed
import TdSyntax.Proofs.Tree.Built
import TdSyntax.Proofs.Tree.Covered

/-!
# Leaves that are cut between characters

A builder takes the lengths of the trivia of a token as they are given.  If they end between
two characters, the leaf is that of a token with these trivia, and a tree that is built covers
the tokens of its leaves.
-/

namespace TdSyntax

namespace Text

theorem append_inj_of_size {first second before after : Text}
    (h : first ++ second = before ++ after) (hsize : first.size = before.size) :
    first = before ∧ second = after := by
  have hsplit := splitAt?_size first second
  rw [h, hsize, splitAt?_size] at hsplit
  obtain ⟨rfl, rfl⟩ := Prod.mk.inj (Option.some.inj hsplit)
  exact ⟨rfl, rfl⟩

theorem exists_eq_append_of_size_le {first second before after : Text}
    (h : first ++ second = before ++ after) (hsize : first.size ≤ before.size) :
    ∃ between, before = first ++ between ∧ second = between ++ after := by
  rcases List.append_eq_append_iff.1 h with ⟨between, rfl, rfl⟩ | ⟨between, rfl, rfl⟩
  · exact ⟨between, rfl, rfl⟩
  · rw [size_append] at hsize
    obtain ⟨hfirst, hsecond⟩ := append_inj_of_size h (by rw [size_append]; omega)
    exact ⟨[], by rw [List.append_nil]; exact hfirst.symm, hsecond⟩

theorem HasAt.append {source first second : Text} {offset : Nat} (h : source.HasAt offset first)
    (h' : source.HasAt (offset + first.size) second) : source.HasAt offset (first ++ second) := by
  obtain ⟨before, after, hsource, rfl⟩ := h
  obtain ⟨front, rest, hrest, hfront⟩ := h'
  rw [← size_append] at hfront
  rw [hsource, List.append_assoc front] at hrest
  obtain ⟨rfl, rfl⟩ := append_inj_of_size hrest hfront
  exact ⟨before, rest, by rw [hsource]; simp, rfl⟩

theorem HasAt.behind {source part : Text} {offset : Nat} (h : source.HasAt offset part) :
    source.HasAt (offset + part.size) [] := by
  rw [← List.append_nil part] at h
  exact h.right

theorem hasAt_of_slice? {source part : Text} {start stop : Nat}
    (h : source.slice? start stop = some part) : source.HasAt start part := by
  obtain ⟨⟨front, rest⟩, hsplit, -⟩ := Option.bind_eq_some_iff.1 h
  obtain ⟨rfl, rfl⟩ := append_of_splitAt? hsplit
  obtain ⟨-, after, rfl⟩ := slice?_eq_some_iff.1 h
  exact ⟨front, after, by simp, rfl⟩

end Text

namespace Leaf

/-- All pieces of trivia of a leaf end between two characters. -/
structure Cut (leaf : Leaf) : Prop where
  leading : ∀ front ∈ leaf.leading.inits,
    leaf.text.isBoundary (TriviaPiece.total front) = true
  trailing : ∀ front ∈ leaf.trailing.inits,
    leaf.text.isBoundary (leaf.trimmedSpan.2 + TriviaPiece.total front) = true

instance (leaf : Leaf) : Decidable leaf.Cut :=
  decidable_of_iff (_ ∧ _) ⟨fun h => ⟨h.1, h.2⟩, fun h => ⟨h.leading, h.trailing⟩⟩

def Fits (leaf : Leaf) : Prop :=
  TriviaPiece.total leaf.leading + TriviaPiece.total leaf.trailing ≤ leaf.size

end Leaf

theorem TriviaText.exists_of_cuts {pieces : List TriviaPiece} {before text : Text}
    (h : ∀ front ∈ pieces.inits,
      (before ++ text).isBoundary (before.size + TriviaPiece.total front) = true) :
    ∃ trivia rest, trivia.map piece = pieces ∧ text = joined trivia ++ rest := by
  induction pieces generalizing before text with
  | nil => exact ⟨[], text, rfl, rfl⟩
  | cons first pieces ih =>
      have hfirst := h [first] ((List.mem_inits _ _).2 (List.prefix_iff_eq_append.2 rfl))
      obtain ⟨front, after, happend, hsize⟩ := Text.isBoundary_iff.1 hfirst
      obtain ⟨own, rfl, rfl⟩ := Text.exists_eq_append_of_size_le happend (by omega)
      have hlength : own.size = first.length := by
        rw [Text.size_append, TriviaPiece.total, TriviaPiece.total] at hsize
        omega
      obtain ⟨trivia, rest, rfl, rfl⟩ := @ih (before ++ own) after fun front hmem => by
        have hall := h (first :: front)
          ((List.mem_inits _ _).2 (List.cons_prefix_cons.2 ⟨rfl, (List.mem_inits _ _).1 hmem⟩))
        rwa [TriviaPiece.total, ← hlength, ← Nat.add_assoc, ← Text.size_append,
          ← List.append_assoc] at hall
      exact ⟨⟨first.kind, own⟩ :: trivia, rest, by simp [piece, hlength], by simp [joined]⟩

theorem Leaf.Cut.exists_token {leaf : Leaf} (h : leaf.Cut) (hfits : leaf.Fits) (offset : Nat) :
    ∃ token : Token, token.leaf = leaf ∧
      token.start = offset + (TriviaText.joined token.leading).size := by
  obtain ⟨leading, kind, text, trailing⟩ := leaf
  obtain ⟨hleading, htrailing⟩ := h
  simp only [Fits, size, trimmedSpan] at hfits hleading htrailing
  obtain ⟨before, rest, rfl, htext⟩ := 
    @TriviaText.exists_of_cuts leading [] text (by simpa using hleading)
  have hend := htrailing [] ((List.mem_inits _ _).2 List.nil_prefix)
  obtain ⟨inside, after, rfl, hinside⟩ := Text.isBoundary_iff.1 hend
  rw [TriviaPiece.total, Nat.add_zero] at hinside
  rw [hinside] at htrailing
  obtain ⟨behind, beyond, rfl, rfl⟩ := TriviaText.exists_of_cuts htrailing
  rw [TriviaText.total_map_piece, TriviaText.total_map_piece] at hfits
  simp only [TriviaText.total_map_piece, Text.size_append] at hfits hinside
  have hbeyond : beyond = [] :=
    (Text.append_inj_of_size (show beyond ++ [] = [] ++ beyond by simp)
      (show beyond.size = 0 by omega)).1
  obtain ⟨own, rfl, -⟩ := Text.exists_eq_append_of_size_le htext.symm (by omega)
  refine ⟨⟨before, kind, offset + (TriviaText.joined before).size, own, behind⟩, ?_, rfl⟩
  simp [Token.leaf, Token.fullText, hbeyond]

theorem Token.exists_of_cut {leaves : List Leaf} (hcut : ∀ leaf ∈ leaves, leaf.Cut)
    (hfits : ∀ leaf ∈ leaves, leaf.Fits) (offset : Nat) :
    ∃ tokens, leaves = tokens.map Token.leaf ∧ TileFrom offset tokens := by
  induction leaves generalizing offset with
  | nil => exact ⟨[], rfl, trivial⟩
  | cons leaf leaves ih =>
      rw [List.forall_mem_cons] at hcut hfits
      obtain ⟨token, rfl, hstart⟩ := hcut.1.exists_token hfits.1 offset
      obtain ⟨tokens, rfl, htiles⟩ := ih hcut.2 hfits.2 (offset + token.fullText.size)
      exact ⟨token :: tokens, rfl, hstart, htiles⟩

namespace Builder

theorem Lexed.Reads.fits {lexed : Lexed} {text : Text} {offset : Nat} {leaf : Leaf}
    (h : lexed.Reads text offset leaf) : leaf.Fits := by
  have hordered := lexed.ordered
  have hstart := h.start
  have hstop := h.fullStop_eq
  rw [Lexed.fullStop] at hstop
  rw [Leaf.Fits, h.leading, h.trailing]
  omega

namespace Built

variable {text : Text} {offset stop : Nat} {trees : List Tree} {calls : List Call}

theorem fits (h : Built text offset trees stop calls) :
    ∀ leaf ∈ Tree.leavesAll trees, leaf.Fits := by
  induction h with
  | nil => exact List.forall_mem_nil _
  | token hleaf _ ih => exact List.forall_mem_cons.2 ⟨hleaf.fits, ih⟩
  | node _ _ ihInner ihRest => exact List.forall_mem_append.2 ⟨ihInner, ihRest⟩

theorem hasAt (h : Built text offset trees stop calls) (hoffset : text.HasAt offset []) :
    text.HasAt offset (Tree.textAll trees) ∧ stop = offset + (Tree.textAll trees).size := by
  induction h with
  | nil => exact ⟨hoffset, rfl⟩
  | token hleaf _ ih =>
      have hfirst := Text.hasAt_of_slice? hleaf.slice
      have hstop := hleaf.fullStop_eq
      rw [hstop] at ih
      obtain ⟨hrest, rfl⟩ := ih hfirst.behind
      rw [Tree.textAll_cons, Tree.text_leaf]
      exact ⟨hfirst.append hrest, by rw [Text.size_append, ← Nat.add_assoc]; rfl⟩
  | node _ _ ihInner ihRest =>
      obtain ⟨hfirst, rfl⟩ := ihInner hoffset
      obtain ⟨hrest, rfl⟩ := ihRest hfirst.behind
      rw [Tree.textAll_cons, Tree.text_branch]
      exact ⟨hfirst.append hrest, by rw [Text.size_append, Nat.add_assoc]⟩

end Built

theorem covers_of_build {text : Text} {calls : List Call} {tree : SourceTree}
    (h : build text calls = .ok tree) (hcut : ∀ leaf ∈ tree.tree.leaves, leaf.Cut) :
    tree.text = text ∧ ∃ tokens, (Element.node tree.root).Covers tokens := by
  obtain ⟨hbuilt, rfl⟩ := built_of_build h
  have hfits : ∀ leaf ∈ tree.tree.leaves, leaf.Fits := by
    have hall := hbuilt.fits
    rwa [Tree.leavesAll, Tree.leavesAll, List.append_nil] at hall
  obtain ⟨tokens, hleaves, htiles⟩ := Token.exists_of_cut hcut hfits 0
  have htext : Tree.textAll [tree.tree] = Token.joined tokens := by
    rw [Tree.textAll, Tree.leavesAll, Tree.leavesAll, List.append_nil, hleaves, List.flatMap_map]
    rfl
  obtain ⟨hsource, -⟩ := hbuilt.hasAt ⟨[], tree.text, rfl, rfl⟩
  exact ⟨rfl, tokens, hleaves, htext ▸ hsource, htiles⟩

end Builder

end TdSyntax
