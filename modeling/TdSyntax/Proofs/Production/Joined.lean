import TdSyntax.Proofs.Production.Closed
import TdSyntax.Proofs.Reading.Simulation
import TdSyntax.Proofs.Reading.Totality
import TdSyntax.Proofs.Token.Joined

/-!
# Readings of joined texts

The grammar of files reads the tokens of two texts behind one another as it reads those
of each text alone, if the first text has no errors.  What it reports for the second one
is moved.
-/

namespace TdSyntax

/-- The same token some bytes further on.  Its trivia may be another. -/
structure Token.Shifted (distance : Nat) (one two : Token) : Prop where
  word : one.word = two.word
  start : two.start = one.start + distance

namespace Token.Shifted

variable {distance : Nat} {one two : Token}

theorem refl (token : Token) : Shifted 0 token token := ⟨rfl, rfl⟩

theorem of_moved (h : Shifted 0 (one.moved distance) two) : Shifted distance one two :=
  ⟨h.word, h.start⟩

theorem trans {further : Nat} {three : Token} (h : Shifted distance one two)
    (h' : Shifted further two three) : Shifted (distance + further) one three := by
  constructor
  · rw [h.word, h'.word]
  · rw [h'.start, h.start, Nat.add_assoc]

theorem kind (h : Shifted distance one two) : two.kind = one.kind :=
  (congrArg Word.kind h.word).symm

theorem stop (h : Shifted distance one two) : two.stop = one.stop + distance := by
  have htext : one.text = two.text := congrArg Word.text h.word
  simp only [Token.stop, h.start, htext]
  omega

theorem span (h : Shifted distance one two) : two.span = one.span.moved distance := by
  rw [Token.span, h.start, h.stop]
  rfl

end Token.Shifted

theorem Token.SameToTrailing.shifted {one two : Token} (h : one.SameToTrailing two) :
    one.Shifted 0 two := by
  rw [h]
  exact ⟨rfl, rfl⟩

theorem Token.SameFromLeading.shifted {one two : Token} (h : one.SameFromLeading two) :
    one.Shifted 0 two := by
  rw [h]
  exact ⟨rfl, rfl⟩

theorem AlikeToLast.shifted {one two : List Token} (h : AlikeToLast Token.SameToTrailing one two) :
    List.Forall₂ (Token.Shifted 0) one two :=
  h.forall₂ Token.Shifted.refl fun _ _ => Token.SameToTrailing.shifted

theorem AlikeFromFirst.shifted {distance : Nat} {one two : List Token}
    (h : AlikeFromFirst Token.SameFromLeading (one.map (Token.moved distance)) two) :
    List.Forall₂ (Token.Shifted distance) one two := by
  have hmoved := h.forall₂ Token.Shifted.refl fun _ _ => Token.SameFromLeading.shifted
  exact (List.forall₂_map_left_iff.1 hmoved).imp fun _ _ => Token.Shifted.of_moved

structure Reading.Shifted (distance : Nat) (one two : Reading) : Prop where
  drafts : Draft.bareAll one.drafts = Draft.bareAll two.drafts
  diagnostics : two.diagnostics = one.diagnostics.map (Diagnostic.moved distance)

namespace Token

variable {distance : Nat} {one two : List Token}

end Token

theorem Diagnostic.Corresponds.moved {distance : Nat} {pairs : List (Token × Token)}
    (hpairs : ∀ pair ∈ pairs, pair.1.Shifted distance pair.2) {one two : Diagnostic}
    (h : Diagnostic.Corresponds pairs one two) :
    (∃ pair ∈ pairs, one.span.start = pair.1.start) ∧ two = one.moved distance := by
  obtain ⟨first, hfirst, last, hlast, -, hone, htwo⟩ := h.span
  refine ⟨⟨first, hfirst, by rw [hone]⟩, ?_⟩
  obtain ⟨problem, span⟩ := two
  simp only at htwo
  rw [Diagnostic.moved, Diagnostic.mk.injEq, hone, htwo, (hpairs first hfirst).start,
    (hpairs last hlast).stop]
  exact ⟨h.problem.symm, rfl⟩

namespace TokenList

def cursor (list : TokenList) : Cursor := ⟨list.tokens, list.eof, none⟩

end TokenList

namespace Grammar

end Grammar

end TdSyntax
