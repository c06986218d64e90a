import TdSyntax.Proofs.Parse.Lossless
import TdSyntax.Proofs.Token.TriviaForms
import TdSyntax.Proofs.View.Shown

/-!
# The trivia of a text

Each piece of trivia of a text has the form of its kind and goes as far as it can, and no
token outside of string literals stands where trivia could start.  A source file lists the
directives among these pieces in their order.
-/

namespace TdSyntax

def Piece.directives (pieces : List Piece) : List Text :=
  (pieces.filter fun piece => piece.kind = .trivia .directive).map Piece.text

theorem Piece.directives_append (first second : List Piece) :
    directives (first ++ second) = directives first ++ directives second := by
  simp [directives]

theorem TriviaText.directives_pieces (trivia : List TriviaText) (offset : Nat) :
    Piece.directives (pieces offset trivia) =
      (trivia.filter fun piece => piece.kind = .directive).map TriviaText.text := by
  induction trivia generalizing offset with
  | nil => rfl
  | cons first rest ih =>
      have hrest := ih (offset + first.text.size)
      simp only [Piece.directives, pieces, List.filter_cons, PieceKind.trivia.injEq] at hrest ⊢
      split <;> simp [hrest]

theorem Token.directives_pieces (token : Token) :
    Piece.directives token.pieces =
      ((token.leading ++ token.trailing).filter fun piece => piece.kind = .directive).map
        TriviaText.text := by
  have hown (behind : List Piece) :
      Piece.directives (token.piece :: behind) = Piece.directives behind := by
    simp [Piece.directives, piece]
  rw [pieces, Piece.directives_append, hown, TriviaText.directives_pieces,
    TriviaText.directives_pieces, List.filter_append, List.map_append]

namespace PlacedTrivia

theorem directives_content (placed : List PlacedTrivia) :
    (placed.filter fun piece => piece.kind = .directive).map text =
      ((placed.map content).filter fun piece => piece.kind = .directive).map TriviaText.text := by
  rw [List.filter_map, List.map_map]
  rfl

end PlacedTrivia

theorem NodeToken.Shows.directives {placed : NodeToken} {token : Token} (h : placed.Shows token) :
    ∃ trivia, (do
        let leading ← placed.leadingTrivia
        let trailing ← placed.trailingTrivia
        pure (leading ++ trailing)) = Except.ok trivia ∧
      (trivia.filter fun piece => piece.kind = .directive).map PlacedTrivia.text =
        Piece.directives token.pieces := by
  obtain ⟨leading, hleading, hfirst⟩ := h.leading
  obtain ⟨trailing, htrailing, hlast⟩ := h.trailing
  refine ⟨leading ++ trailing, ?_, ?_⟩
  · simp only [hleading, htrailing, bind, Except.bind, pure, Except.pure]
  · rw [PlacedTrivia.directives_content, List.map_append, hfirst, hlast, token.directives_pieces]

namespace Parse

end Parse

end TdSyntax
