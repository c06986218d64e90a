import TdSyntax.Include.SourceFile

/-!
# Listings

A listing shows every piece of a text on a line of its own: its position, its
kind and its quoted text.  The pieces are the tokens and their trivia, which
follow one another without gaps, so positions are counted from piece to piece.
-/

namespace TdSyntax.Command

def triviaPieces (trivia : List PlacedTrivia) : List (Kind × Text) :=
  trivia.map fun piece => (piece.kind.kind, piece.text)

def tokenPieces (token : NodeToken) : Except Fault (List (Kind × Text)) := do
  let leading ← token.leadingTrivia
  let text ← token.text
  let trailing ← token.trailingTrivia
  pure (triviaPieces leading ++ (token.kind, text) :: triviaPieces trailing)

def showPosition (position : Text.Position) : String :=
  toString (position.line + 1) ++ ":" ++ toString (position.column + 1)

/-- The lines for pieces of which the first stands at `position`. -/
def listPieces (position : Text.Position) : List (Kind × Text) → List Text
  | [] => []
  | (kind, text) :: rest =>
      let line := showPosition position ++ " " ++ kind.label ++ " "
      (line.toList ++ Text.quoted text) :: listPieces (position.after text) rest

def listing (file : SourceFile) : Except Fault (List Text) := do
  let parse ← file.parse
  let pieces ← parse.root.tokens.mapM tokenPieces
  pure (listPieces ⟨0, 0⟩ pieces.flatten)

end TdSyntax.Command
