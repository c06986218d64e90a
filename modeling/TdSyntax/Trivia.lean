import TdSyntax.Kind.Basic
import TdSyntax.Text.Basic

/-!
# Trivia

Blank runs, comments and preprocessor directives may stand between any two
tokens and mean nothing to the grammar.  The lexer reports them with their
text; a tree keeps their kinds and lengths beside the text of the token that
owns them.
-/

namespace TdSyntax

inductive TriviaKind where
  | whitespace
  | lineComment
  | blockComment
  | directive
  deriving DecidableEq, Repr

namespace TriviaKind

def all : List TriviaKind := [.whitespace, .lineComment, .blockComment, .directive]

def kind : TriviaKind → Kind
  | .whitespace => .whitespace
  | .lineComment => .lineComment
  | .blockComment => .blockComment
  | .directive => .preprocessorDirective

def ofKind? (kind : Kind) : Option TriviaKind :=
  all.find? fun trivia => trivia.kind == kind

end TriviaKind

structure TriviaPiece where
  kind : TriviaKind
  length : Nat
  deriving DecidableEq, Repr

def TriviaPiece.total : List TriviaPiece → Nat
  | [] => 0
  | first :: rest => first.length + total rest

structure TriviaText where
  kind : TriviaKind
  text : Text
  deriving DecidableEq, Repr

namespace TriviaText

def piece (trivia : TriviaText) : TriviaPiece := ⟨trivia.kind, trivia.text.size⟩

def joined (trivia : List TriviaText) : Text := trivia.flatMap TriviaText.text

theorem total_map_piece (trivia : List TriviaText) :
    TriviaPiece.total (trivia.map piece) = (joined trivia).size := by
  induction trivia with
  | nil => rfl
  | cons first rest ih =>
      simp only [List.map_cons, TriviaPiece.total, joined, List.flatMap_cons,
        Text.size_append] at ih ⊢
      rw [ih]
      rfl

end TriviaText

end TdSyntax
