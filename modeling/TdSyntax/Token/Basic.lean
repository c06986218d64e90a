import TdSyntax.Diagnostic.Basic
import TdSyntax.Trivia

/-!
# Tokens

A token is a piece of the source text with a kind, together with the trivia
that it owns on both sides.  `start` is the offset of its own text, behind the
leading trivia.
-/

namespace TdSyntax

structure Token where
  leading : List TriviaText
  kind : Kind
  start : Nat
  text : Text
  trailing : List TriviaText
  deriving DecidableEq, Repr

namespace Token

def stop (token : Token) : Nat := token.start + token.text.size

def span (token : Token) : Span := ⟨token.start, token.stop⟩

def fullSpan (token : Token) : Span :=
  ⟨token.start - (TriviaText.joined token.leading).size,
    token.stop + (TriviaText.joined token.trailing).size⟩

def fullText (token : Token) : Text :=
  TriviaText.joined token.leading ++ token.text ++ TriviaText.joined token.trailing

end Token

end TdSyntax
