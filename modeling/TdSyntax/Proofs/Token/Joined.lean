import Mathlib.Data.List.Forall2
import TdSyntax.Proofs.Token.Appended
import TdSyntax.Proofs.Token.Moved
import TdSyntax.Proofs.Token.Ranges

/-!
# The tokens of joined texts

A text that is lexed without a report is lexed in the same way in front of a line feed
with another text behind, and the other text as if it stood alone.  The lexer carries
nothing over the line feed: no string literal is open there, and no operand ends there.
Only the trivia where the texts meet may be owned by another token.
-/

namespace TdSyntax

inductive AlikeToLast {Item : Type} (alike : Item → Item → Prop) : List Item → List Item → Prop
  | refl (items : List Item) : AlikeToLast alike items items
  | last {one two : Item} (h : alike one two) : AlikeToLast alike [one] [two]
  | cons (item : Item) {one two : List Item} (h : AlikeToLast alike one two) :
      AlikeToLast alike (item :: one) (item :: two)

inductive AlikeFromFirst {Item : Type} (alike : Item → Item → Prop) :
    List Item → List Item → Prop
  | nil : AlikeFromFirst alike [] []
  | cons {one two : Item} (h : alike one two) (rest : List Item) :
      AlikeFromFirst alike (one :: rest) (two :: rest)

namespace AlikeToLast

variable {Item Other : Type} {alike : Item → Item → Prop} {one two : List Item}

theorem forall₂ (h : AlikeToLast alike one two) {relation : Item → Item → Prop}
    (hrefl : ∀ item, relation item item) (halike : ∀ one two, alike one two → relation one two) :
    List.Forall₂ relation one two := by
  induction h with
  | refl items => exact List.forall₂_same.2 fun item _ => hrefl item
  | last h => exact .cons (halike _ _ h) .nil
  | cons item _ ih => exact .cons (hrefl item) ih

theorem map (h : AlikeToLast alike one two) {other : Other → Other → Prop} {image : Item → Other}
    (halike : ∀ one two, alike one two → other (image one) (image two)) :
    AlikeToLast other (one.map image) (two.map image) := by
  induction h with
  | refl items => exact .refl _
  | last h => exact .last (halike _ _ h)
  | cons item _ ih => exact .cons _ ih

end AlikeToLast

namespace AlikeFromFirst

variable {Item Other : Type} {alike : Item → Item → Prop} {one two : List Item}

theorem forall₂ (h : AlikeFromFirst alike one two) {relation : Item → Item → Prop}
    (hrefl : ∀ item, relation item item) (halike : ∀ one two, alike one two → relation one two) :
    List.Forall₂ relation one two := by
  cases h with
  | nil => exact .nil
  | cons h rest => exact .cons (halike _ _ h) (List.forall₂_same.2 fun item _ => hrefl item)

theorem map (h : AlikeFromFirst alike one two) {other : Other → Other → Prop}
    {image : Item → Other} (halike : ∀ one two, alike one two → other (image one) (image two)) :
    AlikeFromFirst other (one.map image) (two.map image) := by
  cases h with
  | nil => exact .nil
  | cons h rest => exact .cons (halike _ _ h) _

end AlikeFromFirst

/-- The same token, but for the trivia behind it. -/
def Token.SameToTrailing (one two : Token) : Prop := two = { one with trailing := two.trailing }

def Token.SameFromLeading (one two : Token) : Prop := two = { one with leading := two.leading }

/-- The tokens of two texts behind one another, but for the trivia between them. -/
structure TokenList.Joins (distance : Nat) (one two joint : TokenList) : Prop where
  tokens : ∃ front behind, joint.tokens = front ++ behind ∧
    AlikeToLast Token.SameToTrailing one.tokens front ∧
    AlikeFromFirst Token.SameFromLeading (two.moved distance).tokens behind
  eof : (two.moved distance).eof.SameFromLeading joint.eof
  diagnostics : joint.diagnostics = one.diagnostics ++ (two.moved distance).diagnostics

namespace Lexer

def extend (lexer : Lexer) (after : Text) : Lexer := { lexer with rest := lexer.rest ++ after }

variable {lexer : Lexer} {after : Text}

@[simp] theorem advance_zero (lexer : Lexer) : lexer.advance 0 = lexer := by
  simp [advance]

def lexeme (lexer : Lexer) (first : Char) (rest : Text) : Lexeme Kind :=
  if lexer.openString.isSome then Lexeme.stringPiece first rest
  else Lexeme.token lexer.previous first rest

theorem bareToken_of_rest {first : Char} {rest : Text} (h : lexer.rest = first :: rest) :
    lexer.bareToken =
      ⟨(lexer.lexeme first rest).kind, first :: rest.take (lexer.lexeme first rest).tail,
        lexer.diagnose (lexer.advance ((lexer.lexeme first rest).tail + 1))
          (lexer.lexeme first rest).problem,
        { lexer.advance ((lexer.lexeme first rest).tail + 1) with
          openString := lexer.toggle (lexer.lexeme first rest).kind }⟩ := by
  simp only [bareToken, h]
  rfl

end Lexer

namespace TokenList

end TokenList

end TdSyntax
