import TdSyntax.Proofs.Token.Tiling

/-!
# Tokens further on in a text

What the lexer makes of a text does not depend on where the text stands.  Two lexers
before the same text find the same tokens and report the same, moved by the distance
between them, provided that a sign is read in the same way at both places.
-/

namespace TdSyntax

def Span.moved (distance : Nat) (span : Span) : Span :=
  ⟨span.start + distance, span.stop + distance⟩

def Diagnostic.moved (distance : Nat) (diagnostic : Diagnostic) : Diagnostic :=
  ⟨diagnostic.problem, diagnostic.span.moved distance⟩

def Token.moved (distance : Nat) (token : Token) : Token :=
  { token with start := token.start + distance }

@[simp] theorem Token.moved_kind (distance : Nat) (token : Token) :
    (token.moved distance).kind = token.kind := rfl

@[simp] theorem Token.moved_text (distance : Nat) (token : Token) :
    (token.moved distance).text = token.text := rfl

def TokenList.moved (distance : Nat) (list : TokenList) : TokenList :=
  ⟨list.tokens.map (Token.moved distance), list.eof.moved distance,
    list.diagnostics.map (Diagnostic.moved distance)⟩

namespace Lexer

/-- Two lexers before the same text, the second one some bytes further on.  A sign there
is an operator for both or for none. -/
structure Trails (distance : Nat) (one two : Lexer) : Prop where
  rest : two.rest = one.rest
  offset : two.offset = one.offset + distance
  openString : two.openString = one.openString.map (· + distance)
  previous : Lexeme.endsOperand two.previous = Lexeme.endsOperand one.previous

variable {distance : Nat} {one two : Lexer}

theorem Trails.isOpen (h : Trails distance one two) :
    two.openString.isSome = one.openString.isSome := by
  rw [h.openString, Option.isSome_map]

theorem Trails.advance (h : Trails distance one two) (count : Nat) :
    Trails distance (one.advance count) (two.advance count) := by
  constructor
  · simp only [Lexer.advance, h.rest]
  · simp only [Lexer.advance, h.rest, h.offset]
    omega
  · exact h.openString
  · simp only [Lexer.advance, h.rest]
    cases (one.rest.take count).getLast? with
    | none => exact h.previous
    | some last => rfl

theorem Trails.diagnose (h : Trails distance one two) {later later' : Lexer}
    (h' : Trails distance later later') (problem : Option Problem) :
    two.diagnose later' problem = (one.diagnose later problem).map (Diagnostic.moved distance) := by
  cases problem with
  | none => rfl
  | some problem =>
      simp only [Lexer.diagnose, spanTo, h.offset, h'.offset]
      rfl

structure TriviaRun.Trails (distance : Nat) (one two : TriviaRun) : Prop where
  trivia : two.trivia = one.trivia
  diagnostics : two.diagnostics = one.diagnostics.map (Diagnostic.moved distance)
  next : Lexer.Trails distance one.next two.next

structure BareToken.Trails (distance : Nat) (one two : BareToken) : Prop where
  kind : two.kind = one.kind
  text : two.text = one.text
  diagnostics : two.diagnostics = one.diagnostics.map (Diagnostic.moved distance)
  next : Lexer.Trails distance one.next two.next

theorem Trails.toggle (h : Trails distance one two) (kind : Kind) :
    two.toggle kind = (one.toggle kind).map (· + distance) := by
  unfold Lexer.toggle
  rw [h.isOpen, h.offset, h.openString]
  split
  · split <;> rfl
  · rfl

structure Step.Trails (distance : Nat) (one two : Step) : Prop where
  token : two.token = one.token.moved distance
  diagnostics : two.diagnostics = one.diagnostics.map (Diagnostic.moved distance)
  next : Lexer.Trails distance one.next two.next

end Lexer

namespace TokenList

end TokenList

end TdSyntax
