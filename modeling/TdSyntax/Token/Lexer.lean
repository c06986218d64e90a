import TdSyntax.Token.Lexeme

/-!
# The lexer

A lexer walks over a text and takes one lexeme after the other.  Trivia in front
of a token and behind it belongs to the token, so only the first token of a text
has leading trivia.  Inside a string literal there is no trivia.  The last token
is the empty end of the file, and a lexer at the end repeats it.
-/

namespace TdSyntax

structure Lexer where
  previous : Option Char
  offset : Nat
  rest : Text
  openString : Option Nat
  deriving DecidableEq, Repr

namespace Lexer

def start (text : Text) : Lexer := ⟨none, 0, text, none⟩

def advance (lexer : Lexer) (count : Nat) : Lexer :=
  let taken := lexer.rest.take count
  { lexer with
    previous := taken.getLast?.or lexer.previous
    offset := lexer.offset + Text.size taken
    rest := lexer.rest.drop count }

def spanTo (lexer later : Lexer) : Span := ⟨lexer.offset, later.offset⟩

def diagnose (lexer later : Lexer) (problem : Option Problem) : List Diagnostic :=
  problem.toList.map fun problem => ⟨problem, lexer.spanTo later⟩

structure TriviaRun where
  trivia : List TriviaText
  diagnostics : List Diagnostic
  next : Lexer

private theorem advance_lt {lexer : Lexer} {count : Nat} (h : lexer.rest ≠ []) :
    (lexer.advance (count + 1)).rest.length < lexer.rest.length := by
  have := List.length_pos_iff.2 h
  simp only [advance, List.length_drop]
  omega

def triviaRun (lexer : Lexer) : TriviaRun :=
  match _h : Lexeme.trivia? lexer.rest with
  | none => ⟨[], [], lexer⟩
  | some lexeme =>
      let next := lexer.advance (lexeme.tail + 1)
      let run := next.triviaRun
      ⟨⟨lexeme.kind, lexer.rest.take (lexeme.tail + 1)⟩ :: run.trivia,
        lexer.diagnose next lexeme.problem ++ run.diagnostics, run.next⟩
termination_by lexer.rest.length
decreasing_by
  refine advance_lt fun hnil => ?_
  simp [hnil, Lexeme.trivia?_nil] at _h

def trivia (lexer : Lexer) : TriviaRun :=
  if lexer.openString.isSome then ⟨[], [], lexer⟩ else lexer.triviaRun

structure BareToken where
  kind : Kind
  text : Text
  diagnostics : List Diagnostic
  next : Lexer

def toggle (lexer : Lexer) (kind : Kind) : Option Nat :=
  if kind = .doubleQuote then
    if lexer.openString.isSome then none else some lexer.offset
  else lexer.openString

def bareToken (lexer : Lexer) : BareToken :=
  match lexer.rest with
  | [] =>
      ⟨.eof, [], lexer.openString.toList.map fun start =>
        ⟨.unterminatedString, ⟨start, lexer.offset⟩⟩, { lexer with openString := none }⟩
  | first :: rest =>
      let lexeme :=
        if lexer.openString.isSome then Lexeme.stringPiece first rest
        else Lexeme.token lexer.previous first rest
      let next := lexer.advance (lexeme.tail + 1)
      ⟨lexeme.kind, first :: rest.take lexeme.tail, lexer.diagnose next lexeme.problem,
        { next with openString := lexer.toggle lexeme.kind }⟩

structure Step where
  token : Token
  diagnostics : List Diagnostic
  next : Lexer

def next (lexer : Lexer) : Step :=
  let leading := lexer.trivia
  let bare := leading.next.bareToken
  let trailing := bare.next.trivia
  ⟨⟨leading.trivia, bare.kind, leading.next.offset, bare.text, trailing.trivia⟩,
    leading.diagnostics ++ bare.diagnostics ++ trailing.diagnostics, trailing.next⟩

theorem triviaRun_rest_le (lexer : Lexer) :
    lexer.triviaRun.next.rest.length ≤ lexer.rest.length := by
  fun_induction triviaRun lexer with
  | case1 => simp
  | case2 lexer lexeme _ next run ih =>
      have : next.rest.length ≤ lexer.rest.length := by
        simp [next, advance]
      exact Nat.le_trans ih this

theorem trivia_rest_le (lexer : Lexer) :
    lexer.trivia.next.rest.length ≤ lexer.rest.length := by
  unfold trivia
  split
  · simp
  · exact triviaRun_rest_le lexer

theorem bareToken_rest_lt (lexer : Lexer) (h : lexer.bareToken.kind ≠ .eof) :
    lexer.bareToken.next.rest.length < lexer.rest.length := by
  cases hrest : lexer.rest with
  | nil => simp [bareToken, hrest] at h
  | cons first rest =>
      simp only [bareToken, hrest, advance, List.length_drop, List.length_cons]
      omega

theorem bareToken_rest_le (lexer : Lexer) :
    lexer.bareToken.next.rest.length ≤ lexer.rest.length := by
  cases hrest : lexer.rest with
  | nil => simp [bareToken, hrest]
  | cons first rest =>
      simp only [bareToken, hrest, advance, List.length_drop, List.length_cons]
      omega

theorem next_rest_le (lexer : Lexer) : lexer.next.next.rest.length ≤ lexer.rest.length :=
  Nat.le_trans (trivia_rest_le _) (Nat.le_trans (bareToken_rest_le _) (trivia_rest_le _))

/-- Every token but the end of the file takes a part of the text. -/
theorem next_rest_lt (lexer : Lexer) (h : lexer.next.token.kind ≠ .eof) :
    lexer.next.next.rest.length < lexer.rest.length :=
  Nat.lt_of_le_of_lt (trivia_rest_le _)
    (Nat.lt_of_lt_of_le (bareToken_rest_lt _ h) (trivia_rest_le _))

end Lexer

/-- All that the lexer finds in a text: the tokens before the end of the file,
the end of the file, and the diagnostics. -/
structure TokenList where
  tokens : List Token
  eof : Token
  diagnostics : List Diagnostic
  deriving DecidableEq, Repr

namespace TokenList

def all (list : TokenList) : List Token := list.tokens ++ [list.eof]

def ofLexer (lexer : Lexer) : TokenList :=
  let step := lexer.next
  if step.token.kind = .eof then ⟨[], step.token, step.diagnostics⟩
  else
    let list := ofLexer step.next
    ⟨step.token :: list.tokens, list.eof, step.diagnostics ++ list.diagnostics⟩
termination_by lexer.rest.length
decreasing_by exact Lexer.next_rest_lt lexer (by assumption)

def ofText (text : Text) : TokenList := ofLexer (Lexer.start text)

end TokenList

def tokenize (text : Text) : List Token := (TokenList.ofText text).all

end TdSyntax
