import TdSyntax.BangOperator
import TdSyntax.Text.Blank
import TdSyntax.Token.Basic
import TdSyntax.Token.Comment
import TdSyntax.Token.Escape
import TdSyntax.Token.Number

/-!
# Lexemes

Which lexeme starts a text: its kind, how many characters it takes behind the
first, and what is wrong with it.  Three readings are told apart, since the
lexer knows which one applies: trivia, a token outside string literals, and a
piece of an open string literal.  A lexeme takes at least one character, so a
lexer that goes from one to the next comes to an end.
-/

namespace TdSyntax

structure Lexeme (Class : Type) where
  kind : Class
  tail : Nat
  problem : Option Problem := none
  deriving DecidableEq, Repr

namespace Lexeme

def trivia? (text : Text) : Option (Lexeme TriviaKind) :=
  match text with
  | [] => none
  | '/' :: '/' :: rest => some ⟨.lineComment, 1 + Text.runLength (· ≠ '\n') rest, none⟩
  | '/' :: '*' :: _ =>
      let (length, terminated) := BlockComment.extent text
      some ⟨.blockComment, length - 1,
        if terminated then none else some .unterminatedComment⟩
  | c :: rest =>
      if c = '#' then
        (Directive.atStart? text).map fun directive =>
          let (length, nameless) := directive.extent text
          ⟨.directive, length - 1,
            if nameless then some (.missingMacroName directive) else none⟩
      else if Text.isBlank c then some ⟨.whitespace, Text.runLength Text.isBlank rest, none⟩
      else none

theorem trivia?_nil : trivia? [] = none := rfl

/-- Whether a sign behind this character is an operator: the character ends an
operand. -/
def endsOperand (previous : Option Char) : Bool :=
  previous.any fun c => Text.isWordPart c || [')', ']', '}', '>', '"'].contains c

/-- A code block ends at the first `}]`, also inside nested code. -/
def codeBlock (rest : Text) : Lexeme Kind :=
  match Text.lengthThroughPair? '}' ']' (rest.drop 1) with
  | some closed => ⟨.codeBlock, 1 + closed, none⟩
  | none => ⟨.codeBlock, rest.length, some .unterminatedCode⟩

/-- A `!` and the name of an operator make one token; any other `!` stands
alone. -/
def bang (rest : Text) : Lexeme Kind :=
  let name := rest.takeWhile Text.isWordPart
  if name = "cond".toList then ⟨.condOperator, name.length, none⟩
  else if (BangOperator.ofName? (String.ofList name)).isSome then
    ⟨.bangOperator, name.length, none⟩
  else ⟨.exclamation, 0, none⟩

def word (first : Char) (rest : Text) : Lexeme Kind :=
  let part := rest.takeWhile Text.isWordPart
  ⟨(Kind.ofKeyword? (String.ofList (first :: part))).getD .identifier, part.length, none⟩

def numberOrName (text : Text) : Lexeme Kind :=
  let integer := Number.integerLength text
  let name := Number.nameLength text
  if integer < name then ⟨.identifier, name - 1, none⟩
  else ⟨.integerLiteral, integer - 1, none⟩

def token (previous : Option Char) (first : Char) (rest : Text) : Lexeme Kind :=
  let signed := rest.head?.any Char.isDigit && !endsOperand previous
  let single (kind : Kind) : Lexeme Kind := ⟨kind, 0, none⟩
  match first with
  | '(' => single .leftParen
  | ')' => single .rightParen
  | '[' => if rest.head? = some '{' then codeBlock rest else single .leftBracket
  | ']' => single .rightBracket
  | '{' => single .leftBrace
  | '}' => single .rightBrace
  | '<' => single .leftAngle
  | '>' => single .rightAngle
  | ',' => single .comma
  | ';' => single .semicolon
  | ':' => single .colon
  | '=' => single .eq
  | '#' => single .hash
  | '?' => single .question
  | '.' => if rest.take 2 = ['.', '.'] then ⟨.ellipsis, 2, none⟩ else single .dot
  | '"' => single .doubleQuote
  | '!' => bang rest
  | _ =>
      if first = '$' && rest.head?.any Text.isWordStart then
        ⟨.varName, Text.runLength Text.isWordPart rest, none⟩
      else if (first = '-' || first = '+') && signed then
        ⟨.integerLiteral, Text.runLength Char.isDigit rest, none⟩
      else if first = '-' then single .minus
      else if first.isDigit then numberOrName (first :: rest)
      else if Text.isWordStart first then word first rest
      else ⟨.unknown, 0, some (.unrecognized first)⟩

def stringPiece (first : Char) (rest : Text) : Lexeme Kind :=
  if first = '"' then ⟨.doubleQuote, 0, none⟩
  else if first = '\\' then
    let (length, valid) := Escape.extent rest
    ⟨.escapeSequence, length, if valid then none else some .invalidEscape⟩
  else ⟨.stringContent, Text.runLength (fun c => c ≠ '"' && c ≠ '\\') rest, none⟩

end Lexeme

end TdSyntax
