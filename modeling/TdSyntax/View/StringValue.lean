import TdSyntax.Text.Numeral
import TdSyntax.Tree.Node

/-!
# Values of string literals

What the pieces of a string literal stand for.  An escape sequence stands for one
character; one that stands for none is kept as it is written.
-/

namespace TdSyntax.StringLiteral

def character? (codePoint : Nat) : Option Char :=
  if h : codePoint.isValidChar then some (Char.ofNatAux codePoint h) else none

def codePoint? (base : Nat) (digits : Text) : Option Char :=
  (Text.numeral? base digits).bind character?

/-- The text without any closing braces at its end. -/
def dropClosing (text : Text) : Text := (text.reverse.dropWhile (· == '}')).reverse

def escaped? (sequence : Text) : Option Char :=
  match sequence with
  | [] => none
  | 'n' :: _ => some '\n'
  | 't' :: _ => some '\t'
  | 'r' :: _ => some '\r'
  | 'a' :: _ => some '\x07'
  | 'b' :: _ => some '\x08'
  | 'f' :: _ => some '\x0c'
  | 'v' :: _ => some '\x0b'
  | 'u' :: rest => codePoint? 16 (dropClosing (rest.dropWhile (· == '{')))
  | c :: rest =>
      if Text.isOctalDigit c then codePoint? 8 sequence
      else if (c = 'x' || c = 'U') && !rest.isEmpty then codePoint? 16 rest
      else some c

/-- What a whole escape sequence stands for.  The backslash is a single byte. -/
def decodeEscape (text : Text) : Except Fault Text :=
  match text with
  | [] => .error .badSlice
  | c :: sequence =>
      if c.utf8Size ≠ 1 then .error .badSlice
      else .ok ((escaped? sequence).elim text fun decoded => [decoded])

def decodePiece (token : NodeToken) : Except Fault Text :=
  match token.kind with
  | .stringContent => token.text
  | .escapeSequence => token.text.bind decodeEscape
  | _ => .ok []

def value (node : Node) : Except Fault Text := do
  let pieces ← (node.elements.filterMap Element.token?).mapM decodePiece
  pure pieces.flatten

end TdSyntax.StringLiteral
