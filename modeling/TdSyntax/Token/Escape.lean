import TdSyntax.Text.Word

/-!
# Escape sequences

A backslash in a string literal starts an escape sequence: one to three octal
digits, `x` and two hexadecimal digits, `u` and four, `u` and any number of them
between braces, `U` and eight, or any other single character.
-/

namespace TdSyntax.Escape

def hexRun (limit : Nat) (text : Text) : Nat := Text.runLength Text.isHexDigit (text.take limit)

/-- How many characters behind the backslash belong to the escape sequence, and
whether it is well formed. -/
def extent (text : Text) : Nat × Bool :=
  match text with
  | [] => (0, false)
  | 'x' :: rest =>
      let digits := hexRun 2 rest
      (1 + digits, digits == 2)
  | 'u' :: '{' :: rest =>
      let digits := Text.runLength Text.isHexDigit rest
      let closed := (rest.drop digits).head? == some '}'
      (2 + digits + closed.toNat, 0 < digits && closed)
  | 'u' :: rest =>
      let digits := hexRun 4 rest
      (1 + digits, digits == 4)
  | 'U' :: rest =>
      let digits := hexRun 8 rest
      (if digits = 8 then 9 else 1, true)
  | c :: _ =>
      if Text.isOctalDigit c then (Text.runLength Text.isOctalDigit (text.take 3), true)
      else (1, true)

end TdSyntax.Escape
