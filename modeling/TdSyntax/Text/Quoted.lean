import TdSyntax.Text.Extender
import TdSyntax.Text.Printable

/-!
# Quoted texts

The form in which dumps and messages show a text or a single character: the
delimiter and the backslash are escaped, four control characters have a letter
of their own, and whatever cannot be read on its own is written as its code
point in lower-case hexadecimal digits between braces.
-/

namespace TdSyntax.Text

def codePointEscape (c : Char) : Text :=
  ['\\', 'u', '{'] ++ Nat.toDigits 16 c.toNat ++ ['}']

def quoteChar (delimiter c : Char) : Text :=
  if c = '\x00' then ['\\', '0']
  else if c = '\t' then ['\\', 't']
  else if c = '\r' then ['\\', 'r']
  else if c = '\n' then ['\\', 'n']
  else if c = '\\' || c = delimiter then ['\\', c]
  else if isExtender c || !isPrintable c then codePointEscape c
  else [c]

def quoted (text : Text) : Text :=
  '"' :: text.flatMap (quoteChar '"') ++ ['"']

def quotedChar (c : Char) : Text :=
  '\'' :: quoteChar '\'' c ++ ['\'']

end TdSyntax.Text
