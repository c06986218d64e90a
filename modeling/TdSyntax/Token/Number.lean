import TdSyntax.Text.Word

/-!
# Numbers and names that start with a digit

Both an integer and a name may start with digits.  The longer reading wins, and
an integer wins a tie: `0x1F` and `12` are integers, `1a` and `0x` are names.
-/

namespace TdSyntax.Number

/-- The length of a radix mark and the digits behind it; `none` without a
digit. -/
def radixLength? (mark : Text) (isDigit : Char → Bool) (text : Text) : Option Nat := do
  let rest ← Text.dropWord? mark text
  let digits := Text.runLength isDigit rest
  if 0 < digits then some (mark.length + digits) else none

def integerLength (text : Text) : Nat :=
  let decimal := Text.runLength Char.isDigit text
  let radix :=
    radixLength? ['0', 'x'] Text.isHexDigit text <|>
      radixLength? ['0', 'b'] Text.isBinaryDigit text
  match radix with
  | some length => max length decimal
  | none => decimal

def nameLength (text : Text) : Nat :=
  let digits := Text.runLength Char.isDigit text
  let rest := text.drop digits
  if rest.head?.any Text.isWordStart then digits + Text.runLength Text.isWordPart rest else 0

end TdSyntax.Number
