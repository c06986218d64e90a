import TdSyntax.Text.Word

/-!
# Numerals

Reading digits in a base.  A numeral may have one plus sign in front; digits
alone may not.  Both need at least one digit, and nothing but digits.
-/

namespace TdSyntax.Text

def digitValue (c : Char) : Nat :=
  if c.isDigit then c.toNat - '0'.toNat
  else if c.isLower then c.toNat - 'a'.toNat + 10
  else if c.isUpper then c.toNat - 'A'.toNat + 10
  else 36

/-- The number that some digits continue, most significant digit first. -/
def digitsFrom? (base : Nat) : Nat → Text → Option Nat
  | value, [] => some value
  | value, c :: rest =>
      if digitValue c < base then digitsFrom? base (value * base + digitValue c) rest
      else none

def digits? (base : Nat) (text : Text) : Option Nat :=
  match text with
  | [] => none
  | _ => digitsFrom? base 0 text

def numeral? (base : Nat) (text : Text) : Option Nat :=
  match text with
  | '+' :: rest => digits? base rest
  | _ => digits? base text

end TdSyntax.Text
