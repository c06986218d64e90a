import TdSyntax.Text.Numeral

/-!
# Values of integer literals

A decimal literal has its signed value and has to fit in 64 bits.  A hexadecimal
or binary literal is a pattern of 64 bits and is read in two's complement; a
sign in front of it negates the pattern.
-/

namespace TdSyntax.IntegerLiteral

def wordSize : Nat := 18446744073709551616

def signedBound : Int := 9223372036854775808

/-- The two's complement reading of a pattern of 64 bits. -/
def wrap (value : Int) : Int := value.bmod wordSize

def checked? (value : Int) : Option Int :=
  if -signedBound ≤ value ∧ value < signedBound then some value else none

def pattern? (base : Nat) (digits : Text) : Option Int := do
  let magnitude ← Text.numeral? base digits
  if magnitude < wordSize then some (wrap magnitude) else none

def value? (text : Text) : Option Int :=
  let (negative, digits) : Bool × Text :=
    match text with
    | '-' :: rest => (true, rest)
    | '+' :: rest => (false, rest)
    | _ => (false, text)
  let signed (value : Int) : Int := if negative then wrap (-value) else value
  match digits with
  | '0' :: 'x' :: rest => (pattern? 16 rest).map signed
  | '0' :: 'b' :: rest => (pattern? 2 rest).map signed
  | _ => do
      let magnitude ← Text.digits? 10 digits
      checked? (if negative then -magnitude else magnitude)

end TdSyntax.IntegerLiteral
