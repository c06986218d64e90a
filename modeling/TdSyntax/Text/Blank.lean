import TdSyntax.Text.Basic

/-!
# Blank characters

The characters with the Unicode property `White_Space`.  Control characters
such as U+001C, and the invisible U+180E, U+200B and U+FEFF, do not have it.
-/

namespace TdSyntax.Text

/-- The ranges of code points with the property `White_Space`, both ends
included. -/
def blankRanges : List (Nat × Nat) :=
  [(0x0009, 0x000D), (0x0020, 0x0020), (0x0085, 0x0085), (0x00A0, 0x00A0),
    (0x1680, 0x1680), (0x2000, 0x200A), (0x2028, 0x2029), (0x202F, 0x202F),
    (0x205F, 0x205F), (0x3000, 0x3000)]

def isBlank (c : Char) : Bool :=
  blankRanges.any fun (low, high) => low ≤ c.toNat && c.toNat ≤ high

end TdSyntax.Text
