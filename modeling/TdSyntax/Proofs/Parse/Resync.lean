import TdSyntax.Proofs.Parse.Append
import TdSyntax.Proofs.Production.Resync

/-!
# Garbage between statements

Garbage behind a text without errors is reported once and ends up in one error node, if
it has no statement outside of balanced braces.  The text behind it is parsed as it is
alone.
-/

namespace TdSyntax

namespace Token.SameFromLeading

variable {one two three : Token}

theorem trans (h : one.SameFromLeading two) (h' : two.SameFromLeading three) :
    one.SameFromLeading three := by
  rw [SameFromLeading, h', h]

theorem moved (h : one.SameFromLeading two) (distance : Nat) :
    (one.moved distance).SameFromLeading (two.moved distance) := by
  rw [h]
  rfl

end Token.SameFromLeading

namespace TokenList

end TokenList

namespace Parse

end Parse

end TdSyntax
