import TdSyntax.Proofs.Diagnostic.Order
import TdSyntax.Proofs.Parse.Lossless
import TdSyntax.Proofs.Production.Joined
import TdSyntax.Proofs.Tree.Alike

/-!
# Parsing is compositional

If a text has no errors, what stands behind it in the next line is parsed as it is alone:
the tree of both has the parts of the two trees one behind the other, and the
diagnostics are those of the two texts.
-/

namespace TdSyntax

namespace Diagnostic

end Diagnostic

namespace Parse

def Holds (parse : Parse) (items : List Tree) : Prop :=
  ∃ eof, parse.tree.children = items ++ [.leaf eof] ∧ eof.kind = .eof

end Parse

end TdSyntax
