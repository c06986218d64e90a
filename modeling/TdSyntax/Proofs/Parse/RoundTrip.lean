import TdSyntax.Proofs.Parse.Printed
import TdSyntax.Proofs.Term.StatementMeant
import TdSyntax.Proofs.Term.StatementRead
import TdSyntax.Proofs.Term.StatementUnique

/-!
# Parsing undoes printing

A term is printed with a single space between its atoms.  Parsing the text reports
nothing, and the term is the only one that can be read from the tree.
-/

namespace TdSyntax

open Term

namespace Term

variable (layout : Layout)

def Value.printed (value : Value) : Text := Atom.spaced (value.atoms layout)

end Term

namespace Parse

end Parse

end TdSyntax
