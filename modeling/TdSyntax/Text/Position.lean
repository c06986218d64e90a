import TdSyntax.Text.Basic

/-!
# Lines and columns

Lines end at the line feed alone.  A position counts lines and, within the
line, bytes; both start from zero.
-/

namespace TdSyntax.Text

structure Position where
  line : Nat
  column : Nat
  deriving DecidableEq, Repr

def Position.after (position : Position) : Text → Position
  | [] => position
  | c :: rest =>
      if c = '\n' then Position.after ⟨position.line + 1, 0⟩ rest
      else Position.after ⟨position.line, position.column + c.utf8Size⟩ rest

def position? (offset : Nat) (text : Text) : Option Position :=
  (splitAt? offset text).map fun (before, _) => Position.after ⟨0, 0⟩ before

def lines (text : Text) : List Text := text.splitOn '\n'

end TdSyntax.Text
