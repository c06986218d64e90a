import TdSyntax.Text.Basic

/-!
# Block comments

A block comment starts with `/*`, ends just past the first `*/` behind its
opener and does not nest.  Without a closer it reaches to the end of the text.
-/

namespace TdSyntax

structure BlockComment where
  stop : Nat
  terminated : Bool
  deriving DecidableEq, Repr

namespace BlockComment

/-- How many characters a block comment takes from the text that starts with
its opener, and whether it is closed. -/
def extent (text : Text) : Nat × Bool :=
  match Text.lengthThroughPair? '*' '/' (text.drop 2) with
  | some closed => (2 + closed, true)
  | none => (text.length, false)

def at? (text : Text) (offset : Nat) : Option BlockComment := do
  let (_, rest) ← text.splitAt? offset
  match rest with
  | '/' :: '*' :: _ =>
      let (length, terminated) := extent rest
      pure ⟨offset + Text.size (rest.take length), terminated⟩
  | _ => none

end BlockComment

end TdSyntax
