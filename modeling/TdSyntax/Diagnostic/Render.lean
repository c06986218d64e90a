import TdSyntax.Diagnostic.Basic
import TdSyntax.Text.Position

/-!
# Rendered diagnostics

A diagnostic is shown with the line on which it starts.  The line number stands
in a gutter, the place of the diagnostic is underlined, and an empty place is
underlined by a single mark.
-/

namespace TdSyntax.Diagnostic

private def blanks (count : Nat) : String := String.ofList (List.replicate count ' ')

def mark : Severity → Char
  | .error => '^'
  | .warning => '-'

def title (diagnostic : Diagnostic) : String :=
  diagnostic.severity.label ++ ": " ++ diagnostic.message

def underline (diagnostic : Diagnostic) (column : Nat) (line : Text) : Nat × Nat :=
  (column, max 1 (min diagnostic.span.length (line.size - column)))

/-- The lines that show a diagnostic of the file at `path`; `none` if it starts
at no boundary of the text. -/
def render? (diagnostic : Diagnostic) (path : String) (text : Text) :
    Option (List String) := do
  let position ← Text.position? diagnostic.span.start text
  let line ← (Text.lines text)[position.line]?
  let number := toString (position.line + 1)
  let (indent, length) := diagnostic.underline position.column line
  let marks := String.ofList (List.replicate length (mark diagnostic.severity))
  pure [
    diagnostic.title,
    blanks number.length ++ "--> " ++ path ++ ":" ++ number ++ ":" ++
      toString (position.column + 1),
    blanks (number.length + 1) ++ "|",
    number ++ " | " ++ String.ofList line,
    blanks (number.length + 1) ++ "| " ++ blanks indent ++ marks ++ " here",
    blanks (number.length + 1) ++ "|"]

end TdSyntax.Diagnostic
