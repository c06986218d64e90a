import TdSyntax.Include.Path
import TdSyntax.Parse
import TdSyntax.Text.Position
import TdSyntax.View.StringValue

/-!
# Source files

A source file is a text with the path under which it was found.  What it
includes is told by its include statements, wherever they stand: inside of
blocks, and also where the grammar does not allow them.
-/

namespace TdSyntax

structure IncludeDirective where
  name : Text
  span : Span
  deriving DecidableEq, Repr

namespace Node

def includeDirective? (node : Node) : Except Fault (Option IncludeDirective) :=
  if node.kind = .includeStmt then
    match node.childOfKind? .string with
    | none => .ok none
    | some name => do pure (some ⟨← StringLiteral.value name, name.span⟩)
  else .ok none

def includeDirectives (node : Node) : Except Fault (List IncludeDirective) := do
  let directives ← node.descendants.mapM includeDirective?
  pure directives.reduceOption

end Node

structure SourceFile where
  path : Path
  text : Text
  deriving DecidableEq, Repr

namespace SourceFile

def parse (file : SourceFile) : Except Fault Parse := Parse.ofText file.text

def includeDirectives (file : SourceFile) : Except Fault (List IncludeDirective) := do
  (← file.parse).root.includeDirectives

def check (file : SourceFile) : Except Fault (List Diagnostic) := do
  pure (← file.parse).diagnostics

def position (file : SourceFile) (offset : Nat) : Except Fault Text.Position :=
  match Text.position? offset file.text with
  | some position => .ok position
  | none => .error .invalidOffset

end SourceFile

end TdSyntax
