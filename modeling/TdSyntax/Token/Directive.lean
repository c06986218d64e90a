import TdSyntax.Text.Blank
import TdSyntax.Text.Word

/-!
# Preprocessor directives

A directive is one of five words that start with `#`.  Three of them take the
name of a macro, which may follow after any blank text, line feeds included.
The directives are not executed: they count as trivia.
-/

namespace TdSyntax

inductive Directive where
  | define
  | ifdef
  | ifndef
  | otherwise
  | endif
  deriving DecidableEq, Repr

namespace Directive

def all : List Directive := [.define, .ifdef, .ifndef, .otherwise, .endif]

def spelling : Directive → String
  | .define => "#define"
  | .ifdef => "#ifdef"
  | .ifndef => "#ifndef"
  | .otherwise => "#else"
  | .endif => "#endif"

def word (directive : Directive) : Text := directive.spelling.toList

def takesName : Directive → Bool
  | .define | .ifdef | .ifndef => true
  | .otherwise | .endif => false

def atStart? (text : Text) : Option Directive :=
  all.find? fun directive =>
    match Text.dropWord? directive.word text with
    | some rest => !rest.continuesWord
    | none => false

def nameLength? (text : Text) : Option Nat :=
  let blanks := Text.runLength Text.isBlank text
  let name := text.drop blanks
  if 0 < blanks && name.head?.any Text.isWordStart then
    some (blanks + Text.runLength Text.isWordPart name)
  else none

/-- How many characters a directive takes from the text that it starts, and
whether a name that it should have is missing. -/
def extent (directive : Directive) (text : Text) : Nat × Bool :=
  let length := directive.word.length
  if directive.takesName then
    match nameLength? (text.drop length) with
    | some name => (length + name, false)
    | none => (length, true)
  else (length, false)

end Directive

end TdSyntax
