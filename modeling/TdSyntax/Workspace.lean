import TdSyntax.Include.SourceFile

/-!
# Workspaces

The files that are open, numbered in the order in which they were opened.  The
path and the text of an open file can be replaced; whatever is asked about the
file is answered from its present text.
-/

namespace TdSyntax

structure Workspace where
  files : List SourceFile
  deriving DecidableEq, Repr

namespace Workspace

def empty : Workspace := ⟨[]⟩

def file? (workspace : Workspace) (number : Nat) : Option SourceFile :=
  workspace.files[number]?

def add (workspace : Workspace) (file : SourceFile) : Nat × Workspace :=
  (workspace.files.length, ⟨workspace.files ++ [file]⟩)

def setText (workspace : Workspace) (number : Nat) (text : Text) : Workspace :=
  ⟨workspace.files.modify number fun file => { file with text := text }⟩

def setPath (workspace : Workspace) (number : Nat) (path : Path) : Workspace :=
  ⟨workspace.files.modify number fun file => { file with path := path }⟩

end Workspace

end TdSyntax
