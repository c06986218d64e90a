import TdSyntax.Include.Loading

/-!
# Name tables

A name table finds included files by name alone: the name, as it is written, is
also the path of the file.  Paths that are aliases share an identity.
-/

namespace TdSyntax

structure NameTable where
  files : List (Text × Text)
  aliases : List (Text × Text)
  deriving DecidableEq, Repr

namespace NameTable

def resolve (table : NameTable) (name : Text) : Except ResolveError SourceFile :=
  match table.files.lookup name with
  | some text => .ok ⟨⟨name⟩, text⟩
  | none => .error (.notFound name)

def identity (table : NameTable) (path : Path) : Path :=
  match table.aliases.lookup path.text with
  | some other => ⟨other⟩
  | none => path

def resolver (table : NameTable) : Resolver Id where
  resolve _ name := table.resolve name
  identity path := table.identity path

def load (table : NameTable) (root : SourceFile) : Except Fault IncludeGraph :=
  IncludeGraph.load table.resolver table.files.length root

end NameTable

end TdSyntax
