import TdSyntax.Include.Error
import TdSyntax.Include.SourceFile

/-!
# Access to files

How files are reached is a parameter: `FileAccess` reads a path, and `Resolver`
finds the file that an include statement names.  Both may have effects, which
are those of the monad; a file system that is a value has none.
-/

namespace TdSyntax

structure FileAccess (m : Type → Type) where
  read : Path → m (Except ReadError Text)
  canonical? : Path → m (Option Path)

structure Resolver (m : Type → Type) where
  resolve : Path → Text → m (Except ResolveError SourceFile)
  /-- The path that all spellings of a path have in common. -/
  identity : Path → m Path

namespace FileAccess

variable {m : Type → Type} [Monad m]

def canonical (access : FileAccess m) (path : Path) : m Path := do
  pure ((← access.canonical? path).getD path)

/-- The first of some paths at which there is a file.  Whatever else goes wrong at
a path ends the search. -/
def firstPresent (access : FileAccess m) (name : Text) :
    List Path → m (Except ResolveError SourceFile)
  | [] => pure (.error (.notFound name))
  | path :: rest => do
      match ← access.read path with
      | .ok text => pure (.ok ⟨path, text⟩)
      | .error .missing => access.firstPresent name rest
      | .error cause => pure (.error (.unreadable path cause))

end FileAccess

structure IncludeSearch where
  directories : List Path
  deriving DecidableEq, Repr

namespace IncludeSearch

def candidates (search : IncludeSearch) (includer : Path) (name : Text) : List Path :=
  (includer.parent?.toList ++ search.directories).map fun directory => directory.join name

def resolver {m : Type → Type} [Monad m] (search : IncludeSearch) (access : FileAccess m) :
    Resolver m where
  resolve includer name := access.firstPresent name (search.candidates includer name)
  identity := access.canonical

end IncludeSearch

end TdSyntax
