import TdSyntax.Include.Path

/-!
# Directories

A directory holds files, links and further directories under their names.  A
place is a directory seen from inside: together with the directories around it,
so that one can go on to an entry or back up.  What is changed at a place is kept
on the way up.
-/

namespace TdSyntax

inductive FileEntry where
  | directory (entries : List (Text × FileEntry))
  /-- A file without a text is one whose bytes are not UTF-8. -/
  | file (text : Option Text)
  | link (target : Path)

abbrev Directory := List (Text × FileEntry)

def Directory.put (directory : Directory) (name : Text) (entry : FileEntry) : Directory :=
  (name, entry) :: directory.filter fun (other, _) => other != name

/-- `around` holds the directories around this one, the innermost first, each with
the name that it has for the one inside.  `size` is the number of bytes of the
absolute path. -/
structure Place where
  directory : Directory
  around : List (Text × Directory)
  size : Nat

namespace Place

def ofTop (directory : Directory) : Place := ⟨directory, [], 0⟩

def entrySize (place : Place) (name : Text) : Nat := place.size + 1 + name.size

def enter (place : Place) (name : Text) (directory : Directory) : Place :=
  ⟨directory, (name, place.directory) :: place.around, place.entrySize name⟩

/-- Goes back to the directory above.  The top directory is above itself. -/
def parent (place : Place) : Place :=
  match place.around with
  | [] => place
  | (name, outer) :: rest =>
      ⟨outer.put name (.directory place.directory), rest, place.size - (1 + name.size)⟩

def top (place : Place) : Place :=
  ofTop (place.around.foldl
    (fun inner (name, outer) => outer.put name (.directory inner)) place.directory)

def names (place : Place) : List Text := (place.around.map Prod.fst).reverse

def path (place : Place) : Path :=
  if place.around.isEmpty then ⟨['/']⟩ else ⟨place.names.flatMap ('/' :: ·)⟩

def start (place : Place) (path : Path) : Place := if path.isRooted then place.top else place

def descend (place : Place) : List Text → Place
  | [] => place
  | name :: rest =>
      match place.directory.lookup name with
      | some (.directory directory) => (place.enter name directory).descend rest
      | _ => place

end Place

end TdSyntax
