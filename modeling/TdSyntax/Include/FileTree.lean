import TdSyntax.Include.Directory
import TdSyntax.Include.Loading

/-!
# File trees

A file tree is a file system as a value, seen from its working directory.  A path
is followed piece by piece, from the working directory or from the top.  Every
piece but the last has to lead to a directory, and a link stands for the pieces
of its target, which are followed in its place.
-/

namespace TdSyntax

structure FileTree where
  home : Place

inductive Found where
  | directory (place : Place)
  | file (place : Place) (name : Text) (text : Option Text)

/-- How the entries on the way are reached: each from the directory before it, or
each by its absolute path, which then has to be short enough. -/
inductive Manner where
  | stepwise
  | absolute
  deriving DecidableEq, Repr

def maxNameSize : Nat := 255

def maxLinks : Nat := 40

namespace Place

def isOutOfReach (place : Place) (manner : Manner) (name : Text) : Bool :=
  maxNameSize < name.size || (manner == .absolute && Path.maxSize ≤ place.entrySize name)

/-- Follows pieces from a directory, through at most `links` links. -/
def walk (manner : Manner) (links : Nat) (place : Place) :
    List Text → Except ReadError Found
  | [] => .ok (.directory place)
  | piece :: rest =>
      if Path.isIdle piece then place.walk manner links rest
      else if piece = ['.', '.'] then place.parent.walk manner links rest
      else if place.isOutOfReach manner piece then .error .nameTooLong
      else
        match place.directory.lookup piece with
        | none => .error .missing
        | some (.directory directory) => (place.enter piece directory).walk manner links rest
        | some (.file text) =>
            if rest.isEmpty then .ok (.file place piece text) else .error .notDirectory
        | some (.link target) =>
            match links with
            | 0 => .error .tooManyLinks
            | links + 1 => (place.start target).walk manner links (target.pieces ++ rest)
termination_by pieces => (links, pieces.length)

/-- Follows pieces and makes the directories that are missing; `none` if a piece
leads to a file, or through too many links. -/
def make? (links : Nat) (place : Place) : List Text → Option Place
  | [] => some place
  | piece :: rest =>
      if Path.isIdle piece then place.make? links rest
      else if piece = ['.', '.'] then place.parent.make? links rest
      else
        match place.directory.lookup piece with
        | none => (place.enter piece []).make? links rest
        | some (.directory directory) => (place.enter piece directory).make? links rest
        | some (.file _) => none
        | some (.link target) =>
            match links with
            | 0 => none
            | links + 1 => (place.start target).make? links (target.pieces ++ rest)
termination_by pieces => (links, pieces.length)

end Place

namespace FileTree

def follow (tree : FileTree) (manner : Manner) (path : Path) : Except ReadError Found :=
  if path.text.isEmpty then .error .missing
  else (tree.home.start path).walk manner maxLinks path.pieces

def read (tree : FileTree) (path : Path) : Except ReadError Text :=
  if path.text.contains '\x00' then .error .zeroInName
  else if Path.maxSize ≤ path.text.size then .error .nameTooLong
  else
    match tree.follow .stepwise path with
    | .ok (.file _ _ (some text)) => .ok text
    | .ok (.file _ _ none) => .error .notUtf8
    | .ok (.directory _) => .error .isDirectory
    | .error error => .error error

/-- The absolute path without links to where a path leads.  Of the path itself only
the pieces are used, so it may be of any length. -/
def canonical? (tree : FileTree) (path : Path) : Option Path :=
  match tree.follow .absolute path with
  | .ok (.file place name _) => some (place.path.join name)
  | .ok (.directory place) => some place.path
  | .error _ => none

def comeHome (tree : FileTree) (place : Place) : FileTree :=
  ⟨place.top.descend tree.home.names⟩

def makeDirectory (tree : FileTree) (path : Path) : FileTree :=
  match (tree.home.start path).make? maxLinks path.pieces with
  | none => tree
  | some place => tree.comeHome place

def put (tree : FileTree) (path : Path) (entry : FileEntry) : FileTree :=
  let pieces := path.pieces.filter fun piece => !Path.isIdle piece
  match pieces.getLast?, (tree.home.start path).make? maxLinks pieces.dropLast with
  | some name, some place =>
      tree.comeHome { place with directory := Directory.put place.directory name entry }
  | _, _ => tree

def usualDirectories : List String :=
  ["/dev", "/etc", "/home", "/proc", "/sys", "/tmp", "/usr", "/usr/bin", "/usr/lib", "/var"]

def empty (home : Path) : FileTree :=
  let directories := usualDirectories.map Path.ofString ++ [home]
  let tree := directories.foldl makeDirectory ⟨Place.ofTop []⟩
  let tree := tree.put (.ofString "/dev/null") (.file (some []))
  ⟨tree.home.descend (home.pieces.filter fun piece => !Path.isIdle piece)⟩

def access (tree : FileTree) : FileAccess Id where
  read path := tree.read path
  canonical? path := tree.canonical? path

def openFile (tree : FileTree) (path : Path) : Except ReadError SourceFile := do
  pure ⟨path, ← tree.read path⟩

/-- The graph of the files that are reached from a root.  A file that is out of
reach is known by the path that leads to it, so it is another file for every such
path, and only the number of paths bounds the graph. -/
def load (tree : FileTree) (search : IncludeSearch) (root : SourceFile) :
    Except Fault IncludeGraph :=
  IncludeGraph.load (m := Id) (search.resolver tree.access) Path.maxCount root

end FileTree

end TdSyntax
