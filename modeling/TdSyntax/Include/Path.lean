import TdSyntax.Text.Basic

/-!
# File paths

A path is kept as it was written, since messages repeat it.  What it means is
given by its components, in which empty pieces and single dots do not count,
except for a dot at the very start.  Two paths with equal components are one
path, and then they have the same `key`, which is compared faster.  `parent?` and
`join` work on the written form.
-/

namespace TdSyntax

structure Path where
  text : Text
  deriving DecidableEq, Repr

/-- A step of a path: to the top directory, to the place where the path starts,
to the directory above, or to an entry of a directory. -/
inductive PathComponent where
  | root
  | here
  | up
  | named (name : Text)
  deriving DecidableEq, Repr

namespace Path

def ofString (text : String) : Path := ⟨text.toList⟩

def toString (path : Path) : String := String.ofList path.text

/-- The paths that can be read have fewer bytes than this. -/
def maxSize : Nat := 4096

/-- There are no more paths than this that can be read. -/
def maxCount : Nat := Nat.pow 256 maxSize

def isRooted (path : Path) : Bool := path.text.head? == some '/'

def pieces (path : Path) : List Text := path.text.splitOn '/'

def isIdle (piece : Text) : Bool := piece.isEmpty || piece == ['.']

def componentsOf (pieces : List Text) : List PathComponent :=
  (pieces.filter fun piece => !isIdle piece).map fun piece =>
    if piece = ['.', '.'] then .up else .named piece

def components (path : Path) : List PathComponent :=
  let first :=
    if path.isRooted then [.root]
    else if path.pieces.head? = some ['.'] then [.here]
    else []
  first ++ componentsOf path.pieces

def componentText : PathComponent → Text
  | .root => []
  | .here => ['.']
  | .up => ['.', '.']
  | .named name => name

def written (components : List PathComponent) : Text :=
  components.flatMap fun component => componentText component ++ ['/']

/-- The text that the path shares with all that have the same components. -/
def key (path : Path) : String := String.ofList (written path.components)

/-- Whether a component is a name that can stand between slashes and means nothing
else. -/
def isPlain : PathComponent → Bool
  | .named name => !isIdle name && name != ['.', '.'] && !name.contains '/'
  | _ => true

theorem not_mem_pieces {text piece : Text} (h : piece ∈ text.splitOn '/') : '/' ∉ piece := by
  induction text generalizing piece with
  | nil => simp_all
  | cons c rest ih =>
      rw [List.splitOn_cons_eq_if_modifyHead] at h
      split at h
      · rcases List.mem_cons.1 h with rfl | h
        · simp
        · exact ih h
      · next hc =>
        cases hrest : rest.splitOn '/' with
        | nil => simp [hrest] at h
        | cons first others =>
            rw [hrest, List.modifyHead_cons] at h
            rcases List.mem_cons.1 h with rfl | h
            · have hfirst := ih (hrest ▸ List.mem_cons_self)
              have hne : '/' ≠ c := fun heq => hc (beq_iff_eq.2 heq.symm)
              simp [hne, hfirst]
            · exact ih (hrest ▸ List.mem_cons_of_mem _ h)

theorem isPlain_of_mem_components {path : Path} {component : PathComponent}
    (h : component ∈ path.components) : isPlain component = true := by
  simp only [components, componentsOf, List.mem_append, List.mem_map, List.mem_filter] at h
  rcases h with h | ⟨piece, ⟨hmem, hidle⟩, rfl⟩
  · split at h
    · simp_all [isPlain]
    · split at h <;> simp_all [isPlain]
  · have hslash := not_mem_pieces hmem
    split
    · rfl
    · simp_all [isPlain]

theorem componentText_inj {first second : PathComponent} (hfirst : isPlain first = true)
    (hsecond : isPlain second = true) (h : componentText first = componentText second) :
    first = second := by
  cases first <;> cases second <;> simp_all [componentText, isPlain, isIdle]

theorem slash_not_mem_componentText {component : PathComponent}
    (h : isPlain component = true) : '/' ∉ componentText component := by
  cases component <;> simp_all [componentText, isPlain]

theorem append_slash_inj {first second rest others : Text} (hfirst : '/' ∉ first)
    (hsecond : '/' ∉ second) (h : first ++ '/' :: rest = second ++ '/' :: others) :
    first = second ∧ rest = others := by
  induction first generalizing second with
  | nil =>
      cases second with
      | nil => simpa using h
      | cons d second =>
          rw [List.nil_append, List.cons_append] at h
          exact absurd (List.cons.inj h).1 (List.ne_of_not_mem_cons hsecond)
  | cons c first ih =>
      cases second with
      | nil =>
          rw [List.nil_append, List.cons_append] at h
          exact absurd (List.cons.inj h).1.symm (List.ne_of_not_mem_cons hfirst)
      | cons d second =>
          simp only [List.cons_append, List.cons.injEq, List.mem_cons, not_or] at h hfirst hsecond
          have ⟨heq, hrest⟩ := ih hfirst.2 hsecond.2 h.2
          exact ⟨by rw [h.1, heq], hrest⟩

theorem written_inj {first second : List PathComponent}
    (hfirst : ∀ component ∈ first, isPlain component = true)
    (hsecond : ∀ component ∈ second, isPlain component = true)
    (h : written first = written second) : first = second := by
  induction first generalizing second with
  | nil => cases second <;> simp_all [written]
  | cons component first ih =>
      cases second with
      | nil => simp [written] at h
      | cons other second =>
          simp only [written, List.flatMap_cons, List.append_assoc, List.singleton_append] at h
          have ⟨hc, hf⟩ := List.forall_mem_cons.1 hfirst
          have ⟨ho, hs⟩ := List.forall_mem_cons.1 hsecond
          have ⟨htext, hrest⟩ := append_slash_inj (slash_not_mem_componentText hc)
            (slash_not_mem_componentText ho) h
          rw [componentText_inj hc ho htext, ih hf hs hrest]

/-- Two paths are one path exactly if they have the same key. -/
theorem key_eq_key_iff {first second : Path} :
    first.key = second.key ↔ first.components = second.components := by
  constructor
  · intro h
    exact written_inj (fun _ => isPlain_of_mem_components) (fun _ => isPlain_of_mem_components)
      (String.ofList_injective h)
  · intro h
    rw [key, h, key]

/-- Drops idle pieces from the end of a path, whose pieces are given in reverse.
The first piece of all is not idle if it is a dot, or stands for the top
directory. -/
def trimIdle (rooted : Bool) : List Text → List Text
  | [] => []
  | [first] => if rooted || first == ['.'] then [first] else if isIdle first then [] else [first]
  | last :: rest => if isIdle last then trimIdle rooted rest else last :: rest

def parent? (path : Path) : Option Path :=
  match trimIdle path.isRooted path.pieces.reverse with
  | [] => none
  | [_] => if path.isRooted then none else some ⟨[]⟩
  | _ :: rest =>
      let kept := trimIdle path.isRooted rest
      some (if kept = [[]] then ⟨['/']⟩ else ⟨['/'].intercalate kept.reverse⟩)

/-- The path of an entry of a directory.  The name may be a path; it is taken
alone if it starts at the top directory. -/
def join (directory : Path) (name : Text) : Path :=
  if (Path.mk name).isRooted then ⟨name⟩
  else
    match directory.text.getLast? with
    | none => ⟨name⟩
    | some '/' => ⟨directory.text ++ name⟩
    | some _ => ⟨directory.text ++ '/' :: name⟩

end Path

end TdSyntax
