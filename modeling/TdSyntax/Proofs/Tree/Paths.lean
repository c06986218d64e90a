import Mathlib.Data.List.Nodup
import TdSyntax.Proofs.Tree.Descendants

/-!
# Paths tell places apart

The path of a place ends with the path of every node around it, and siblings stand at
different indices.  So a walk meets no place twice, and the path from a node to a place below
it leads to this place only.
-/

namespace TdSyntax

def Element.path : Element → List Nat
  | .node inner => inner.path
  | .token inner => inner.path

namespace WalkEvent

def element : WalkEvent → Element
  | .enter node | .leave node => .node node
  | .token inner => .token inner

end WalkEvent

namespace Element

theorem path_ofTree (source : Text) (path : List Nat) (offset : Nat) (tree : Tree) :
    (ofTree source path offset tree).path = path := by
  cases tree <;> rfl

theorem path_ofSiblings {source : Text} {path : List Nat} {trees : List Tree}
    {index offset place : Nat} {element : Element} (h : (ofSiblings source path index offset trees)[place]? = some element) :
    element.path = (index + place) :: path := by
  induction trees generalizing index offset place with
  | nil => cases h
  | cons tree trees ih =>
      cases place with
      | zero =>
          obtain rfl : ofTree source (index :: path) offset tree = element := Option.some.inj h
          exact path_ofTree _ _ _ _
      | succ place =>
          rw [ih h, Nat.add_right_comm, Nat.add_assoc]

end Element

namespace Node

variable {node : Node} {element : Element}

theorem path_of_getElem? {index : Nat} (h : node.elements[index]? = some element) :
    element.path = index :: node.path := by
  have hpath := Element.path_ofSiblings h
  rwa [Nat.zero_add] at hpath

theorem path_suffix (node : Node) : ∀ event ∈ node.events, node.path <:+ event.element.path := by
  induction node using Node.induction with
  | step node ih =>
      intro event hmem
      rw [events_eq, List.mem_cons, List.mem_append, List.mem_flatMap, List.mem_singleton] at hmem
      rcases hmem with rfl | ⟨element, helement, hevent⟩ | rfl
      · exact List.suffix_rfl
      · obtain ⟨index, hindex⟩ := List.mem_iff_getElem?.1 helement
        have hpath := path_of_getElem? hindex
        have hwithin : element.path <:+ event.element.path := by
          cases element with
          | node child => exact ih child (mem_nodes_iff.2 helement) event hevent
          | token inner =>
              rw [List.mem_singleton.1 hevent]
              exact List.suffix_rfl
        rw [hpath] at hwithin
        exact (List.suffix_cons index node.path).trans hwithin
      · exact List.suffix_rfl

theorem path_suffix_of_getElem? {index : Nat} (h : node.elements[index]? = some element) :
    ∀ event ∈ element.events, index :: node.path <:+ event.element.path := by
  intro event hmem
  rw [← path_of_getElem? h]
  cases element with
  | node child => exact child.path_suffix event hmem
  | token inner =>
      rw [List.mem_singleton.1 hmem]
      exact List.suffix_rfl

theorem nodup_events (node : Node) : node.events.Nodup := by
  induction node using Node.induction with
  | step node ih =>
      have hlonger : ∀ event ∈ node.elements.flatMap Element.events,
          event.element ≠ .node node := by
        intro event hmem heq
        obtain ⟨element, helement, hevent⟩ := List.mem_flatMap.1 hmem
        obtain ⟨index, hindex⟩ := List.mem_iff_getElem?.1 helement
        have hlength := (path_suffix_of_getElem? hindex event hevent).length_le
        rw [heq] at hlength
        simp only [Element.path, List.length_cons] at hlength
        omega
      have hinside : (node.elements.flatMap Element.events).Nodup := by
        refine List.nodup_flatMap.2 ⟨?_, ?_⟩
        · intro element hmem
          cases element with
          | node child => exact ih child (List.mem_filterMap.2 ⟨_, hmem, rfl⟩)
          | token inner => exact List.nodup_singleton _
        · refine List.pairwise_iff_getElem.2 fun first second hfirst hsecond hlt => ?_
          intro event hone htwo
          have hleft := path_suffix_of_getElem? (List.getElem?_eq_getElem hfirst) event hone
          have hright := path_suffix_of_getElem? (List.getElem?_eq_getElem hsecond) event htwo
          have heq := (List.suffix_of_suffix_length_le hleft hright (by simp)).eq_of_length (by simp)
          simp at heq
          omega
      rw [events_eq, List.nodup_cons, List.nodup_append']
      refine ⟨?_, hinside, List.nodup_singleton _, ?_⟩
      · rw [List.mem_append, List.mem_singleton, not_or]
        exact ⟨fun hmem => hlonger _ hmem rfl, nofun⟩
      · intro event hmem hleave
        rw [List.mem_singleton.1 hleave] at hmem
        exact hlonger _ hmem rfl

end Node

end TdSyntax
