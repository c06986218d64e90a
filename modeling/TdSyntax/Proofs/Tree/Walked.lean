import TdSyntax.Proofs.Tree.Descendants

/-!
# A walk step by step

What a walk has still to visit is a list of events, of which each step takes the first one.
So the walk from a node goes through the events of the recursive walk and then stops.
-/

namespace TdSyntax

namespace Walk

def unvisited (frame : Node × List Element) : List WalkEvent :=
  frame.2.flatMap Element.events ++ [.leave frame.1]

def remaining (walk : Walk) : List WalkEvent :=
  walk.stack.flatMap unvisited ++ walk.pending.toList.flatMap Node.events

theorem next_eq (walk : Walk) :
    walk.next.1 = walk.remaining.head? ∧ walk.next.2.remaining = walk.remaining.tail := by
  obtain ⟨pending, stack⟩ := walk
  cases stack with
  | nil =>
      cases pending with
      | none => exact ⟨rfl, rfl⟩
      | some root => simp [next, remaining, unvisited, Node.events_eq]
  | cons frame outer =>
      obtain ⟨node, elements⟩ := frame
      cases elements with
      | nil => simp [next, remaining, unvisited]
      | cons element rest =>
          cases element with
          | node child => simp [next, remaining, unvisited, Element.events, Node.events_eq]
          | token inner => simp [next, remaining, unvisited, Element.events]

def nth (walk : Walk) : Nat → Option WalkEvent
  | 0 => walk.next.1
  | count + 1 => walk.next.2.nth count

theorem nth_eq (walk : Walk) (count : Nat) : walk.nth count = walk.remaining[count]? := by
  induction count generalizing walk with
  | zero => rw [nth, walk.next_eq.1, List.head?_eq_getElem?]
  | succ count ih => rw [nth, ih, walk.next_eq.2, List.getElem?_tail]

/-- The walk from a node is the recursive walk over it, and nothing behind that. -/
theorem nth_ofNode (node : Node) (count : Nat) :
    (ofNode node).nth count = node.events[count]? := by
  rw [nth_eq]
  simp [remaining, ofNode]

end Walk

end TdSyntax
