import TdSyntax.Proofs.Tree.Paths
import TdSyntax.Proofs.Tree.Walked

/-!
# A walk with skips

The caller of a walk asks for the next event, or to skip the innermost node that is open.
Whatever is asked, and in which order, the walk answers as if the events of the whole walk
lay in a list: a step shows the next event of the list, and a skip goes on behind the leave of
the innermost node that was entered and has been neither left nor skipped.  The walk over
nodes answers in the same way from the list without its tokens.
-/

namespace TdSyntax

namespace WalkEvent

def isToken : WalkEvent → Bool
  | .token _ => true
  | _ => false

/-- Every node that is entered is left, behind the events inside of it. -/
inductive Nested : List WalkEvent → Prop
  | nil : Nested []
  | token (inner : NodeToken) {rest : List WalkEvent} (hrest : Nested rest) :
      Nested (.token inner :: rest)
  | node (node : Node) {inner rest : List WalkEvent} (hinner : Nested inner)
      (hrest : Nested rest) : Nested (.enter node :: (inner ++ .leave node :: rest))

theorem Nested.append {first second : List WalkEvent} (h : Nested first) (h' : Nested second) :
    Nested (first ++ second) := by
  induction h with
  | nil => exact h'
  | token inner _ ih => exact .token inner ih
  | node node hinner _ _ ih => simpa using Nested.node node hinner ih

def behind (event : WalkEvent) (events : List WalkEvent) : List WalkEvent :=
  (events.dropWhile (· ≠ event)).tail

theorem behind_append {event : WalkEvent} {front : List WalkEvent} (h : event ∉ front)
    (back : List WalkEvent) : behind event (front ++ event :: back) = back := by
  have hfront : ∀ other ∈ front, decide (other ≠ event) = true := by
    rintro other hmem
    exact decide_eq_true fun heq => h (heq ▸ hmem)
  rw [behind, List.dropWhile_append_of_pos hfront]
  simp

theorem behind_subset (event : WalkEvent) (events : List WalkEvent) :
    behind event events ⊆ events :=
  ((List.tail_sublist _).trans (List.dropWhile_sublist _)).subset

def openedBehind (opened : List Node) : Option WalkEvent → List Node
  | some (.enter node) => node :: opened
  | some (.leave _) => opened.tail
  | some (.token _) | none => opened

end WalkEvent

theorem Node.nested_events (node : Node) : WalkEvent.Nested node.events := by
  induction node using Node.induction with
  | step node ih =>
      have hinside : ∀ elements ⊆ node.elements,
          WalkEvent.Nested (elements.flatMap Element.events) := by
        intro elements hsubset
        induction elements with
        | nil => exact .nil
        | cons element elements ihElements =>
            obtain ⟨hfirst, hrest⟩ := List.cons_subset.1 hsubset
            rw [List.flatMap_cons]
            cases element with
            | node child =>
                exact (ih child (mem_nodes_iff.2 hfirst)).append (ihElements hrest)
            | token inner => exact .token inner (ihElements hrest)
      rw [events_eq]
      exact .node node (hinside _ (List.Subset.refl _)) .nil

namespace Walk

/-! ## What is asked of a walk -/

inductive Request where
  | next
  | skip
  deriving DecidableEq, Repr

/-- An event, or nothing at the end of the walk; that a node has been skipped; or the fault of
a skip that is not possible. -/
inductive Reply where
  | event (found : Option WalkEvent)
  | skipped
  | refused (fault : Fault)
  deriving DecidableEq, Repr

/-- The reply to a request, and the walk behind it.  A refused skip changes nothing. -/
def answer (step : Walk → Option WalkEvent × Walk) (walk : Walk) : Request → Reply × Walk
  | .next => (.event (step walk).1, (step walk).2)
  | .skip =>
      match walk.skipSubtree with
      | .ok later => (.skipped, later)
      | .error fault => (.refused fault, walk)

def replies (step : Walk → Option WalkEvent × Walk) : Walk → List Request → List Reply
  | _, [] => []
  | walk, request :: rest =>
      (walk.answer step request).1 :: replies step (walk.answer step request).2 rest

/-- A place in a list of events: those that are still ahead, and the nodes that have been
entered and neither been left nor skipped, the innermost first. -/
structure Tour where
  ahead : List WalkEvent
  opened : List Node

namespace Tour

def answer (all : List WalkEvent) (tour : Tour) : Request → Reply × Tour
  | .next =>
      (.event tour.ahead.head?,
        ⟨tour.ahead.tail, WalkEvent.openedBehind tour.opened tour.ahead.head?⟩)
  | .skip =>
      match tour.opened with
      | [] => (.refused .nothingToSkip, tour)
      | node :: outer => (.skipped, ⟨WalkEvent.behind (.leave node) all, outer⟩)

def replies (all : List WalkEvent) : Tour → List Request → List Reply
  | _, [] => []
  | tour, request :: rest =>
      (tour.answer all request).1 :: replies all (tour.answer all request).2 rest

def run (all : List WalkEvent) (requests : List Request) : List Reply :=
  replies all ⟨all, []⟩ requests

theorem mem_of_mem_replies {all : List WalkEvent} {tour : Tour} (h : tour.ahead ⊆ all)
    {requests : List Request} {event : WalkEvent}
    (hreply : .event (some event) ∈ tour.replies all requests) : event ∈ all := by
  induction requests generalizing tour with
  | nil => cases hreply
  | cons request requests ih =>
      rcases List.mem_cons.1 hreply with hfirst | hrest
      · cases request with
        | next => exact h (List.mem_of_head? (Reply.event.inj hfirst).symm)
        | skip =>
            simp only [answer] at hfirst
            split at hfirst <;> cases hfirst
      · refine ih ?_ hrest
        cases request with
        | next => exact List.Subset.trans (List.tail_sublist _).subset h
        | skip =>
            simp only [answer]
            split
            · exact h
            · exact WalkEvent.behind_subset _ _

end Tour

/-! ## Steps -/

def opened (walk : Walk) : List Node := walk.stack.map Prod.fst

/-- A step shows the first of the remaining events that it does not pass over, and opens and
closes the node that it shows. -/
structure Steps (shown : WalkEvent → Bool) (step : Walk → Option WalkEvent × Walk) : Prop where
  leave (node : Node) : shown (.leave node) = true
  event (walk : Walk) : (step walk).1 = (walk.remaining.filter shown).head?
  ahead (walk : Walk) :
    (step walk).2.remaining.filter shown = (walk.remaining.filter shown).tail
  suffix (walk : Walk) : (step walk).2.remaining <:+ walk.remaining
  opened (walk : Walk) : (step walk).2.opened = WalkEvent.openedBehind walk.opened (step walk).1

theorem next_opened (walk : Walk) :
    walk.next.2.opened = WalkEvent.openedBehind walk.opened walk.next.1 := by
  obtain ⟨pending, stack⟩ := walk
  rcases stack with _ | ⟨⟨node, _ | ⟨_ | _, rest⟩⟩, outer⟩
  · cases pending <;> rfl
  all_goals rfl

theorem next_steps : Steps (fun _ => true) next where
  leave _ := rfl
  event walk := by
    rw [List.filter_true]
    exact walk.next_eq.1
  ahead walk := by
    rw [List.filter_true, List.filter_true]
    exact walk.next_eq.2
  suffix walk := walk.next_eq.2 ▸ List.tail_suffix _
  opened := next_opened

/-! ## The walk over nodes -/

def pastTokens (walk : Walk) : Walk :=
  match walk.stack with
  | [] => walk
  | (node, elements) :: outer => { walk with stack := (node, dropTokens elements) :: outer }

theorem nextNode_eq_next (walk : Walk) : walk.nextNode = walk.pastTokens.next := by
  obtain ⟨pending, _ | ⟨⟨node, elements⟩, outer⟩⟩ := walk <;> rfl

theorem exists_dropTokens (elements : List Element) :
    ∃ tokens : List NodeToken, elements = tokens.map .token ++ dropTokens elements := by
  fun_induction dropTokens elements with
  | case1 inner rest ih =>
      obtain ⟨tokens, htokens⟩ := ih
      exact ⟨inner :: tokens, congrArg _ htokens⟩
  | case2 elements => exact ⟨[], rfl⟩

theorem remaining_eq_append (walk : Walk) :
    ∃ tokens : List NodeToken,
      walk.remaining = tokens.map .token ++ walk.pastTokens.remaining := by
  obtain ⟨pending, _ | ⟨⟨node, elements⟩, outer⟩⟩ := walk
  · exact ⟨[], rfl⟩
  · obtain ⟨tokens, htokens⟩ := exists_dropTokens elements
    refine ⟨tokens, ?_⟩
    have hevents : (tokens.map Element.token).flatMap Element.events = tokens.map .token := by
      rw [List.flatMap_map, List.map_eq_flatMap]
      rfl
    simp only [remaining, pastTokens, List.flatMap_cons, unvisited]
    conv_lhs => rw [htokens, List.flatMap_append, hevents]
    simp only [List.append_assoc]

theorem head?_pastTokens (walk : Walk) :
    ∀ event ∈ walk.pastTokens.remaining.head?, event.isToken = false := by
  obtain ⟨pending, _ | ⟨⟨node, elements⟩, outer⟩⟩ := walk
  · cases pending with
    | none => nofun
    | some root => simp [pastTokens, remaining, Node.events_eq, WalkEvent.isToken]
  · simp only [pastTokens, remaining, List.flatMap_cons, unvisited]
    fun_induction dropTokens elements with
    | case1 inner rest ih => exact ih
    | case2 elements hother =>
        rcases elements with _ | ⟨_ | inner, rest⟩
        · simp [WalkEvent.isToken]
        · simp [Element.events, Node.events_eq, WalkEvent.isToken]
        · exact absurd rfl (hother inner rest)

theorem nextNode_eq (walk : Walk) :
    walk.nextNode =
      match walk.next with
      | (some (.token _), later) => later.nextNode
      | other => other := by
  obtain ⟨pending, _ | ⟨⟨node, _ | ⟨_ | _, rest⟩⟩, outer⟩⟩ := walk
  · cases pending <;> rfl
  all_goals rfl

theorem nextNode_steps : Steps (fun event => !event.isToken) nextNode := by
  have hfilter (walk : Walk) : walk.remaining.filter (fun event => !event.isToken) =
      walk.pastTokens.remaining.filter fun event => !event.isToken := by
    obtain ⟨tokens, htokens⟩ := walk.remaining_eq_append
    have hnone : (tokens.map WalkEvent.token).filter (fun event => !event.isToken) = [] := by
      simp [List.filter_map, WalkEvent.isToken, Function.comp_def]
    rw [htokens, List.filter_append, hnone, List.nil_append]
  have hnext (walk : Walk) := walk.pastTokens.next_eq
  have hopened (walk : Walk) : walk.pastTokens.opened = walk.opened := by
    obtain ⟨pending, _ | ⟨⟨node, elements⟩, outer⟩⟩ := walk <;> rfl
  refine ⟨fun _ => rfl, fun walk => ?_, fun walk => ?_, fun walk => ?_, fun walk => ?_⟩
  · rw [hfilter, nextNode_eq_next, (hnext walk).1]
    have hhead := walk.head?_pastTokens
    cases hremaining : walk.pastTokens.remaining with
    | nil => rfl
    | cons event rest =>
        have hevent := hhead event (by rw [hremaining]; rfl)
        rw [List.filter_cons_of_pos (by simp [hevent])]
        rfl
  · rw [hfilter walk, nextNode_eq_next, (hnext walk).2]
    have hhead := walk.head?_pastTokens
    cases hremaining : walk.pastTokens.remaining with
    | nil => rfl
    | cons event rest =>
        have hevent := hhead event (by rw [hremaining]; rfl)
        rw [List.filter_cons_of_pos (by simp [hevent])]
        rfl
  · obtain ⟨tokens, htokens⟩ := walk.remaining_eq_append
    rw [nextNode_eq_next, (hnext walk).2, htokens]
    exact (List.tail_suffix _).trans (List.suffix_append _ _)
  · rw [nextNode_eq_next, next_opened, hopened]

/-! ## Runs -/

variable {shown : WalkEvent → Bool} {step : Walk → Option WalkEvent × Walk}
  {all : List WalkEvent} {walk : Walk} {tour : Tour}

/-- A walk stands where a tour through the events that it shows does. -/
structure Follows (shown : WalkEvent → Bool) (all : List WalkEvent) (walk : Walk) (tour : Tour) :
    Prop where
  ahead : walk.remaining.filter shown = tour.ahead
  opened : walk.opened = tour.opened
  suffix : walk.remaining <:+ all

theorem Follows.next (h : Follows shown all walk tour) (hstep : Steps shown step) :
    (walk.answer step .next).1 = (tour.answer (all.filter shown) .next).1 ∧
      Follows shown all (walk.answer step .next).2 (tour.answer (all.filter shown) .next).2 := by
  have hevent := hstep.event walk
  rw [h.ahead] at hevent
  refine ⟨congrArg Reply.event hevent, ?_, ?_, (hstep.suffix walk).trans h.suffix⟩
  · exact (hstep.ahead walk).trans (congrArg List.tail h.ahead)
  · exact (hstep.opened walk).trans (by rw [h.opened, hevent]; rfl)

theorem Follows.skip (h : Follows shown all walk tour) (hstep : Steps shown step)
    (hnodup : all.Nodup) :
    (walk.answer step .skip).1 = (tour.answer (all.filter shown) .skip).1 ∧
      Follows shown all (walk.answer step .skip).2 (tour.answer (all.filter shown) .skip).2 := by
  obtain ⟨pending, _ | ⟨⟨node, elements⟩, outer⟩⟩ := walk
  · have hopened : tour.opened = [] := h.opened.symm
    simp only [answer, Tour.answer, skipSubtree, hopened, true_and]
    exact h
  · have hopened : tour.opened = node :: outer.map Prod.fst := h.opened.symm
    obtain ⟨front, hfront⟩ := h.suffix
    let later : Walk := ⟨pending, outer⟩
    have hall : all = (front ++ elements.flatMap Element.events) ++
        .leave node :: later.remaining := by
      rw [← hfront]
      simp [later, remaining, unvisited]
    -- the leave of the innermost node occurs once, so what comes behind it is what remains
    have hnotMem : .leave node ∉ front ++ elements.flatMap Element.events := by
      rw [hall] at hnodup
      exact fun hmem => List.disjoint_of_nodup_append hnodup hmem List.mem_cons_self
    have hbehind : WalkEvent.behind (.leave node) (all.filter shown) =
        later.remaining.filter shown := by
      rw [hall, List.filter_append, List.filter_cons_of_pos (hstep.leave node)]
      exact WalkEvent.behind_append (fun hmem => hnotMem (List.mem_of_mem_filter hmem)) _
    simp only [answer, Tour.answer, skipSubtree, hopened, true_and]
    refine ⟨hbehind.symm, rfl, ?_⟩
    rw [hall]
    exact (List.suffix_cons _ _).trans (List.suffix_append _ _)

theorem Follows.replies (h : Follows shown all walk tour) (hstep : Steps shown step)
    (hnodup : all.Nodup) (requests : List Request) :
    walk.replies step requests = tour.replies (all.filter shown) requests := by
  induction requests generalizing walk tour with
  | nil => rfl
  | cons request requests ih =>
      have hanswer : (walk.answer step request).1 = (tour.answer (all.filter shown) request).1 ∧
          Follows shown all (walk.answer step request).2
            (tour.answer (all.filter shown) request).2 := by
        cases request with
        | next => exact h.next hstep
        | skip => exact h.skip hstep hnodup
      rw [Walk.replies, Tour.replies, hanswer.1, ih hanswer.2]

theorem replies_ofNode (hstep : Steps shown step) (node : Node) (requests : List Request) :
    (ofNode node).replies step requests = Tour.run (node.events.filter shown) requests := by
  have hremaining : (ofNode node).remaining = node.events := by simp [remaining, ofNode]
  have hfollows : Follows shown node.events (ofNode node) ⟨node.events.filter shown, []⟩ :=
    ⟨congrArg _ hremaining, rfl, hremaining ▸ List.suffix_refl _⟩
  exact hfollows.replies hstep node.nodup_events requests

theorem mem_events_of_mem_replies (hstep : Steps shown step) {node : Node}
    {requests : List Request} {event : WalkEvent}
    (hreply : .event (some event) ∈ (ofNode node).replies step requests) :
    event ∈ node.events := by
  rw [replies_ofNode hstep] at hreply
  have hshown := Tour.mem_of_mem_replies (List.Subset.refl (node.events.filter shown)) hreply
  exact List.mem_of_mem_filter hshown

/-- The walk from a node is the recursive walk over it, whatever is skipped on the way, and the
walk over nodes is the same walk without its tokens. -/
theorem replies_eq_run (node : Node) (requests : List Request) :
    (∀ inner : Node, inner.events =
        .enter inner :: (inner.elements.flatMap Element.events ++ [.leave inner])) ∧
      WalkEvent.Nested node.events ∧ node.events.Nodup ∧
      (ofNode node).replies next requests = Tour.run node.events requests ∧
      (ofNode node).replies nextNode requests =
        Tour.run (node.events.filter fun event => !event.isToken) requests ∧
      (∀ walk : Walk, walk.nextNode =
        match walk.next with
        | (some (.token _), later) => later.nextNode
        | other => other) ∧
      (∀ count, (ofNode node).nth count = node.events[count]?) ∧
      ∀ walk : Walk, walk.skipSubtree = .error .nothingToSkip ↔ walk.opened = [] := by
  have hall := replies_ofNode next_steps node requests
  rw [List.filter_true] at hall
  refine ⟨Node.events_eq, node.nested_events, node.nodup_events, hall,
    replies_ofNode nextNode_steps node requests, nextNode_eq, nth_ofNode node, fun walk => ?_⟩
  obtain ⟨pending, _ | ⟨frame, outer⟩⟩ := walk <;> simp [skipSubtree, Walk.opened]

end Walk

end TdSyntax
