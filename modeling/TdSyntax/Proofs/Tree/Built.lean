import TdSyntax.Proofs.Tree.Places
import TdSyntax.Proofs.Tree.Walked
import TdSyntax.Tree.Builder

/-!
# The calls of a builder

A builder accepts a sequence of calls if its starts and ends are well nested, its tokens tile
the text and a single node holds everything.  What lies on the stack of the builder at any
time are the trees of the calls so far, those of each open node on top of those around it.
The tree that is built is the one whose walk goes along the calls.
-/

namespace TdSyntax

theorem Text.slice?_eq_some_iff {front rest part : Text} {stop : Nat} :
    slice? front.size stop (front ++ rest) = some part ↔
      stop = front.size + part.size ∧ ∃ after, rest = part ++ after := by
  constructor
  · intro h
    simp only [slice?, splitAt?_size, Option.bind_eq_bind, Option.bind_some] at h
    split at h
    · cases h
    · obtain ⟨⟨taken, after⟩, hsplit, hpart⟩ := Option.bind_eq_some_iff.1 h
      obtain rfl : taken = part := Option.some.inj hpart
      obtain ⟨hjoined, hsize⟩ := append_of_splitAt? hsplit
      exact ⟨by omega, after, hjoined.symm⟩
  · rintro ⟨rfl, after, rfl⟩
    rw [← List.append_assoc]
    exact slice?_append front part after

namespace Builder

/-- A token as it is given to a builder: its own range and its trivia on both sides. -/
structure Lexed where
  leading : List TriviaPiece
  kind : Kind
  span : Span
  trailing : List TriviaPiece
  ordered : span.start ≤ span.stop

def Lexed.fullStop (lexed : Lexed) : Nat := lexed.span.stop + TriviaPiece.total lexed.trailing

inductive Call where
  | startNode (kind : Kind)
  | token (lexed : Lexed)
  | finishNode

def perform (builder : Builder) : Call → Except Fault Builder
  | .startNode kind => .ok (builder.startNode kind)
  | .token lexed =>
      builder.token lexed.leading lexed.kind lexed.span.start lexed.span.stop lexed.trailing
  | .finishNode => builder.finishNode

def run (calls : List Call) (builder : Builder) : Except Fault Builder :=
  calls.foldlM perform builder

theorem run_cons (call : Call) (calls : List Call) (builder : Builder) :
    run (call :: calls) builder = (builder.perform call).bind (run calls) := rfl

theorem run_append (calls more : List Call) (builder : Builder) :
    run (calls ++ more) builder = (run calls builder).bind (run more) := by
  simp only [run, List.foldlM_append]
  rfl

def build (text : Text) (calls : List Call) : Except Fault SourceTree := do
  let builder ← run calls (ofText text)
  builder.finish

/-! ## Accepted calls -/

namespace Call

def isStart : Call → Bool
  | .startNode _ => true
  | _ => false

def isFinish : Call → Bool
  | .finishNode => true
  | _ => false

def lexed? : Call → Option Lexed
  | .token lexed => some lexed
  | _ => none

end Call

/-- Inside of some open nodes, no node is finished that is not open. -/
def Nested (depth : Nat) (calls : List Call) : Prop :=
  ∀ front, front <+: calls → front.countP Call.isFinish ≤ depth + front.countP Call.isStart

/-- From one offset to another the tokens follow each other, their trivia included, and each
of them is a part of the text. -/
def Tiles (text : Text) : Nat → List Lexed → Nat → Prop
  | offset, [], stop => offset = stop
  | offset, first :: rest, stop =>
      first.span.start = offset + TriviaPiece.total first.leading ∧
        (∃ part, text.slice? offset first.fullStop = some part) ∧
          Tiles text first.fullStop rest stop

def outermost : (depth : Nat) → List Call → List (Option Kind)
  | _, [] => []
  | 0, .startNode kind :: rest => some kind :: outermost 1 rest
  | depth + 1, .startNode _ :: rest => outermost (depth + 2) rest
  | 0, .token _ :: rest => none :: outermost 0 rest
  | depth + 1, .token _ :: rest => outermost (depth + 1) rest
  | depth, .finishNode :: rest => outermost (depth - 1) rest

/-- The calls nest nodes around the tokens of a text, with a single node around them all. -/
structure Accepted (text : Text) (calls : List Call) : Prop where
  nested : Nested 0 calls
  closed : calls.countP Call.isFinish = calls.countP Call.isStart
  tiled : Tiles text 0 (calls.filterMap Call.lexed?) text.size
  single : ∃ kind, outermost 0 calls = [some kind]

namespace Call

def depthBehind (depth : Nat) : Call → Nat
  | .startNode _ => depth + 1
  | .token _ => depth
  | .finishNode => depth - 1

def offsetBehind (offset : Nat) : Call → Nat
  | .token lexed => lexed.fullStop
  | _ => offset

def Fits (text : Text) (depth offset : Nat) : Call → Prop
  | .startNode _ => True
  | .token lexed =>
      lexed.span.start = offset + TriviaPiece.total lexed.leading ∧
        ∃ part, text.slice? offset lexed.fullStop = some part
  | .finishNode => 0 < depth

end Call

def Fits (text : Text) (depth offset : Nat) (calls : List Call) : Prop :=
  Nested depth calls ∧ ∃ stop, Tiles text offset (calls.filterMap Call.lexed?) stop

theorem nested_nil (depth : Nat) : Nested depth [] := by
  rintro front hfront
  rw [List.prefix_nil.1 hfront]
  exact Nat.zero_le _

theorem nested_cons {depth : Nat} {call : Call} {calls : List Call} :
    Nested depth (call :: calls) ↔
      (call.isFinish = true → 0 < depth) ∧ Nested (call.depthBehind depth) calls := by
  constructor
  · intro h
    have hfirst := h [call] (List.prefix_iff_eq_append.2 rfl)
    refine ⟨fun hfinish => ?_, fun front hfront => ?_⟩
    · cases call with
      | finishNode =>
          have hopen : 1 ≤ depth := by simpa [Call.isFinish, Call.isStart] using hfirst
          exact hopen
      | startNode | token => cases hfinish
    · have hall := h (call :: front) (List.cons_prefix_cons.2 ⟨rfl, hfront⟩)
      cases call <;>
        simp [List.countP_cons, Call.isFinish, Call.isStart, Call.depthBehind] at hall hfirst ⊢ <;>
        omega
  · rintro ⟨hfirst, hrest⟩ front hfront
    rcases List.prefix_cons_iff.1 hfront with rfl | ⟨others, rfl, hothers⟩
    · exact Nat.zero_le _
    · have hall := hrest others hothers
      cases call <;>
        simp [List.countP_cons, Call.isFinish, Call.isStart, Call.depthBehind] at hall hfirst ⊢ <;>
        omega

theorem fits_nil (text : Text) (depth offset : Nat) : Fits text depth offset [] :=
  ⟨nested_nil depth, offset, rfl⟩

theorem fits_cons {text : Text} {depth offset : Nat} {call : Call} {calls : List Call} :
    Fits text depth offset (call :: calls) ↔
      call.Fits text depth offset ∧
        Fits text (call.depthBehind depth) (call.offsetBehind offset) calls := by
  cases call <;> simp [Fits, nested_cons, Call.Fits, Call.isFinish, List.filterMap_cons,
    Call.lexed?, Tiles, Call.offsetBehind, and_assoc, and_left_comm]

/-! ## What lies on the stack -/

structure Lexed.Reads (lexed : Lexed) (text : Text) (offset : Nat) (leaf : Leaf) : Prop where
  start : lexed.span.start = offset + TriviaPiece.total lexed.leading
  slice : text.slice? offset lexed.fullStop = some leaf.text
  leading : leaf.leading = lexed.leading
  kind : leaf.kind = lexed.kind
  trailing : leaf.trailing = lexed.trailing

def Within (builder : Builder) (text : Text) : Prop :=
  ∃ front, text = front ++ builder.rest ∧ front.size = builder.offset

theorem Within.token_eq_ok_iff {text : Text} {builder next : Builder} (h : builder.Within text)
    (lexed : Lexed) :
    builder.token lexed.leading lexed.kind lexed.span.start lexed.span.stop lexed.trailing =
        .ok next ↔
      ∃ leaf rest, lexed.Reads text builder.offset leaf ∧ builder.rest = leaf.text ++ rest ∧
        next = { builder with
          rest := rest, offset := lexed.fullStop,
          children := builder.children.push (.leaf leaf) } := by
  obtain ⟨front, htext, hfront⟩ := h
  have hordered := lexed.ordered
  have hfull : lexed.fullStop = lexed.span.stop + TriviaPiece.total lexed.trailing := rfl
  simp only [Builder.token, ← hfull]
  constructor
  · intro hok
    split at hok
    · cases hok
    split at hok
    · cases hok
    split at hok
    · cases hok
    split at hok
    · cases hok
    case h_2 part rest hsplit =>
      obtain ⟨hjoined, hsize⟩ := Text.append_of_splitAt? hsplit
      have hslice : text.slice? builder.offset lexed.fullStop = some part := by
        rw [htext, ← hfront, Text.slice?_eq_some_iff]
        exact ⟨by omega, rest, hjoined.symm⟩
      simp only [Leaf.ofParts] at hok
      split at hok
      · cases hok
        exact ⟨⟨lexed.leading, lexed.kind, part, lexed.trailing⟩, rest,
          ⟨by omega, hslice, rfl, rfl, rfl⟩, hjoined.symm, rfl⟩
      · cases hok
  · rintro ⟨leaf, rest, hreads, hrest, rfl⟩
    have hslice := hreads.slice
    rw [htext, ← hfront, Text.slice?_eq_some_iff, hfront] at hslice
    have hstart := hreads.start
    have hsplit : builder.rest.splitAt? (lexed.fullStop - builder.offset) =
        some (leaf.text, rest) := by
      rw [hrest, hslice.1, Nat.add_sub_cancel_left, Text.splitAt?_size]
    have hfits : TriviaPiece.total lexed.leading + TriviaPiece.total lexed.trailing ≤
        leaf.text.size := by
      omega
    have hleaf : leaf = ⟨lexed.leading, lexed.kind, leaf.text, lexed.trailing⟩ := by
      rw [← hreads.leading, ← hreads.kind, ← hreads.trailing]
    rw [if_neg (by omega), if_neg (by omega), if_neg (by omega), hsplit]
    simp only [Leaf.ofParts, if_pos hfits]
    rw [hleaf]
    rfl

theorem Within.token {text : Text} {builder next : Builder} (h : builder.Within text)
    {lexed : Lexed} (hnext : builder.perform (.token lexed) = .ok next) : next.Within text := by
  obtain ⟨leaf, rest, hreads, hrest, rfl⟩ := (h.token_eq_ok_iff lexed).1 hnext
  obtain ⟨front, htext, hfront⟩ := h
  have hslice := hreads.slice
  rw [htext, ← hfront, Text.slice?_eq_some_iff] at hslice
  refine ⟨front ++ leaf.text, ?_, ?_⟩
  · rw [htext, hrest, List.append_assoc]
  · rw [Text.size_append, hslice.1]

/-- From one offset of a text to another, some calls build some trees. -/
inductive Built (text : Text) : (start : Nat) → List Tree → (stop : Nat) → List Call → Prop
  | nil {offset : Nat} : Built text offset [] offset []
  | token {offset stop : Nat} {lexed : Lexed} {leaf : Leaf} {trees : List Tree}
      {calls : List Call} (hleaf : lexed.Reads text offset leaf)
      (hrest : Built text lexed.fullStop trees stop calls) :
      Built text offset (.leaf leaf :: trees) stop (.token lexed :: calls)
  | node {offset middle stop : Nat} {kind : Kind} {children trees : List Tree}
      {inner calls : List Call} (hinner : Built text offset children middle inner)
      (hrest : Built text middle trees stop calls) :
      Built text offset (.branch kind children :: trees) stop
        (.startNode kind :: (inner ++ .finishNode :: calls))

namespace Built

variable {text : Text} {offset middle stop : Nat} {trees others : List Tree}
  {calls more : List Call}

theorem append (h : Built text offset trees middle calls) (h' : Built text middle others stop more) :
    Built text offset (trees ++ others) stop (calls ++ more) := by
  induction h with
  | nil => exact h'
  | token hleaf _ ih => exact .token hleaf (ih h')
  | node hinner _ _ ih => simpa using node hinner (ih h')

theorem tiles (h : Built text offset trees stop calls) {tokens : List Lexed} {last : Nat} :
    Tiles text offset (calls.filterMap Call.lexed? ++ tokens) last ↔
      Tiles text stop tokens last := by
  induction h generalizing tokens with
  | nil => rfl
  | token hleaf _ ih =>
      simp [Call.lexed?, Tiles, hleaf.start, hleaf.slice, ih]
  | node _ _ ihInner ihRest =>
      simp [List.filterMap_cons, List.filterMap_append, Call.lexed?, ihInner, ihRest]

theorem countP_eq (h : Built text offset trees stop calls) :
    calls.countP Call.isFinish = calls.countP Call.isStart := by
  induction h with
  | nil => rfl
  | token _ _ ih => simpa [List.countP_cons, Call.isFinish, Call.isStart] using ih
  | node _ _ ihInner ihRest =>
      simp [List.countP_cons, List.countP_append, Call.isFinish, Call.isStart, ihInner, ihRest]
      omega

end Built

theorem Built.run {text : Text} {offset stop : Nat} {trees : List Tree} {calls : List Call}
    (h : Built text offset trees stop calls) {builder : Builder} (hwithin : builder.Within text)
    (hoffset : builder.offset = offset) :
    ∃ rest, run calls builder = .ok { builder with
        rest := rest, offset := stop, children := builder.children ++ trees.toArray } ∧
      ∃ front, text = front ++ rest ∧ front.size = stop := by
  induction h generalizing builder with
  | nil =>
      subst hoffset
      exact ⟨builder.rest, by simp [Builder.run, pure, Except.pure], hwithin⟩
  | @token offset stop lexed leaf trees calls hleaf _ ih =>
      subst hoffset
      have hslice := hleaf.slice
      have hcut := hwithin
      obtain ⟨front, htext, hfront⟩ := hcut
      rw [htext, ← hfront, Text.slice?_eq_some_iff] at hslice
      obtain ⟨-, after, hafter⟩ := hslice
      have hnext := (hwithin.token_eq_ok_iff lexed).2 ⟨leaf, after, hleaf, hafter, rfl⟩
      obtain ⟨rest, hrun, hrest⟩ := ih (hwithin.token hnext) rfl
      refine ⟨rest, ?_, hrest⟩
      rw [run_cons, perform, hnext, Except.bind, hrun]
      simp
  | @node offset middle stop kind children trees inner calls _ _ ihInner ihRest =>
      obtain ⟨inside, hinner, hinside⟩ := @ihInner (builder.startNode kind) hwithin hoffset
      obtain ⟨rest, hrun, hrest⟩ := @ihRest { builder with
        rest := inside, offset := middle,
        children := builder.children.push (.branch kind children) } hinside rfl
      refine ⟨rest, ?_, hrest⟩
      -- the trees inside lie on the stack from the place on where the node was started
      have hfinish : Builder.finishNode { builder.startNode kind with
          rest := inside, offset := middle,
          children := (builder.startNode kind).children ++ children.toArray } =
            .ok { builder with
              rest := inside, offset := middle,
              children := builder.children.push (.branch kind children) } := by
        simp [Builder.finishNode, Builder.startNode]
      rw [run_cons, perform, Except.bind, run_append, hinner, Except.bind, run_cons, perform,
        hfinish, Except.bind, hrun]
      simp

def nodeKind? : Tree → Option Kind
  | .leaf _ => none
  | .branch kind _ => some kind

theorem Built.outermost_succ {text : Text} {offset stop : Nat} {trees : List Tree}
    {calls : List Call} (h : Built text offset trees stop calls) (depth : Nat)
    (more : List Call) : outermost (depth + 1) (calls ++ more) = outermost (depth + 1) more := by
  induction h generalizing depth more with
  | nil => rfl
  | token _ _ ih => exact ih depth more
  | node _ _ ihInner ihRest =>
      simp only [List.cons_append, List.append_assoc, outermost, ihInner]
      exact ihRest depth more

theorem Built.outermost_eq {text : Text} {offset stop : Nat} {trees : List Tree}
    {calls : List Call} (h : Built text offset trees stop calls) :
    outermost 0 calls = trees.map nodeKind? := by
  induction h with
  | nil => rfl
  | token _ _ ih => simp [outermost, nodeKind?, ih]
  | node hinner _ _ ih => simp [outermost, nodeKind?, hinner.outermost_succ, ih]

/-- The open nodes and the finished trees behind some calls.  The trees in an open node lie
on top of those that lay there when it was started. -/
inductive Stacked (text : Text) : List OpenNode → List Tree → Nat → List Call → Prop
  | outside {trees : List Tree} {offset : Nat} {calls : List Call}
      (h : Built text 0 trees offset calls) : Stacked text [] trees offset calls
  | inside {outer : List OpenNode} {below own : List Tree} {middle offset : Nat}
      {before inner : List Call} {kind : Kind} (houter : Stacked text outer below middle before)
      (hinner : Built text middle own offset inner) :
      Stacked text (⟨kind, below.length⟩ :: outer) (below ++ own) offset
        (before ++ .startNode kind :: inner)

namespace Stacked

variable {text : Text} {opened : List OpenNode} {trees others : List Tree} {offset stop : Nat}
  {calls more : List Call}

theorem append (h : Stacked text opened trees offset calls)
    (h' : Built text offset others stop more) :
    Stacked text opened (trees ++ others) stop (calls ++ more) := by
  cases h with
  | outside h => exact .outside (h.append h')
  | inside houter hinner => simpa using houter.inside (hinner.append h')

theorem tiles (h : Stacked text opened trees offset calls) {tokens : List Lexed} {last : Nat} :
    Tiles text 0 (calls.filterMap Call.lexed? ++ tokens) last ↔
      Tiles text offset tokens last := by
  induction h generalizing tokens with
  | outside h => exact h.tiles
  | inside _ hinner ih =>
      simp [List.filterMap_append, List.filterMap_cons, Call.lexed?, ih, hinner.tiles]

theorem countP_eq (h : Stacked text opened trees offset calls) :
    opened.length + calls.countP Call.isFinish = calls.countP Call.isStart := by
  induction h with
  | outside h => simpa using h.countP_eq
  | inside _ hinner ih =>
      have hown := hinner.countP_eq
      simp [List.countP_cons, List.countP_append, Call.isFinish, Call.isStart]
      omega

end Stacked

structure Behind (text : Text) (calls : List Call) (builder : Builder) : Prop where
  whole : builder.text = text
  within : builder.Within text
  stack : Stacked text builder.opened builder.children.toList builder.offset calls

namespace Behind

variable {text : Text} {calls : List Call} {builder next : Builder}

theorem ofText (text : Text) : Behind text [] (ofText text) :=
  ⟨rfl, ⟨[], rfl, rfl⟩, .outside .nil⟩

theorem startNode (h : Behind text calls builder) (kind : Kind) :
    Behind text (calls ++ [.startNode kind]) (builder.startNode kind) := by
  have hinside : Stacked text (⟨kind, builder.children.toList.length⟩ :: builder.opened)
      (builder.children.toList ++ []) builder.offset (calls ++ [.startNode kind]) :=
    h.stack.inside .nil
  refine ⟨h.whole, h.within, ?_⟩
  simpa [Builder.startNode] using hinside

theorem finishNode (h : Behind text calls builder) (hopen : 0 < builder.opened.length) :
    ∃ next, builder.finishNode = .ok next ∧ Behind text (calls ++ [.finishNode]) next ∧
      next.opened.length = builder.opened.length - 1 ∧ next.offset = builder.offset := by
  obtain ⟨whole, rest, offset, opened, children⟩ := builder
  obtain ⟨hwhole, hrest, hstack⟩ := h
  simp only at hstack
  generalize hchildren : children.toList = trees at hstack
  cases hstack with
  | outside => cases hopen
  | @inside outer below own middle _ before inner kind houter hinner =>
    obtain rfl : children = (below ++ own).toArray := by simp [← hchildren]
    have hsize : ¬ below.length + own.length < below.length := by omega
    have hclosed : Built text middle [.branch kind own] offset
        (.startNode kind :: (inner ++ [.finishNode])) := hinner.node .nil
    refine ⟨⟨whole, rest, offset, outer, (below ++ [Tree.branch kind own]).toArray⟩, ?_,
      ⟨hwhole, hrest, ?_⟩, rfl, rfl⟩
    · simp [Builder.finishNode, hsize]
    · simpa using houter.append hclosed

theorem perform_isOk_iff (h : Behind text calls builder) (call : Call) :
    (∃ next, builder.perform call = .ok next) ↔
      call.Fits text builder.opened.length builder.offset := by
  cases call with
  | startNode kind => exact ⟨fun _ => trivial, fun _ => ⟨_, rfl⟩⟩
  | token lexed =>
      constructor
      · rintro ⟨next, hnext⟩
        obtain ⟨leaf, -, hreads, -⟩ := (h.within.token_eq_ok_iff lexed).1 hnext
        exact ⟨hreads.start, leaf.text, hreads.slice⟩
      · rintro ⟨hstart, part, hslice⟩
        obtain ⟨front, htext, hfront⟩ := h.within
        have hpart := hslice
        rw [htext, ← hfront, Text.slice?_eq_some_iff] at hpart
        obtain ⟨-, rest, hrest⟩ := hpart
        exact ⟨_, (h.within.token_eq_ok_iff lexed).2
          ⟨⟨lexed.leading, lexed.kind, part, lexed.trailing⟩, rest,
            ⟨hstart, hslice, rfl, rfl, rfl⟩, hrest, rfl⟩⟩
  | finishNode =>
      constructor
      · rintro ⟨next, hnext⟩
        cases hopened : builder.opened with
        | nil => simp [perform, Builder.finishNode, hopened] at hnext
        | cons => exact Nat.succ_pos _
      · intro hopen
        obtain ⟨next, hnext, -⟩ := h.finishNode hopen
        exact ⟨next, hnext⟩

theorem perform (h : Behind text calls builder) {call : Call}
    (hnext : builder.perform call = .ok next) :
    Behind text (calls ++ [call]) next ∧
      next.opened.length = call.depthBehind builder.opened.length ∧
      next.offset = call.offsetBehind builder.offset := by
  cases call with
  | startNode kind =>
      cases hnext
      exact ⟨h.startNode kind, rfl, rfl⟩
  | token lexed =>
      have hwithin := h.within.token hnext
      obtain ⟨leaf, rest, hreads, hrest, rfl⟩ := (h.within.token_eq_ok_iff lexed).1 hnext
      exact ⟨⟨h.whole, hwithin, by simpa using h.stack.append (.token hreads .nil)⟩, rfl, rfl⟩
  | finishNode =>
      have hopen : 0 < builder.opened.length := (h.perform_isOk_iff .finishNode).1 ⟨next, hnext⟩
      obtain ⟨_, hsame, hbehind⟩ := h.finishNode hopen
      obtain rfl := Except.ok.inj (hsame.symm.trans hnext)
      exact hbehind

theorem run_isOk_iff (h : Behind text calls builder) (more : List Call) :
    (∃ last, run more builder = .ok last) ↔
      Fits text builder.opened.length builder.offset more := by
  induction more generalizing calls builder with
  | nil => exact ⟨fun _ => fits_nil _ _ _, fun _ => ⟨builder, rfl⟩⟩
  | cons call more ih =>
      rw [fits_cons, ← h.perform_isOk_iff call, run_cons]
      constructor
      · rintro ⟨last, hlast⟩
        cases hnext : builder.perform call with
        | error fault => simp [hnext, Except.bind] at hlast
        | ok next =>
            obtain ⟨hbehind, hdepth, hoffset⟩ := h.perform hnext
            rw [← hdepth, ← hoffset, ← ih hbehind]
            rw [hnext] at hlast
            exact ⟨⟨next, rfl⟩, last, hlast⟩
      · rintro ⟨⟨next, hnext⟩, hmore⟩
        obtain ⟨hbehind, hdepth, hoffset⟩ := h.perform hnext
        rw [← hdepth, ← hoffset, ← ih hbehind] at hmore
        rw [hnext]
        exact hmore

theorem run (h : Behind text calls builder) {more : List Call} {last : Builder}
    (hlast : run more builder = .ok last) : Behind text (calls ++ more) last := by
  induction more generalizing calls builder with
  | nil =>
      cases hlast
      simpa using h
  | cons call more ih =>
      rw [run_cons] at hlast
      cases hnext : builder.perform call with
      | error fault => simp [hnext, Except.bind] at hlast
      | ok next =>
          rw [hnext] at hlast
          simpa using ih (h.perform hnext).1 hlast

end Behind

/-! ## The walk over the tree -/

/-- What a call is in the walk over the tree: the start and the end of a node are its enter
and its leave, and a token is there with its kind, its range, its trivia and its part of the
text. -/
inductive Call.Shows (text : Text) : Call → WalkEvent → Prop
  | startNode {kind : Kind} {node : Node} (hkind : node.kind = kind) :
      Shows text (.startNode kind) (.enter node)
  | token {lexed : Lexed} {placed : NodeToken} (hkind : placed.kind = lexed.kind)
      (hspan : placed.span = lexed.span) (hleading : placed.leaf.leading = lexed.leading)
      (htrailing : placed.leaf.trailing = lexed.trailing)
      (hslice : text.slice? placed.offset lexed.fullStop = some placed.fullText) :
      Shows text (.token lexed) (.token placed)
  | finishNode {node : Node} : Shows text .finishNode (.leave node)

theorem Lexed.Reads.fullStop_eq {lexed : Lexed} {text : Text} {offset : Nat} {leaf : Leaf}
    (h : lexed.Reads text offset leaf) : lexed.fullStop = offset + leaf.size := by
  obtain ⟨⟨front, after⟩, hsplit, -⟩ := Option.bind_eq_some_iff.1 h.slice
  obtain ⟨rfl, rfl⟩ := Text.append_of_splitAt? hsplit
  exact (Text.slice?_eq_some_iff.1 h.slice).1

theorem Built.shows {text : Text} {offset stop : Nat} {trees : List Tree} {calls : List Call}
    (h : Built text offset trees stop calls) (path : List Nat) (index : Nat) :
    stop = offset + Tree.sizeAll trees ∧
      List.Forall₂ (Call.Shows text) calls (Tree.eventsAll text path index offset trees) := by
  induction h generalizing path index with
  | nil => exact ⟨rfl, .nil⟩
  | @token offset stop lexed leaf trees calls hleaf _ ih =>
      have hfull := hleaf.fullStop_eq
      obtain ⟨hstop, hrest⟩ := ih path (index + 1)
      refine ⟨by rw [hstop, hfull, Tree.sizeAll, Tree.size, Nat.add_assoc], ?_⟩
      refine .cons (.token hleaf.kind ?_ hleaf.leading hleaf.trailing hleaf.slice) ?_
      · have hordered := lexed.ordered
        have hstart := hleaf.start
        have hspan : lexed.span = ⟨lexed.span.start, lexed.span.stop⟩ := rfl
        simp only [Lexed.fullStop] at hfull
        rw [hspan, NodeToken.span, Leaf.trimmedSpan, hleaf.leading, hleaf.trailing, ← hstart,
          Span.mk.injEq]
        exact ⟨rfl, by simp only; omega⟩
      · rw [hfull] at hrest
        exact hrest
  | @node offset middle stop kind children trees inner calls _ _ ihInner ihRest =>
      obtain ⟨hmiddle, hinner⟩ := ihInner (index :: path) 0
      obtain ⟨hstop, hrest⟩ := ihRest path (index + 1)
      refine ⟨by rw [hstop, hmiddle, Tree.sizeAll, Tree.size, Nat.add_assoc], ?_⟩
      rw [hmiddle] at hrest
      let node : Node := ⟨index :: path, kind, children, offset, text⟩
      have hstart : Call.Shows text (.startNode kind) (.enter node) := .startNode rfl
      have hfinish : Call.Shows text .finishNode (.leave node) := .finishNode
      have hback := List.rel_append hinner (.cons hfinish hrest)
      simpa [Tree.eventsAll, Tree.events, Tree.size] using List.Forall₂.cons hstart hback

theorem Built.shows_root {text : Text} {kind : Kind} {children : List Tree} {calls : List Call}
    (h : Built text 0 [.branch kind children] text.size calls) :
    List.Forall₂ (Call.Shows text) calls (SourceTree.root ⟨kind, children, text⟩).events := by
  cases h with
  | node hinner hrest =>
      cases hrest
      obtain ⟨-, hshows⟩ := hinner.shows [] 0
      exact .cons (.startNode rfl) (List.rel_append hshows (.cons .finishNode .nil))

theorem Behind.finish_eq_ok_iff {text : Text} {calls : List Call} {builder : Builder}
    (h : Behind text calls builder) {tree : SourceTree} :
    builder.finish = .ok tree ↔ builder.opened = [] ∧ builder.offset = text.size ∧
      builder.children.toList = [.branch tree.kind tree.children] ∧ tree.text = text := by
  obtain ⟨kind, children, whole⟩ := tree
  rw [← h.whole]
  simp only [finish]
  constructor
  · intro hok
    split at hok
    · cases hok
    case isFalse hopened =>
      split at hok
      · cases hok
      case isFalse hoffset =>
        split at hok
        case h_1 heq =>
          cases hok
          exact ⟨by simpa using hopened, by simpa using hoffset, heq, rfl⟩
        · cases hok
        · cases hok
  · rintro ⟨hopened, hoffset, htrees, rfl⟩
    simp [hopened, hoffset, htrees]

theorem build_eq_ok_iff {text : Text} {calls : List Call} {tree : SourceTree} :
    build text calls = .ok tree ↔
      ∃ last, run calls (ofText text) = .ok last ∧ last.finish = .ok tree := by
  rw [build]
  cases run calls (ofText text) <;> simp [bind, Except.bind]

theorem built_of_build {text : Text} {calls : List Call} {tree : SourceTree}
    (h : build text calls = .ok tree) :
    Built text 0 [.branch tree.kind tree.children] text.size calls ∧ tree.text = text := by
  obtain ⟨last, hlast, hfinish⟩ := build_eq_ok_iff.1 h
  have hbehind := (Behind.ofText text).run hlast
  obtain ⟨hopened, hoffset, htrees, htext⟩ := hbehind.finish_eq_ok_iff.1 hfinish
  have hstack := hbehind.stack
  rw [hopened, hoffset, htrees] at hstack
  cases hstack with
  | outside hbuilt => exact ⟨hbuilt, htext⟩

theorem Built.build {text : Text} {calls : List Call} {kind : Kind} {children : List Tree}
    (h : Built text 0 [.branch kind children] text.size calls) :
    Builder.build text calls = .ok ⟨kind, children, text⟩ := by
  have hwithin : (Builder.ofText text).Within text := ⟨[], rfl, rfl⟩
  obtain ⟨rest, hrun, -⟩ := h.run hwithin rfl
  refine build_eq_ok_iff.2 ⟨_, hrun, ?_⟩
  simp [Builder.finish, Builder.ofText]

theorem accepted_of_build {text : Text} {calls : List Call} {tree : SourceTree}
    (h : build text calls = .ok tree) : Accepted text calls := by
  obtain ⟨hbuilt, -⟩ := built_of_build h
  obtain ⟨last, hlast, -⟩ := build_eq_ok_iff.1 h
  have hfits := ((Behind.ofText text).run_isOk_iff calls).1 ⟨last, hlast⟩
  refine ⟨hfits.1, hbuilt.countP_eq, ?_, tree.kind, hbuilt.outermost_eq⟩
  have htiles : Tiles text 0 (calls.filterMap Call.lexed? ++ []) text.size :=
    hbuilt.tiles.2 rfl
  rwa [List.append_nil] at htiles

theorem Accepted.build {text : Text} {calls : List Call} (h : Accepted text calls) :
    ∃ tree, Builder.build text calls = .ok tree := by
  obtain ⟨last, hlast⟩ :=
    ((Behind.ofText text).run_isOk_iff calls).2 ⟨h.nested, text.size, h.tiled⟩
  have hbehind := (Behind.ofText text).run hlast
  have hopened : last.opened = [] := by
    have hcount := hbehind.stack.countP_eq
    have hclosed := h.closed
    rw [List.nil_append] at hcount
    exact List.length_eq_zero_iff.1 (by omega)
  have hoffset : last.offset = text.size := by
    have htiled : Tiles text 0 (calls.filterMap Call.lexed? ++ []) text.size := by
      simpa using h.tiled
    exact hbehind.stack.tiles.1 htiled
  have hstack := hbehind.stack
  generalize htrees : last.children.toList = trees at hstack
  rw [hopened] at hstack
  cases hstack with
  | outside hbuilt =>
      obtain ⟨kind, hsingle⟩ := h.single
      have hroot := hbuilt.outermost_eq
      rw [List.nil_append, hsingle] at hroot
      obtain ⟨tree, rest, rfl, hkind, hrest⟩ := List.map_eq_cons_iff.1 hroot.symm
      obtain rfl := List.map_eq_nil_iff.1 hrest
      cases tree with
      | leaf content => cases hkind
      | branch kind children =>
          exact ⟨⟨kind, children, text⟩, build_eq_ok_iff.2 ⟨last, hlast,
            hbehind.finish_eq_ok_iff.2 ⟨hopened, hoffset, htrees, rfl⟩⟩⟩

/-- The calls build a tree if and only if they are accepted, and the walk over the tree, step
by step, goes along the calls. -/
theorem build_iff (text : Text) (calls : List Call) :
    ((∃ tree, build text calls = .ok tree) ↔ Accepted text calls) ∧
      ∀ tree, build text calls = .ok tree → tree.text = text ∧
        (∀ count, (Walk.ofNode tree.root).nth count = tree.root.events[count]?) ∧
          List.Forall₂ (Call.Shows text) calls tree.root.events := by
  refine ⟨⟨fun ⟨tree, h⟩ => accepted_of_build h, Accepted.build⟩, fun tree h => ?_⟩
  obtain ⟨kind, children, whole⟩ := tree
  obtain ⟨hbuilt, rfl⟩ := built_of_build h
  exact ⟨rfl, Walk.nth_ofNode _, hbuilt.shows_root⟩

example : build "a b".toList
    [.startNode .sourceFile, .token ⟨[], .identifier, ⟨2, 3⟩, [], by decide⟩, .finishNode] =
      .error .tokenOutOfOrder := by decide

end Builder

end TdSyntax
