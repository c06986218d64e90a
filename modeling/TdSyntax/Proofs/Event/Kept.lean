import TdSyntax.Proofs.Event.Recorded

/-!
# What a log keeps

While a log is written, the events in the order of their replay build the trees that stand in
the open nodes.  A start that is not named yet stands between what is in its node and what is
before it; a node is opened around a finished one by putting a start just before the first
start of this one, wherever that stands in the log.
-/

namespace TdSyntax

structure Token.Ahead (text : Text) (offset : Nat) (tokens : List Token) : Prop where
  behind : ∃ front, text = front ++ joined tokens ∧ front.size = offset
  tiles : TileFrom offset tokens

theorem Token.Ahead.reads {text : Text} {offset : Nat} {token : Token} {rest : List Token}
    (h : Ahead text offset (token :: rest)) :
    token.lexed.Reads text offset token.leaf ∧ Ahead text token.lexed.fullStop rest := by
  obtain ⟨⟨front, htext, hfront⟩, hstart, hrest⟩ := h
  have hstop : token.lexed.fullStop = offset + token.fullText.size := by
    simp only [Builder.Lexed.fullStop, lexed, span, TriviaText.total_map_piece, stop, fullText,
      Text.size_append, hstart]
    omega
  have hsplit : text = (front ++ token.fullText) ++ joined rest := by
    simp [htext, joined]
  refine ⟨⟨?_, ?_, rfl, rfl, rfl⟩, ⟨_, hsplit, ?_⟩, hstop ▸ hrest⟩
  · simpa only [lexed, span, TriviaText.total_map_piece] using hstart
  · rw [hsplit, List.append_assoc, ← hfront, Text.slice?_eq_some_iff, hfront]
    exact ⟨hstop, joined rest, rfl⟩
  · rw [Text.size_append, hfront, hstop]

/-- A finished tree.  `handle` is the place of its start if another node can still be opened
around it. -/
structure Item where
  tree : Tree
  handle : Option Nat
  deriving DecidableEq, Repr

/-- An open node with the finished trees before it in the node around it.  `grown` tells
whether it was opened around a finished node. -/
structure Frame where
  marker : Nat
  grown : Bool
  before : List Item
  deriving DecidableEq, Repr

namespace Log

def callsOf (word : List Mark) : List Builder.Call := word.map fun mark => mark.event.call

@[simp] theorem callsOf_append (word more : List Mark) :
    callsOf (word ++ more) = callsOf word ++ callsOf more := List.map_append

@[simp] theorem callsOf_cons (mark : Mark) (word : List Mark) :
    callsOf (mark :: word) = mark.event.call :: callsOf word := rfl

/-- Between two offsets of a text, some events build the trees of some items.  A tree with a
handle begins with a start at this place, to which nothing is linked. -/
inductive Holds (text : Text) : (start : Nat) → List Item → (stop : Nat) → List Mark → Prop
  | nil {offset : Nat} : Holds text offset [] offset []
  | cons {start middle stop : Nat} {item : Item} {items : List Item} {own word : List Mark}
      (hbuilt : Builder.Built text start [item.tree] middle (callsOf own))
      (hnamed : ∀ mark ∈ own, mark.event.Named)
      (hhandle : ∀ place, item.handle = some place →
        ∃ kind rest, own = ⟨place, .start kind none⟩ :: rest)
      (hrest : Holds text middle items stop word) :
      Holds text start (item :: items) stop (own ++ word)

namespace Holds

variable {text : Text} {start middle stop : Nat} {items others front back : List Item}
  {word more : List Mark}

theorem append (h : Holds text start items middle word)
    (h' : Holds text middle others stop more) :
    Holds text start (items ++ others) stop (word ++ more) := by
  induction h with
  | nil => exact h'
  | cons hbuilt hnamed hhandle _ ih =>
      rw [List.cons_append, List.append_assoc]
      exact .cons hbuilt hnamed hhandle (ih h')

theorem built (h : Holds text start items stop word) :
    Builder.Built text start (items.map Item.tree) stop (callsOf word) := by
  induction h with
  | nil => exact .nil
  | cons hbuilt _ _ _ ih => simpa using hbuilt.append ih

theorem named (h : Holds text start items stop word) : ∀ mark ∈ word, mark.event.Named := by
  induction h with
  | nil => exact fun _ hmark => (List.not_mem_nil hmark).elim
  | cons _ hnamed _ _ ih =>
      intro mark hmark
      rcases List.mem_append.1 hmark with hown | hword
      · exact hnamed mark hown
      · exact ih mark hword

theorem split (h : Holds text start (front ++ back) stop word) :
    ∃ middle first second, word = first ++ second ∧ Holds text start front middle first ∧
      Holds text middle back stop second := by
  induction front generalizing start word with
  | nil => exact ⟨start, [], word, rfl, .nil, h⟩
  | cons item front ih =>
      cases h with
      | cons hbuilt hnamed hhandle hrest =>
          obtain ⟨middle, first, second, rfl, hfirst, hsecond⟩ := ih hrest
          exact ⟨middle, _, second, (List.append_assoc ..).symm,
            .cons hbuilt hnamed hhandle hfirst, hsecond⟩

theorem unhand {tree : Tree} {place : Nat}
    (h : Holds text start (⟨tree, some place⟩ :: items) stop word) :
    ∃ kind rest, word = ⟨place, .start kind none⟩ :: rest ∧
      ∀ link, Holds text start (⟨tree, none⟩ :: items) stop (⟨place, .start kind link⟩ :: rest) := by
  cases h with
  | cons hbuilt hnamed hhandle hrest =>
      obtain ⟨kind, rest, rfl⟩ := hhandle place rfl
      refine ⟨kind, _, List.cons_append .., fun link => ?_⟩
      rw [← List.cons_append]
      refine .cons hbuilt (fun mark hmark => ?_) (nofun) hrest
      rcases List.mem_cons.1 hmark with rfl | hmark
      · exact hnamed ⟨place, .start kind none⟩ List.mem_cons_self
      · exact hnamed mark (List.mem_cons_of_mem _ hmark)

theorem single {item : Item} (hbuilt : Builder.Built text start [item.tree] stop (callsOf word))
    (hnamed : ∀ mark ∈ word, mark.event.Named)
    (hhandle : ∀ place, item.handle = some place →
      ∃ kind rest, word = ⟨place, .start kind none⟩ :: rest) :
    Holds text start [item] stop word := by
  simpa using Holds.cons hbuilt hnamed hhandle .nil

theorem token {token : Token} (h : token.lexed.Reads text start token.leaf) (place : Nat) :
    Holds text start [⟨.leaf token.leaf, none⟩] token.lexed.fullStop
      [⟨place, .token token⟩] := by
  refine single (.token h .nil) (fun mark hmark => ?_) nofun
  obtain rfl := List.mem_singleton.1 hmark
  trivial

theorem node (h : Holds text start items stop word) {kind : Kind} (hkind : kind ≠ .tombstone)
    (marker last : Nat) :
    Holds text start [⟨.branch kind (items.map Item.tree), some marker⟩] stop
      (⟨marker, .start kind none⟩ :: (word ++ [⟨last, .finish⟩])) := by
  have hbuilt : Builder.Built text start [.branch kind (items.map Item.tree)] stop
      (callsOf (⟨marker, .start kind none⟩ :: (word ++ [⟨last, .finish⟩]))) := by
    rw [callsOf_cons, callsOf_append]
    exact h.built.node .nil
  refine single hbuilt (fun mark hmark => ?_) (fun place hplace => ?_)
  · rcases List.mem_cons.1 hmark with rfl | hmark
    · exact hkind
    rcases List.mem_append.1 hmark with hword | hlast
    · exact h.named mark hword
    · obtain rfl := List.mem_singleton.1 hlast
      trivial
  · cases hplace
    exact ⟨kind, _, rfl⟩

end Holds

/-- The events from the start of a text to an offset build the items in all open nodes, each of
which stands behind the blank start of its node. -/
inductive Stands (text : Text) : List Frame → List Item → Nat → List Mark → Prop
  | outside {items : List Item} {stop : Nat} {word : List Mark}
      (h : Holds text 0 items stop word) : Stands text [] items stop word
  | inside {frame : Frame} {opened : List Frame} {items : List Item} {middle stop : Nat}
      {outer inner : List Mark} (houter : Stands text opened frame.before middle outer)
      (hinner : Holds text middle items stop inner) :
      Stands text (frame :: opened) items stop (outer ++ ⟨frame.marker, .blank⟩ :: inner)

namespace Stands

variable {text : Text} {opened : List Frame} {items others front back : List Item}
  {offset stop : Nat} {word more : List Mark}

theorem append (h : Stands text opened items offset word)
    (h' : Holds text offset others stop more) :
    Stands text opened (items ++ others) stop (word ++ more) := by
  cases h with
  | outside h => exact .outside (h.append h')
  | inside houter hinner =>
      rw [List.append_assoc, List.cons_append]
      exact .inside houter (hinner.append h')

theorem split (h : Stands text opened (front ++ back) stop word) :
    ∃ middle first second, word = first ++ second ∧ Stands text opened front middle first ∧
      Holds text middle back stop second := by
  cases h with
  | outside h =>
      obtain ⟨middle, first, second, rfl, hfirst, hsecond⟩ := h.split
      exact ⟨middle, first, second, rfl, .outside hfirst, hsecond⟩
  | inside houter hinner =>
      obtain ⟨middle, first, second, rfl, hfirst, hsecond⟩ := hinner.split
      exact ⟨middle, _, second, by rw [List.append_assoc, List.cons_append],
        .inside houter hfirst, hsecond⟩

end Stands

/-- The log is that of some open nodes and the trees in them, with some tokens ahead. -/
def Keeps (text : Text) (log : Log) (ahead : List Token) (opened : List Frame)
    (items : List Item) : Prop :=
  ∃ offset word, Recorded log.events word ∧ Stands text opened items offset word ∧
    Token.Ahead text offset ahead

namespace Keeps

variable {text : Text} {log : Log} {ahead : List Token} {opened : List Frame}
  {items front back : List Item}

private theorem complete_eq {place : Nat} {kind : Kind} {link : Option Nat}
    (h : log.events[place]? = some (.start kind link)) (named : Kind) :
    log.complete place named = .ok ⟨(log.events.set! place (.start named link)).push .finish⟩ := by
  simp only [Log.complete, h]

private theorem precede_eq {place : Nat} {kind : Kind} {link : Option Nat}
    (h : log.events[place]? = some (.start kind link)) :
    log.precede place = .ok ⟨(log.events.push .blank).set! place
      (.start kind (some (log.events.size - place)))⟩ := by
  simp only [Log.precede, h, Log.start, size]

theorem empty {tokens : List Token} (htiles : Token.TileFrom 0 tokens)
    (htext : Token.joined tokens = text) : Keeps text .empty tokens [] [] :=
  ⟨0, [], .nil, .outside .nil, ⟨[], htext.symm, rfl⟩, htiles⟩

theorem start (h : Keeps text log ahead opened items) :
    Keeps text log.start ahead (⟨log.size, false, items⟩ :: opened) [] := by
  obtain ⟨offset, word, hrecorded, hstands, hahead⟩ := h
  have hchain : Group word log.events.size [⟨log.events.size, .blank⟩] := .chain .last
  have hinside : Stands text (⟨log.size, false, items⟩ :: opened) [] offset
      (word ++ [⟨log.size, .blank⟩]) := .inside hstands .nil
  exact ⟨offset, _, hrecorded.push hchain, hinside, hahead⟩

theorem advance {token : Token} (h : Keeps text log (token :: ahead) opened items) :
    Keeps text (log.advance token) ahead opened (items ++ [⟨.leaf token.leaf, none⟩]) := by
  obtain ⟨offset, word, hrecorded, hstands, hahead⟩ := h
  obtain ⟨hreads, hbehind⟩ := hahead.reads
  exact ⟨_, _, hrecorded.push (.token token),
    hstands.append (.token hreads log.events.size), hbehind⟩

theorem complete {frame : Frame} (h : Keeps text log ahead (frame :: opened) items) {kind : Kind}
    (hkind : kind ≠ .tombstone) :
    ∃ closed, log.complete frame.marker kind = .ok closed ∧ closed.size = log.size + 1 ∧
      Keeps text closed ahead opened
        (frame.before ++ [⟨.branch kind (items.map Item.tree), some frame.marker⟩]) := by
  obtain ⟨offset, word, hrecorded, hstands, hahead⟩ := h
  cases hstands with
  | inside houter hinner =>
      have hmark := hrecorded.shows ⟨frame.marker, .blank⟩
        (List.mem_append_right _ List.mem_cons_self)
      have hnamed := (hrecorded.name kind).push .finish
      rw [Array.size_set!, List.append_assoc, List.cons_append] at hnamed
      exact ⟨_, complete_eq hmark kind, by simp [size], _, _, hnamed,
        houter.append (hinner.node hkind frame.marker log.events.size), hahead⟩

theorem precede {tree : Tree} {place : Nat}
    (h : Keeps text log ahead opened (front ++ ⟨tree, some place⟩ :: back)) :
    ∃ preceded, log.precede place = .ok preceded ∧ preceded.size = log.size + 1 ∧
      Keeps text preceded ahead (⟨log.size, true, front⟩ :: opened) (⟨tree, none⟩ :: back) := by
  obtain ⟨offset, word, hrecorded, hstands, hahead⟩ := h
  obtain ⟨middle, first, second, rfl, hfront, hback⟩ := hstands.split
  obtain ⟨kind, rest, rfl, hlinked⟩ := hback.unhand
  have hmark := hrecorded.shows ⟨place, .start kind none⟩
    (List.mem_append_right _ List.mem_cons_self)
  have hstands' : Stands text (⟨log.size, true, front⟩ :: opened) (⟨tree, none⟩ :: back) offset
      (first ++ ⟨log.size, .blank⟩ ::
        ⟨place, .start kind (some (log.events.size - place))⟩ :: rest) :=
    .inside hfront (hlinked _)
  exact ⟨_, precede_eq hmark, by simp [size], offset, _, hrecorded.link, hstands', hahead⟩

theorem built {item : Item} (h : Keeps text log [] [] [item]) :
    ∃ calls, log.calls = .ok calls ∧
      Builder.Built text 0 [item.tree] text.size calls ∧
        Builder.Call.startNode .tombstone ∉ calls := by
  obtain ⟨offset, word, hrecorded, hstands, ⟨front, htext, rfl⟩, -⟩ := h
  obtain rfl : text = front := by simpa [Token.joined] using htext
  cases hstands with
  | outside hholds =>
      refine ⟨_, hrecorded.calls hholds.named, hholds.built, fun hmem => ?_⟩
      obtain ⟨mark, hmark, hcall⟩ := List.mem_map.1 hmem
      exact (hholds.named mark hmark).call_ne hcall

end Keeps

end Log

end TdSyntax
