import TdSyntax.Proofs.Event.Kept

/-!
# Writing a tree

A file is read by operations on a log: nodes are opened, completed, given up and preceded, and
tokens are read.  The same operations have a direct meaning, in which a node that is completed
takes all that stands in it, and no event is ever moved.  Where the direct meaning is defined,
the log is replayed to the tree that it has.
-/

namespace TdSyntax

/-- Open nodes and completed ones are known by the places of their starts. -/
inductive Operation where
  | start
  | advance
  | complete (marker : Nat) (kind : Kind)
  | abandon (marker : Nat)
  | precede (node : Nat)
  deriving DecidableEq, Repr

/-! ## Operations on a log -/

theorem Log.abandon_start (log : Log) : log.start.abandon log.size = log := by
  simp [abandon, start, size]

structure Recorder where
  log : Log
  ahead : List Token
  deriving DecidableEq, Repr

namespace Recorder

def ofText (text : Text) : Recorder := ⟨.empty, tokenize text⟩

def read (recorder : Recorder) : Recorder :=
  match recorder.ahead with
  | [] => recorder
  | token :: ahead => ⟨recorder.log.advance token, ahead⟩

def perform (recorder : Recorder) : Operation → Except Fault Recorder
  | .start => .ok { recorder with log := recorder.log.start }
  | .advance =>
      match recorder.ahead with
      | [] => .ok recorder
      | token :: _ => if token.kind = .eof then .ok recorder else .ok recorder.read
  | .complete marker kind => do
      let log ← recorder.log.complete marker kind
      pure { recorder with log := log }
  | .abandon marker => .ok { recorder with log := recorder.log.abandon marker }
  | .precede node => do
      let log ← recorder.log.precede node
      pure { recorder with log := log }

def write (text : Text) (operations : List Operation) (root : Nat) (kind : Kind) :
    Except Fault Log := do
  let recorder ← operations.foldlM perform (ofText text)
  let closed ← recorder.read.perform (.complete root kind)
  pure closed.log

end Recorder

/-! ## The direct meaning -/

def Item.around? (place : Nat) : List Item → Option (List Item × Tree × List Item)
  | [] => none
  | item :: items =>
      if item.handle = some place then some ([], item.tree, items)
      else (around? place items).map fun (front, tree, back) => (item :: front, tree, back)

theorem Item.eq_of_around? {place : Nat} {items front back : List Item} {tree : Tree}
    (h : around? place items = some (front, tree, back)) :
    items = front ++ ⟨tree, some place⟩ :: back := by
  induction items generalizing front with
  | nil => cases h
  | cons item items ih =>
      rw [around?] at h
      split at h
      case isTrue hhandle =>
        cases h
        rw [← hhandle]
        rfl
      case isFalse =>
        obtain ⟨⟨found, _, _⟩, hfound, heq⟩ := Option.map_eq_some_iff.1 h
        cases heq
        rw [ih hfound, List.cons_append]

/-- The open nodes, the innermost first, with what stands in this one.  The place of the next
event is counted, since the nodes are known by places. -/
structure Scaffold where
  next : Nat
  ahead : List Token
  opened : List Frame
  items : List Item
  deriving DecidableEq, Repr

namespace Scaffold

def ofText (text : Text) : Scaffold := ⟨0, tokenize text, [], []⟩

def read (scaffold : Scaffold) : Scaffold :=
  match scaffold.ahead with
  | [] => scaffold
  | token :: ahead =>
      { scaffold with
        next := scaffold.next + 1
        ahead := ahead
        items := scaffold.items ++ [⟨.leaf token.leaf, none⟩] }

/-- Only the innermost open node can be completed, with a kind, or given up, as long as nothing
stands in it and unless it was opened around a finished one.  A node around one of the items takes
this one and all items behind it, and no second node can be opened around the same item. -/
def step? (scaffold : Scaffold) : Operation → Option Scaffold
  | .start =>
      some { scaffold with
        next := scaffold.next + 1
        opened := ⟨scaffold.next, false, scaffold.items⟩ :: scaffold.opened
        items := [] }
  | .advance =>
      match scaffold.ahead with
      | [] => some scaffold
      | token :: _ => if token.kind = .eof then some scaffold else some scaffold.read
  | .complete marker kind =>
      match scaffold.opened with
      | [] => none
      | frame :: opened =>
          if frame.marker = marker ∧ kind ≠ .tombstone then
            some { scaffold with
              next := scaffold.next + 1
              opened := opened
              items := frame.before ++
                [⟨.branch kind (scaffold.items.map Item.tree), some marker⟩] }
          else none
  | .abandon marker =>
      match scaffold.opened, scaffold.items with
      | ⟨innermost, false, before⟩ :: opened, [] =>
          if innermost = marker then
            some { scaffold with next := marker, opened := opened, items := before }
          else none
      | _, _ => none
  | .precede node =>
      match Item.around? node scaffold.items with
      | none => none
      | some (front, tree, back) =>
          some { scaffold with
            next := scaffold.next + 1
            opened := ⟨scaffold.next, true, front⟩ :: scaffold.opened
            items := ⟨tree, none⟩ :: back }

/-- As long as nothing stands in an open node, the log is that of its start, and before the
start it kept what stands around the node. -/
def Undoable (text : Text) (ahead : List Token) : List Frame → List Item → Log → Prop
  | ⟨marker, false, before⟩ :: opened, [], log =>
      ∃ earlier : Log, log = earlier.start ∧ marker = earlier.size ∧
        earlier.Keeps text ahead opened before ∧ Undoable text ahead opened before earlier
  | _, _, _ => True

structure Tracks (text : Text) (recorder : Recorder) (scaffold : Scaffold) : Prop where
  next : scaffold.next = recorder.log.size
  ahead : scaffold.ahead = recorder.ahead
  keeps : recorder.log.Keeps text scaffold.ahead scaffold.opened scaffold.items
  undoable : Undoable text scaffold.ahead scaffold.opened scaffold.items recorder.log

theorem undoable_of_ne_nil (text : Text) (ahead : List Token) (opened : List Frame)
    {items : List Item} (h : items ≠ []) (log : Log) : Undoable text ahead opened items log := by
  cases items with
  | nil => exact absurd rfl h
  | cons => simp [Undoable]

namespace Tracks

variable {text : Text} {recorder : Recorder} {scaffold next : Scaffold}

theorem ofText (text : Text) : Tracks text (.ofText text) (.ofText text) := by
  obtain ⟨htiles, htext⟩ := tokenize_tiles text
  exact ⟨rfl, rfl, .empty htiles htext, by simp [Undoable, Scaffold.ofText]⟩

theorem read (h : Tracks text recorder scaffold) : Tracks text recorder.read scaffold.read := by
  obtain ⟨log, ahead⟩ := recorder
  obtain ⟨next, ahead, opened, items⟩ := scaffold
  obtain ⟨hplace, hahead, hkeeps, hundoable⟩ := h
  simp only at hplace hahead hkeeps hundoable
  subst hplace hahead
  cases ahead with
  | nil => exact ⟨rfl, rfl, hkeeps, hundoable⟩
  | cons token ahead =>
      refine ⟨?_, rfl, hkeeps.advance, undoable_of_ne_nil _ _ _ (by simp [Scaffold.read]) _⟩
      simp [Scaffold.read, Recorder.read, Log.size, Log.advance]

theorem step {operation : Operation} (h : Tracks text recorder scaffold)
    (hstep : scaffold.step? operation = some next) :
    ∃ after, recorder.perform operation = .ok after ∧ Tracks text after next := by
  obtain ⟨log, ahead⟩ := recorder
  obtain ⟨place, ahead, opened, items⟩ := scaffold
  have hread := h.read
  obtain ⟨hplace, hahead, hkeeps, hundoable⟩ := h
  simp only at hplace hahead hkeeps hundoable
  subst hplace hahead
  cases operation with
  | start =>
      cases hstep
      exact ⟨_, rfl, by simp [Log.size, Log.start], rfl, hkeeps.start, log, rfl, rfl, hkeeps,
        hundoable⟩
  | advance =>
      cases ahead with
      | nil =>
          cases hstep
          exact ⟨_, rfl, rfl, rfl, hkeeps, hundoable⟩
      | cons token ahead =>
          simp only [step?] at hstep
          split at hstep
          case isTrue heof =>
            cases hstep
            exact ⟨_, if_pos heof, rfl, rfl, hkeeps, hundoable⟩
          case isFalse heof =>
            cases hstep
            exact ⟨_, if_neg heof, hread⟩
  | complete marker kind =>
      cases opened with
      | nil => cases hstep
      | cons frame opened =>
          simp only [step?, Option.ite_none_right_eq_some] at hstep
          obtain ⟨⟨rfl, hkind⟩, hnext⟩ := hstep
          cases hnext
          obtain ⟨closed, hclosed, hsize, hkept⟩ := hkeeps.complete hkind
          refine ⟨⟨closed, ahead⟩, ?_, hsize.symm, rfl, hkept,
            undoable_of_ne_nil _ _ _ (by simp) _⟩
          simp only [Recorder.perform, hclosed]
          rfl
  | abandon marker =>
      simp only [step?] at hstep
      split at hstep
      case h_2 => cases hstep
      case h_1 innermost before opened =>
        rw [Option.ite_none_right_eq_some] at hstep
        obtain ⟨rfl, hnext⟩ := hstep
        cases hnext
        obtain ⟨earlier, rfl, rfl, hkept, hearlier⟩ := hundoable
        have habandon := earlier.abandon_start
        exact ⟨_, rfl, by rw [habandon], rfl, by rwa [habandon], by rwa [habandon]⟩
  | precede node =>
      simp only [step?] at hstep
      split at hstep
      case h_1 => cases hstep
      case h_2 front tree back haround =>
        cases hstep
        obtain rfl := Item.eq_of_around? haround
        obtain ⟨preceded, hpreceded, hsize, hkept⟩ := hkeeps.precede
        refine ⟨⟨preceded, ahead⟩, ?_, hsize.symm, rfl, hkept,
          undoable_of_ne_nil _ _ _ (by simp) _⟩
        simp only [Recorder.perform, hpreceded]
        rfl

theorem run {operations : List Operation} (h : Tracks text recorder scaffold)
    (hrun : operations.foldlM step? scaffold = some next) :
    ∃ after, operations.foldlM Recorder.perform recorder = .ok after ∧ Tracks text after next := by
  induction operations generalizing recorder scaffold with
  | nil =>
      cases hrun
      exact ⟨recorder, rfl, h⟩
  | cons operation operations ih =>
      rw [List.foldlM_cons] at hrun
      obtain ⟨middle, hstep, hrest⟩ := Option.bind_eq_some_iff.1 hrun
      obtain ⟨between, hperform, htracks⟩ := h.step hstep
      obtain ⟨after, hafter, hlast⟩ := ih htracks hrest
      refine ⟨after, ?_, hlast⟩
      rw [List.foldlM_cons, hperform]
      exact hafter

end Tracks

end Scaffold

end TdSyntax
