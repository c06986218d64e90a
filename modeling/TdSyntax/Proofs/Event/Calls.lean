import TdSyntax.Event.Replay
import TdSyntax.Proofs.Token.Tiling
import TdSyntax.Proofs.Tree.Built

/-!
# The calls of a log

A log is replayed by calls of a builder, and which ones these are does not depend on the
builder.  So a log is understood in two steps: the calls that stand in it, and what a builder
makes of some calls.
-/

namespace TdSyntax

def Token.lexed (token : Token) : Builder.Lexed where
  leading := token.leading.map TriviaText.piece
  kind := token.kind
  span := token.span
  trailing := token.trailing.map TriviaText.piece
  ordered := Nat.le_add_right _ _

namespace Event

/-- The call that an event stands for.  The start of a node is one even if it has no kind. -/
def call : Event → Builder.Call
  | .start kind _ => .startNode kind
  | .token content => .token content.lexed
  | .finish => .finishNode

def Named : Event → Prop
  | .start kind _ => kind ≠ .tombstone
  | _ => True

theorem Named.call_ne {event : Event} (h : event.Named) : event.call ≠ .startNode .tombstone := by
  intro heq
  cases event with
  | start kind link => exact h (Builder.Call.startNode.inj heq)
  | token content => cases heq
  | finish => cases heq

end Event

namespace Log

def callsAt (events : Array Event) (place : Nat) :
    Except Fault (List Builder.Call × Array Event) :=
  match events[place]? with
  | none => .ok ([], events)
  | some event =>
      let blanked := events.set! place .blank
      match event with
      | .start kind link =>
          if kind = .tombstone then .ok ([], blanked)
          else do
            let (kinds, chained) ← chain blanked [kind] place link blanked.size
            pure (kinds.map .startNode, chained)
      | event => .ok ([event.call], blanked)

def callsFrom (events : Array Event) : List Nat → Except Fault (List Builder.Call)
  | [] => .ok []
  | place :: places => do
      let (calls, left) ← callsAt events place
      let more ← callsFrom left places
      pure (calls ++ more)

/-- All calls of a log in the order in which a builder gets them. -/
def calls (log : Log) : Except Fault (List Builder.Call) :=
  callsFrom log.events (List.range log.size)

private theorem run_startNodes (kinds : List Kind) (builder : Builder) :
    Builder.run (kinds.map .startNode) builder = .ok (kinds.foldl Builder.startNode builder) := by
  induction kinds generalizing builder with
  | nil => rfl
  | cons kind kinds ih =>
      rw [List.map_cons, Builder.run_cons]
      exact ih (builder.startNode kind)

private theorem run_singleton (call : Builder.Call) (builder : Builder) :
    Builder.run [call] builder = builder.perform call := by
  rw [Builder.run_cons]
  cases builder.perform call <;> rfl

theorem replayAt_eq {events left : Array Event} {place : Nat} {calls : List Builder.Call}
    (h : callsAt events place = .ok (calls, left)) (builder : Builder) :
    replayAt (events, builder) place =
      (Builder.run calls builder).map fun builder => (left, builder) := by
  simp only [callsAt] at h
  simp only [replayAt]
  cases hevent : events[place]? with
  | none =>
      rw [hevent] at h
      cases h
      rfl
  | some event =>
      rw [hevent] at h
      cases event with
      | finish =>
          cases h
          rw [run_singleton]
          simp only [Event.call, Builder.perform]
          cases builder.finishNode <;> rfl
      | token token =>
          cases h
          rw [run_singleton]
          cases builder.perform (.token token.lexed) <;> rfl
      | start kind link =>
          simp only at h ⊢
          split at h
          case isTrue htombstone =>
            cases h
            rw [if_pos htombstone]
            rfl
          case isFalse htombstone =>
            rw [if_neg htombstone]
            cases hchain : chain (events.set! place .blank) [kind] place link
                (events.set! place .blank).size with
            | error fault =>
                rw [hchain] at h
                cases h
            | ok result =>
                obtain ⟨kinds, chained⟩ := result
                rw [hchain] at h
                cases h
                rw [run_startNodes]
                rfl

/-- A log is replayed by what a builder makes of its calls. -/
theorem replay_of_calls {log : Log} {calls : List Builder.Call} (h : log.calls = .ok calls)
    (text : Text) : log.replay text = Builder.build text calls := by
  -- by induction on the places, since a fault of the builder stops all calls that are left
  have hrun : ∀ (places : List Nat) (events : Array Event) (calls : List Builder.Call)
      (builder : Builder), callsFrom events places = .ok calls →
        (places.foldlM replayAt (events, builder)).map Prod.snd = Builder.run calls builder := by
    intro places
    induction places with
    | nil =>
        intro events calls builder hcalls
        cases hcalls
        rfl
    | cons place places ih =>
        intro events calls builder hcalls
        rw [callsFrom] at hcalls
        cases hat : callsAt events place with
        | error fault => simp [hat, bind, Except.bind] at hcalls
        | ok result =>
            obtain ⟨first, left⟩ := result
            cases hmore : callsFrom left places with
            | error fault => simp [hat, hmore, bind, Except.bind] at hcalls
            | ok more =>
                obtain rfl : first ++ more = calls := by
                  simpa [hat, hmore, bind, Except.bind, pure, Except.pure] using hcalls
                rw [List.foldlM_cons, replayAt_eq hat, Builder.run_append]
                cases Builder.run first builder with
                | error fault => rfl
                | ok next => exact ih left more next hmore
  have hall := hrun _ _ _ (Builder.ofText text) h
  rw [replay, Builder.build, ← hall]
  cases (List.range log.size).foldlM replayAt (log.events, Builder.ofText text) <;> rfl

end Log

end TdSyntax
