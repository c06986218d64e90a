import TdSyntax.Event.Log
import TdSyntax.Tree.Builder

/-!
# Replaying a log

The events of a log drive a builder.  Where a node carries a link, the nodes
along the chain of links are started first, the outermost before the others,
and their own events are blanked so that they are not started again.
-/

namespace TdSyntax.Log

/-- Follows the links from the event at `place`, which has the kinds of the
nodes found so far behind it, the outermost first.  Links lead forward, so
`limit` events are enough. -/
def chain (events : Array Event) (kinds : List Kind) (place : Nat) :
    Option Nat → Nat → Except Fault (List Kind × Array Event)
  | none, _ => .ok (kinds, events)
  | some _, 0 => .error .danglingLink
  | some distance, limit + 1 =>
      let next := place + distance
      match events[next]? with
      | some (.start kind link) =>
          let kinds := if kind = .tombstone then kinds else kind :: kinds
          chain (events.set! next .blank) kinds next link limit
      | _ => .error .danglingLink

def replayAt (state : Array Event × Builder) (place : Nat) :
    Except Fault (Array Event × Builder) :=
  let (events, builder) := state
  match events[place]? with
  | none => .ok (events, builder)
  | some event =>
      let events := events.set! place .blank
      match event with
      | .finish => do
          let builder ← builder.finishNode
          pure (events, builder)
      | .token token => do
          let builder ← builder.token (token.leading.map TriviaText.piece) token.kind
            token.start token.stop (token.trailing.map TriviaText.piece)
          pure (events, builder)
      | .start kind link =>
          if kind = .tombstone then .ok (events, builder)
          else do
            let (kinds, events) ← chain events [kind] place link events.size
            pure (events, kinds.foldl Builder.startNode builder)

def replay (log : Log) (text : Text) : Except Fault SourceTree := do
  let (_, builder) ← (List.range log.size).foldlM replayAt (log.events, Builder.ofText text)
  builder.finish

end TdSyntax.Log
