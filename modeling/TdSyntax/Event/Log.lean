import TdSyntax.Draft

/-!
# Event logs

A flat record of how a tree is built.  A node is opened before its kind is
known, so an event of the log is named later, when the node is completed.  A
node that grows around a completed one is opened behind it; the event of the
inner node then carries a link forward to the event of the outer one, and a
reader of the log opens the outer node first.
-/

namespace TdSyntax

inductive Event where
  | start (kind : Kind) (link : Option Nat)
  | token (content : Token)
  | finish
  deriving DecidableEq, Repr

namespace Event

/-- A node that has no kind yet, or that was given up. -/
def blank : Event := .start .tombstone none

end Event

structure Log where
  events : Array Event
  deriving DecidableEq, Repr

namespace Log

def empty : Log := ⟨#[]⟩

def size (log : Log) : Nat := log.events.size

def start (log : Log) : Log := ⟨log.events.push .blank⟩

def advance (log : Log) (token : Token) : Log := ⟨log.events.push (.token token)⟩

def complete (log : Log) (place : Nat) (kind : Kind) : Except Fault Log :=
  match log.events[place]? with
  | some (.start _ link) => .ok ⟨(log.events.set! place (.start kind link)).push .finish⟩
  | _ => .error .danglingLink

/-- Gives up the node at a place.  What was put into it stays in the node
around it. -/
def abandon (log : Log) (place : Nat) : Log :=
  if place + 1 = log.size then ⟨log.events.pop⟩ else log

/-- Opens a node around the completed node at a place. -/
def precede (log : Log) (place : Nat) : Except Fault Log :=
  match log.events[place]? with
  | some (.start kind _) =>
      .ok ⟨log.start.events.set! place (.start kind (some (log.size - place)))⟩
  | _ => .error .danglingLink

end Log

namespace Draft

mutual

def write (log : Log) : Draft → Except Fault (Log × Nat)
  | .token content => .ok (log.advance content, log.size)
  | .node kind children => do
      let filled ← writeAll log.start children
      let closed ← filled.complete log.size kind
      pure (closed, log.size)
  | .grown kind first rest => do
      let (inner, place) ← write log first
      let opened ← inner.precede place
      let filled ← writeAll opened rest
      let closed ← filled.complete inner.size kind
      pure (closed, inner.size)

def writeAll (log : Log) : List Draft → Except Fault Log
  | [] => .ok log
  | first :: rest => do
      let (log, _) ← write log first
      writeAll log rest

end

end Draft

end TdSyntax
