import Mathlib.Data.List.Lattice
import TdSyntax.Proofs.Production.Table
import TdSyntax.Proofs.Reading.Progress
import TdSyntax.Proofs.Token.Quotes

/-!
# Outcomes of readings without errors

A static analysis of grammars.  It follows what the production of the node around
still asks for, which tokens may be the current one, and whether that stands in a string
literal.  A complaint cannot be among the reports of a reading without errors, so the
analysis stops there.  A grammar passes if every node that it makes has children that
fit the production of its kind.
-/

namespace TdSyntax

/-- What is known at a point of a grammar.  `residual` is what the node around still
asks for, and `moved` tells whether something has been taken since the start. -/
structure Point where
  residual : Production
  kinds : Kind.Set
  quoted : Bool
  moved : Bool
  deriving DecidableEq, Repr

abbrev Outcome := Bool × Point

/-- How a grammar can be left from a point; `none` if it does not pass there. -/
abbrev Outlook := Point → Option (List Outcome)

namespace Point

def within (point : Point) (kinds : Kind.Set) : Point :=
  { point with kinds := point.kinds.inter kinds }

def without (point : Point) (kinds : Kind.Set) : Point :=
  { point with kinds := point.kinds.diff kinds }

def entering (point : Point) (production : Production) : Point :=
  { point with residual := production, moved := false }

def leaving (point outer : Point) (kinds : Kind.Set) : Point :=
  { point with residual := outer.residual.rest kinds, moved := true }

def bump (point : Point) : Option Point :=
  let behind (quoted : Bool) : Point :=
    ⟨point.residual.rest point.kinds, if quoted then .quoted else .full, quoted, true⟩
  if point.kinds.contains .eof then none
  else if !point.kinds.contains .doubleQuote then some (behind point.quoted)
  else if point.kinds = .singleton .doubleQuote then some (behind !point.quoted)
  else none

def reach (point : Point) (next : Outlook) : Option (List Outcome) :=
  if point.kinds.isEmpty then some [] else next point

def gather (next : Bool → Outlook) : List Outcome → Option (List Outcome)
  | [] => some []
  | (accepted, point) :: rest => do
      let here ← next accepted point
      let others ← gather next rest
      pure (here ∪ others)

def both (first second : Option (List Outcome)) : Option (List Outcome) := do
  let first ← first
  let second ← second
  pure (first ∪ second)

/-- Explores the points at which a round of a loop starts.  All points that are found,
the pending ones included, are `seen`, and the loop is left where a round rejects. -/
def explore (body : Outlook) : (bound : Nat) → (seen pending : List Point) →
    Option (List Outcome)
  | _, _, [] => some []
  | 0, _, _ :: _ => none
  | bound + 1, seen, point :: pending => do
      let outcomes ← body point
      let (again, left) := outcomes.partition Prod.fst
      let fresh := (again.map Prod.snd).filter fun next => !seen.contains next
      let others ← explore body bound (seen ++ fresh) (pending ++ fresh)
      pure (left.map (fun outcome => (true, outcome.2)) ∪ others)

def loop (point : Point) (body : Outlook) : Option (List Outcome) :=
  let start := { point with moved := true }
  explore body 8 [start] [start]

/-- The place behind a node at its end.  Where something is missing from the node, no
production goes on. -/
def closing (point outer : Point) (kind : Kind) : Point :=
  if point.residual.isNullable then point.leaving outer (.singleton kind)
  else { point with residual := .void, moved := true }

def node (outer : Point) (body : Outlook) (kind : Kind) (wanted : Bool → Bool) :
    Option (List Outcome) := do
  let outcomes ← body (outer.entering (.ofKind kind))
  pure ((outcomes.filter fun outcome => wanted outcome.1).map fun outcome =>
    (true, outcome.2.closing outer kind))

def alone (outer : Point) (first : Outlook) (kinds : Kind.Set) (next : Outlook) :
    Option (List Outcome) := do
  let outcomes ← first (outer.entering (.one kinds))
  gather (fun accepted last =>
    if accepted then if last.residual.isNullable then next (last.leaving outer kinds) else none
    else if last.moved then none
    else some [(false, { last with residual := outer.residual, moved := outer.moved })]) outcomes

/-- One round of nodes that grow behind `outer`: around a node of one of some kinds
grows another one if `rest` accepts. -/
def growth (outer : Point) (kinds : Kind.Set) (kind : Kind) (rest : Outlook) (point : Point) :
    Option (List Outcome) := do
  let outcomes ← rest (point.entering ((Production.ofKind kind).rest kinds))
  gather (fun accepted last =>
    if accepted then
      if last.residual.isNullable then some [(true, last.leaving outer (.singleton kind))] else none
    else if last.moved then none else some [(false, last.leaving outer kinds)]) outcomes

end Point

/-- The kinds of the nodes that a rule makes in a text without errors. -/
def Rule.makes : Rule → Kind.Set
  | .type => .types
  | .value _ => .values
  | .statement .topLevel => .statements
  | .statement .multiclass => .multiclassStatements

def Rule.isOptional : Rule → Bool
  | .statement _ => true
  | _ => false

namespace Grammar

def makes : Grammar → Kind.Set
  | .group _ .error .error => .empty
  | .group _ accepted rejected => .union (.singleton accepted) (.singleton rejected)
  | .ifAt _ yes no | .ifText _ yes no => (makes yes).union (makes no)
  | .marked body => makes body
  | .grow first kind _ | .growAll first kind _ => (makes first).union (.singleton kind)
  | .call rule => rule.makes
  | _ => .empty

def callOutcomes (rule : Rule) (point : Point) : Option (List Outcome) :=
  if point.quoted then none
  else
    Point.both
      ((point.within rule.first).reach fun _ =>
        some [(true, Point.leaving { point with kinds := .full } point rule.makes)])
      ((point.without rule.first).reach fun _ =>
        some (if rule.isOptional then [(false, { point with kinds := .full })] else []))

def outcomes : Grammar → Outlook
  | .accept, point => some [(true, point)]
  | .reject, point => some [(false, point)]
  | .unreachable, _ => some []
  | .bump, point => point.bump.map fun behind => [(true, behind)]
  | .skip _, _ => none
  | .seq first second, point => do
      let one ← outcomes first point
      Point.gather (fun _ => outcomes second) one
  | .ifOk test yes no, point => do
      let one ← outcomes test point
      Point.gather (fun accepted => if accepted then outcomes yes else outcomes no) one
  | .ifAt kinds yes no, point =>
      Point.both ((point.within kinds).reach (outcomes yes)) ((point.without kinds).reach (outcomes no))
  | .ifText _ yes no, point => Point.both (outcomes yes point) (outcomes no point)
  | .complain problem, _ => if problem.severity = .error then some [] else none
  | .note _ problem, point =>
      if (problem []).severity = .error then some [] else some [(true, point)]
  | .marked body, point => outcomes body point
  | .group body accepted rejected, point =>
      if accepted = rejected then point.node (outcomes body) accepted fun _ => true
      else Point.both (point.node (outcomes body) accepted id)
        (point.node (outcomes body) rejected not)
  | .grow first kind rest, point =>
      point.alone (outcomes first) first.makes fun behind => do
        let outcomes ← point.growth first.makes kind (outcomes rest) behind
        pure (outcomes.map fun outcome => (true, outcome.2))
  | .growAll first kind rest, point =>
      let kinds := first.makes.union (.singleton kind)
      point.alone (outcomes first) kinds fun behind =>
        behind.loop (point.growth kinds kind (outcomes rest))
  | .loop body, point => point.loop (outcomes body)
  | .call rule, point => callOutcomes rule point

end Grammar

end TdSyntax
