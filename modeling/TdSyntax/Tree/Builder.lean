import TdSyntax.Tree.Basic

/-!
# Building trees

A builder takes the nodes and tokens of a source text in order: a node is
started, filled and finished, and a token is given by its range and the lengths
of its trivia.  Every token has to begin where the one before it ended, and at
the end the whole text has to be covered by a single node.
-/

namespace TdSyntax

/-- A node that is started and not finished.  Its children are those from the place
`first` of the stack on. -/
structure OpenNode where
  kind : Kind
  first : Nat
  deriving DecidableEq, Repr

/-- `rest` is the part of the text from `offset` on.  The innermost open node comes
first.  Finished trees are kept on one stack, the last one on top, and move into
their node when it is finished. -/
structure Builder where
  text : Text
  rest : Text
  offset : Nat
  opened : List OpenNode
  children : Array Tree
  deriving DecidableEq, Repr

namespace Builder

def ofText (text : Text) : Builder := ⟨text, text, 0, [], #[]⟩

def startNode (builder : Builder) (kind : Kind) : Builder :=
  { builder with opened := ⟨kind, builder.children.size⟩ :: builder.opened }

def finishNode (builder : Builder) : Except Fault Builder :=
  match builder.opened with
  | [] => .error .noOpenNode
  | node :: outer =>
      if builder.children.size < node.first then .error .badSlice
      else
        let own := (builder.children.extract node.first).toList
        .ok { builder with
          opened := outer
          children := (builder.children.shrink node.first).push (.branch node.kind own) }

/-- Adds the token from `start` up to `stop`, which the trivia extends on both
sides. -/
def token (builder : Builder) (leading : List TriviaPiece) (kind : Kind) (start stop : Nat)
    (trailing : List TriviaPiece) : Except Fault Builder :=
  let before := TriviaPiece.total leading
  let fullStop := stop + TriviaPiece.total trailing
  if start < before then .error .negativeOffset
  else if start - before ≠ builder.offset then .error .tokenOutOfOrder
  else if fullStop < builder.offset then .error .badSlice
  else
    match builder.rest.splitAt? (fullStop - builder.offset) with
    | none => .error .badSlice
    | some (text, rest) => do
        let leaf ← Leaf.ofParts leading kind text trailing
        pure { builder with
          rest := rest, offset := fullStop, children := builder.children.push (.leaf leaf) }

def finish (builder : Builder) : Except Fault SourceTree :=
  if !builder.opened.isEmpty then .error .unfinishedNodes
  else if builder.offset ≠ builder.text.size then .error .uncoveredText
  else
    match builder.children.toList with
    | [.branch kind children] => .ok ⟨kind, children, builder.text⟩
    | [.leaf _] => .error .rootNotNode
    | _ => .error .notOneRoot

/-- A builder may be given up only while no node is open. -/
def drop (builder : Builder) : Except Fault Unit :=
  if builder.opened.isEmpty then .ok () else .error .builderDropped

end Builder

end TdSyntax
