import TdSyntax.Diagnostic.Basic
import TdSyntax.Draft
import TdSyntax.Grammar.Statements

/-!
# Reading by a grammar

A cursor stands before the tokens that are still to be read.  Reading a grammar
from a cursor gives a reading: whether the grammar accepts, what it has taken and
reported, and the cursor behind it.  Rules refer to each other without end, so
the depth of their nesting is bounded by a number, and so are the rounds of a
loop; a reading that exceeds a bound, or comes to a part that should not be
reached, is `none`.
-/

namespace TdSyntax

/-- `eof` is the token behind the remaining ones.  `reported` is the start of the
last report if that was an error of the grammar. -/
structure Cursor where
  tokens : List Token
  eof : Token
  reported : Option Nat
  deriving DecidableEq, Repr

namespace Cursor

def current (cursor : Cursor) : Token := cursor.tokens.headD cursor.eof

def kind (cursor : Cursor) : Kind := cursor.current.kind

def afterReport (cursor : Cursor) (diagnostic : Diagnostic) : Cursor :=
  { cursor with
    reported :=
      if diagnostic.isError && diagnostic.stage == .grammatical then
        some diagnostic.span.start
      else none }

end Cursor

structure Reading where
  accepted : Bool
  drafts : List Draft
  diagnostics : List Diagnostic
  cursor : Cursor
  deriving Repr

namespace Reading

def idle (accepted : Bool) (cursor : Cursor) : Reading := ⟨accepted, [], [], cursor⟩

def taking (count : Nat) (cursor : Cursor) : Reading :=
  ⟨true, (cursor.tokens.take count).map .token, [],
    { cursor with tokens := cursor.tokens.drop count }⟩

def reporting (diagnostic : Diagnostic) (cursor : Cursor) : Reading :=
  ⟨true, [], [diagnostic], cursor.afterReport diagnostic⟩

def followedBy (first second : Reading) : Reading :=
  ⟨second.accepted, first.drafts ++ second.drafts, first.diagnostics ++ second.diagnostics,
    second.cursor⟩

def withAccepted (reading : Reading) (accepted : Bool) : Reading :=
  { reading with accepted := accepted }

def grouped (reading : Reading) (accepted rejected : Kind) : Reading :=
  { reading with
    accepted := true
    drafts := [.node (if reading.accepted then accepted else rejected) reading.drafts] }

/-- A reading behind another, around whose last node a node grows. -/
def grownBy (first rest : Reading) (kind : Kind) : Reading :=
  { first.followedBy rest with drafts := Draft.growLast kind first.drafts rest.drafts }

end Reading

abbrev Reader := Cursor → Option Reading

namespace Reader

def loop (body : Reader) : Nat → Reader
  | 0, _ => none
  | rounds + 1, cursor => do
      let first ← body cursor
      if first.accepted then
        let rest ← loop body rounds first.cursor
        pure (first.followedBy rest)
      else pure (first.withAccepted true)

def growAll (kind : Kind) (rest : Reader) : Nat → Reading → Option Reading
  | 0, _ => none
  | rounds + 1, sofar => do
      let next ← rest sofar.cursor
      if next.accepted then growAll kind rest rounds (sofar.grownBy next kind)
      else pure ((sofar.followedBy next).withAccepted true)

/-- More rounds than a loop can make if each one but the last takes a token. -/
def rounds (cursor : Cursor) : Nat := cursor.tokens.length + 1

end Reader

namespace Recovery

/-- How many tokens of the given kinds to skip until a statement starts.  Braces
that are opened on the way are skipped with all that they hold. -/
def lengthToStatement (inBlock : Bool) : (depth : Nat) → List Kind → Nat
  | _, [] => 0
  | depth, kind :: rest =>
      if kind = .rightBrace then
        if depth = 0 && inBlock then 0 else lengthToStatement inBlock (depth - 1) rest + 1
      else if kind = .leftBrace then lengthToStatement inBlock (depth + 1) rest + 1
      else if depth = 0 && Grammar.statementFirst.contains kind then 0
      else lengthToStatement inBlock depth rest + 1

def endsBodyItem (kind : Kind) : Bool :=
  kind == .rightBrace || Grammar.bodyKeywords.contains kind ||
    Grammar.statementOnly.contains kind

/-- How many tokens to skip through the next semicolon, or until an item of a
record body may start.  At least one token is skipped. -/
def lengthToBodyItem : List Kind → Nat
  | [] => 0
  | kind :: rest =>
      if kind = .semicolon || rest.head?.any endsBodyItem then 1
      else lengthToBodyItem rest + 1

def length (recovery : Recovery) (kinds : List Kind) : Nat :=
  match recovery with
  | .upTo stops => (kinds.takeWhile fun kind => !stops.contains kind).length
  | .toStatement inBlock => lengthToStatement inBlock 0 kinds
  | .toBodyItem => lengthToBodyItem kinds

end Recovery

namespace Grammar

def noteSpan (place : NotePlace) (mark current : Token) : Span :=
  match place with
  | .here => current.span
  | .mark => mark.span
  | .throughHere => mark.span.cover current.span

def noteText (place : NotePlace) (mark current : Token) : Text :=
  match place with
  | .mark => mark.text
  | .here | .throughHere => current.text

/-- Reads by a grammar; `call` reads by a rule, and `mark` is the marked token. -/
def read (call : Rule → Reader) : Grammar → (mark : Token) → Reader
  | .accept, _, cursor => some (.idle true cursor)
  | .reject, _, cursor => some (.idle false cursor)
  | .unreachable, _, _ => none
  | .bump, _, cursor => some (.taking 1 cursor)
  | .skip recovery, _, cursor =>
      some (.taking (recovery.length (cursor.tokens.map Token.kind)) cursor)
  | .seq first second, mark, cursor => do
      let first ← read call first mark cursor
      let second ← read call second mark first.cursor
      pure (first.followedBy second)
  | .ifOk test yes no, mark, cursor => do
      let test ← read call test mark cursor
      let next ←
        if test.accepted then read call yes mark test.cursor
        else read call no mark test.cursor
      pure (test.followedBy next)
  | .ifAt kinds yes no, mark, cursor =>
      if kinds.contains cursor.kind then read call yes mark cursor
      else read call no mark cursor
  | .ifText test yes no, mark, cursor =>
      if test cursor.current.text then read call yes mark cursor
      else read call no mark cursor
  | .complain problem, _, cursor =>
      if cursor.reported = some cursor.current.start then some (.idle true cursor)
      else some (.reporting ⟨problem, cursor.current.span⟩ cursor)
  | .note place problem, mark, cursor =>
      some (.reporting
        ⟨problem (noteText place mark cursor.current), noteSpan place mark cursor.current⟩
        cursor)
  | .marked body, _, cursor => read call body cursor.current cursor
  | .group body accepted rejected, mark, cursor => do
      let body ← read call body mark cursor
      pure (body.grouped accepted rejected)
  | .grow first kind rest, mark, cursor => do
      let first ← read call first mark cursor
      if first.accepted then
        let rest ← read call rest mark first.cursor
        pure (if rest.accepted then first.grownBy rest kind
          else (first.followedBy rest).withAccepted true)
      else pure first
  | .growAll first kind rest, mark, cursor => do
      let first ← read call first mark cursor
      if first.accepted then
        Reader.growAll kind (read call rest mark) (Reader.rounds first.cursor) first
      else pure first
  | .loop body, mark, cursor =>
      Reader.loop (read call body mark) (Reader.rounds cursor) cursor
  | .call rule, _, cursor => call rule cursor

end Grammar

/-- Reads by a rule, with rules nested at most `depth` deep. -/
def Rule.read : (depth : Nat) → Rule → Reader
  | 0, _, _ => none
  | depth + 1, rule, cursor => rule.grammar.read (Rule.read depth) cursor.current cursor

/-- Reads by a grammar.  Each rule that is entered inside another one stands
behind a token that the outer one has taken, so the number of tokens bounds the
nesting. -/
def Grammar.run (grammar : Grammar) (cursor : Cursor) : Option Reading :=
  grammar.read (Rule.read (cursor.tokens.length + 2)) cursor.current cursor

end TdSyntax
