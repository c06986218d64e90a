import TdSyntax.Diagnostic.Problem
import TdSyntax.Kind.Set

/-!
# A language for grammars

A grammar tells how to read tokens: which to take, how to group them into nodes
and what to report when the text goes on differently.  Reading a grammar always
succeeds; it only accepts or rejects, which other grammars may ask.  A grammar
sees the kind and the text of the current token, never its place, so trivia
cannot change what it reads.  A part of a grammar may state that it is never
reached.

The end of the file is always the current token behind the last one and cannot
be taken.
-/

namespace TdSyntax

/-- Where a value stands.  The `{` behind the name of a record opens the body of
the record, so it neither starts such a value nor continues it. -/
inductive ValuePlace where
  | anywhere
  | recordName
  deriving DecidableEq, Repr

/-- Where a statement stands.  Some statements are not allowed inside a
multiclass, nested blocks included. -/
inductive StatementPlace where
  | topLevel
  | multiclass
  deriving DecidableEq, Repr

/-- The parts of the grammar that refer to each other. -/
inductive Rule where
  | type
  | value (place : ValuePlace)
  | statement (place : StatementPlace)
  deriving DecidableEq, Repr

/-- How far to skip tokens that fit nowhere. -/
inductive Recovery where
  | upTo (kinds : Kind.Set)
  | toStatement (inBlock : Bool)
  | toBodyItem
  deriving DecidableEq, Repr

/-- Which tokens a note is about: the current one, the marked one, or all from
the marked one through the current one. -/
inductive NotePlace where
  | here
  | mark
  | throughHere
  deriving DecidableEq, Repr

/-- `accept`, `reject` and `unreachable` take nothing.  Of `seq` the second part decides, and
the parts of `ifOk`, `ifAt` and `ifText` follow a test or the current token.  A `complain` is
left out if the last report was an error at the same token, a `note` never; notes may be about
the token that `marked` has marked.  A `group` always accepts, as a node of a kind that tells
what its body does.  With `grow` a node begins where the last one of `first` does if `rest`
accepts behind it, and `growAll` repeats this as `loop` repeats its body. -/
inductive Grammar where
  | accept
  | reject
  | unreachable
  | bump
  | skip (recovery : Recovery)
  | seq (first second : Grammar)
  | ifOk (test yes no : Grammar)
  | ifAt (kinds : Kind.Set) (yes no : Grammar)
  | ifText (test : Text → Bool) (yes no : Grammar)
  | complain (problem : Problem)
  | note (place : NotePlace) (problem : Text → Problem)
  | marked (body : Grammar)
  | group (body : Grammar) (accepted rejected : Kind)
  | grow (first : Grammar) (kind : Kind) (rest : Grammar)
  | growAll (first : Grammar) (kind : Kind) (rest : Grammar)
  | loop (body : Grammar)
  | call (rule : Rule)

namespace Grammar

def node (kind : Kind) (body : Grammar) : Grammar := .group body kind kind

def all : List Grammar → Grammar
  | [] => .accept
  | [last] => last
  | first :: rest => .seq first (all rest)

def ifKind (kind : Kind) (yes no : Grammar) : Grammar := .ifAt (.singleton kind) yes no

def take (kind : Kind) : Grammar := ifKind kind .bump .unreachable

def eat (kind : Kind) : Grammar := ifKind kind .bump .reject

def missing (what : Expectation) : Grammar := .complain (.expected what)

def expect (kind : Kind) : Grammar :=
  ifKind kind .bump (.seq (missing (.token kind)) .reject)

def optional (kind : Kind) (grammar : Grammar) : Grammar := ifKind kind grammar .accept

def strayToken (what : Expectation) : Grammar := .node .error (.seq (missing what) .bump)

/-- Reports an error and makes an error node of the tokens up to those that the
surrounding grammar can go on with. -/
def resume (what : Expectation) (kinds : Kind.Set) : Grammar :=
  .ifAt (kinds.union (.singleton .eof)) (missing what)
    (.node .error (.seq (missing what) (.skip (.upTo kinds))))

/-- Elements with separators between them.  A stray separator is an error, and
so is a missing one where another element starts. -/
def items (element : Grammar) (separator : Kind) (what : Expectation) (first : Kind.Set) :
    Grammar :=
  .loop (ifKind separator (strayToken what)
    (.ifOk element
      (.ifOk (eat separator) .accept
        (.ifAt first (missing (.token separator)) .reject))
      .reject))

def delimited (opening close : Kind) (element : Grammar) (what : Expectation)
    (first : Kind.Set) : Grammar :=
  all [take opening, items element .comma what first, expect close]

end Grammar

end TdSyntax
