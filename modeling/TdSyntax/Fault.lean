/-!
# Faults

A fault is a broken agreement between a caller and the library, as opposed to a
problem of a source file, which is reported as a diagnostic.  Every operation
that can be called wrongly says so by one of these.
-/

namespace TdSyntax

inductive Fault where
  | tokenOutOfOrder
  | negativeOffset
  | triviaTooLong
  | noOpenNode
  | unfinishedNodes
  | uncoveredText
  | notOneRoot
  | rootNotNode
  | builderDropped
  | nothingToSkip
  | invalidOffset
  | badSlice
  | danglingLink
  | brokenGrammar
  | endlessInclusion
  deriving DecidableEq, Repr

def Fault.message? : Fault → Option String
  | .tokenOutOfOrder =>
      some "assertion `left == right` failed: tokens must be added in source order"
  | .negativeOffset => some "attempt to subtract with overflow"
  | .triviaTooLong =>
      some "assertion failed: leading.len() + trailing.len() <= TextSize::of(text)"
  | .noOpenNode => some "no opened nodes?"
  | .unfinishedNodes => some "unfinished nodes"
  | .uncoveredText => some "assertion `left == right` failed: tree does not cover the whole text"
  | .notOneRoot => some "assertion `left == right` failed: expected a single root node"
  | .rootNotNode => some "the root must be a node"
  | .builderDropped => some "you should call `Builder::finish()`"
  | .nothingToSkip => some "must have a subtree to skip"
  | .invalidOffset => some "invalid offset"
  | .badSlice => none
  | .danglingLink => some "internal error: entered unreachable code"
  | .brokenGrammar => none
  | .endlessInclusion => none

end TdSyntax
