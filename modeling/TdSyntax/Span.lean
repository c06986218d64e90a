/-!
# Spans

A span is a range of byte offsets: from `start` up to, but not including,
`stop`.
-/

namespace TdSyntax

structure Span where
  start : Nat
  stop : Nat
  deriving DecidableEq, Repr

namespace Span

def empty (offset : Nat) : Span := ⟨offset, offset⟩

def length (span : Span) : Nat := span.stop - span.start

def cover (first second : Span) : Span :=
  ⟨min first.start second.start, max first.stop second.stop⟩

def render (span : Span) : String := toString span.start ++ ".." ++ toString span.stop

end Span

end TdSyntax
