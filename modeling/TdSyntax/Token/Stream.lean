import TdSyntax.Token.Lexer

/-!
# Token streams

A stream hands out tokens one at a time and shows the next one in advance.  It
has therefore lexed one token more than it has handed out, and the diagnostics
of that token are among those it delivers.
-/

namespace TdSyntax

structure TokenStream where
  lexer : Lexer
  current : Token
  pending : List Diagnostic
  deriving DecidableEq, Repr

namespace TokenStream

def ofText (text : Text) : TokenStream :=
  let step := (Lexer.start text).next
  ⟨step.next, step.token, step.diagnostics⟩

/-- Hands out the current token; at the end this is the end of the file again
and again. -/
def next (stream : TokenStream) : Token × TokenStream :=
  let step := stream.lexer.next
  (stream.current, ⟨step.next, step.token, stream.pending ++ step.diagnostics⟩)

def takeDiagnostics (stream : TokenStream) : List Diagnostic × TokenStream :=
  (stream.pending, { stream with pending := [] })

def remaining (stream : TokenStream) : Nat :=
  stream.lexer.rest.length + (if stream.current.kind = .eof then 0 else 1)

theorem remaining_next_lt {stream : TokenStream} (h : stream.current.kind ≠ .eof) :
    stream.next.2.remaining < stream.remaining := by
  have hle := stream.lexer.next_rest_le
  by_cases hlast : stream.lexer.next.token.kind = .eof
  · simp only [remaining, next, hlast, h, if_true, if_false]
    omega
  · have := stream.lexer.next_rest_lt hlast
    simp only [remaining, next, hlast, h, if_false]
    omega

def drain (stream : TokenStream) : List Token × TokenStream :=
  if stream.current.kind = .eof then ([], stream)
  else
    let (tokens, last) := drain stream.next.2
    (stream.current :: tokens, last)
termination_by stream.remaining
decreasing_by exact remaining_next_lt (by assumption)

end TokenStream

end TdSyntax
