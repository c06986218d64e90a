import TdSyntax.Proofs.Production.Derived
import TdSyntax.Proofs.Reading.Extension

/-!
# Statements are closed

Whether a statement goes on behind its last token depends on the token behind it only
where an `else` may stand.  So a statement that is read without errors up to the end of
a file is read in the same way if more tokens follow, unless the first of them is an
`else`.  Types and values are not closed in this sense.
-/

namespace TdSyntax

/-- Whether every reading that goes on from the point at the end of a file reports an
error. -/
def Point.stops (point : Point) (next : Outlook) : Bool :=
  ((point.within (.singleton .eof)).reach next).any List.isEmpty

/-- Whether what is read from the point is the same with more tokens behind.  At the end
of a file nothing may go on, unless it is `settled` that the same happens there. -/
def Point.closesBehind (point : Point) (next : Outlook) (closes : Point → Bool)
    (settled : Bool) : Bool :=
  closes (point.without (.singleton .eof)) && (point.stops next || settled)

namespace Grammar

/-- Whether the grammar accepts, if it takes and reports nothing at any token but an
`else`. -/
def idles? : Grammar → Option Bool
  | .accept => some true
  | .reject => some false
  | .ifAt kinds _ no => if (kinds.diff (.singleton .elseKw)).isEmpty then idles? no else none
  | _ => none

/-- Whether all readings without errors from the point, where a token is left, are the
same with more tokens behind. -/
def closes : Grammar → Point → Bool
  | .accept, _ | .reject, _ | .unreachable, _ | .bump, _ | .complain _, _ | .note _ _, _ => true
  | .skip _, _ | .grow _ _ _, _ | .growAll _ _ _, _ | .loop _, _ => false
  | .seq first second, point =>
      (first.outcomes point).any fun outcomes => outcomes.all fun outcome =>
        outcome.2.closesBehind second.outcomes (closes second)
          (closes first point && second.idles?.isSome)
  | .ifOk test yes no, point =>
      (test.outcomes point).any fun outcomes => outcomes.all fun outcome =>
        if outcome.1 then
          outcome.2.closesBehind yes.outcomes (closes yes)
            (closes test point && yes.idles?.isSome)
        else
          outcome.2.closesBehind no.outcomes (closes no)
            (closes test point && no.idles?.isSome)
  | .ifAt kinds yes no, point =>
      ((point.within kinds).kinds.isEmpty || closes yes (point.within kinds)) &&
        ((point.without kinds).kinds.isEmpty || closes no (point.without kinds))
  | .ifText _ yes no, point => closes yes point && closes no point
  | .marked body, point => closes body point
  | .group body accepted _, point => closes body (point.entering (.ofKind accepted))
  | .call (.statement _), point => !point.quoted
  | .call _, _ => false

end Grammar

namespace Cursor.Clean

variable {cursor : Cursor} {quoted : Bool}

theorem hides (h : cursor.Clean quoted) (hkind : cursor.kind ≠ .eof) (more : List Token)
    (eof : Token) : cursor.Hides more eof := by
  obtain ⟨rest, htokens⟩ := h.tokens_eq hkind
  intro hnil
  rw [hnil] at htokens
  cases htokens

end Cursor.Clean

namespace Grammar

variable {more : List Token} {eof : Token} {call wider : Rule → Reader} {mark : Token}

end Grammar

namespace Rule

end Rule

/-! ## Files -/

namespace Grammar

section

variable {more : List Token} {eof mark : Token} (hnext : (more.headD eof).kind ≠ .elseKw)
  {depth depths : Nat} (hle : depth ≤ depths)
include hnext hle

end

end Grammar

end TdSyntax
