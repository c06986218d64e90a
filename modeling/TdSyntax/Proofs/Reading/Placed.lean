import TdSyntax.Proofs.Reading.Reports

/-!
# The places of reports

A complaint is about the current token.  A note is about that one, about one that was
marked before, or about both and all between them.  So every report of a reading begins
where a token does and ends where a token does.
-/

namespace TdSyntax

/-- The range begins with one of the tokens and ends with one of them, not before it
begins. -/
structure Span.Joins (span : Span) (tokens : List Token) : Prop where
  ordered : span.start ≤ span.stop
  start : ∃ token ∈ tokens, span.start = token.start
  stop : ∃ token ∈ tokens, span.stop = token.stop

namespace Span.Joins

variable {first second : Span} {tokens : List Token}

theorem span {token : Token} (h : token ∈ tokens) : token.span.Joins tokens :=
  ⟨Nat.le_add_right _ _, ⟨token, h, rfl⟩, ⟨token, h, rfl⟩⟩

theorem cover (h : first.Joins tokens) (h' : second.Joins tokens) :
    (first.cover second).Joins tokens where
  ordered := Nat.le_trans (Nat.min_le_left _ _) (Nat.le_trans h.ordered (Nat.le_max_left _ _))
  start := by
    rcases Nat.le_total first.start second.start with hle | hle
    · simpa [Span.cover, Nat.min_eq_left hle] using h.start
    · simpa [Span.cover, Nat.min_eq_right hle] using h'.start
  stop := by
    rcases Nat.le_total first.stop second.stop with hle | hle
    · simpa [Span.cover, Nat.max_eq_right hle] using h'.stop
    · simpa [Span.cover, Nat.max_eq_left hle] using h.stop

end Span.Joins

/-- All that the cursor can still come to is among the tokens. -/
def Cursor.Among (cursor : Cursor) (tokens : List Token) : Prop :=
  cursor.tokens ++ [cursor.eof] ⊆ tokens

namespace Cursor.Among

variable {cursor : Cursor} {tokens : List Token}

theorem current (h : cursor.Among tokens) : cursor.current ∈ tokens := by
  refine h ?_
  cases htokens : cursor.tokens with
  | nil => simp [Cursor.current, htokens]
  | cons token rest => simp [Cursor.current, htokens]

theorem noteSpan (h : cursor.Among tokens) {mark : Token} (hmark : mark ∈ tokens)
    (place : NotePlace) : (Grammar.noteSpan place mark cursor.current).Joins tokens := by
  cases place with
  | here => exact .span h.current
  | mark => exact .span hmark
  | throughHere => exact (Span.Joins.span hmark).cover (.span h.current)

end Cursor.Among

/-- The reports of a reading begin and end with some of the tokens, among which it stays. -/
structure Reading.Placed (reading : Reading) (tokens : List Token) : Prop where
  among : reading.cursor.Among tokens
  joins : ∀ report ∈ reading.diagnostics, report.span.Joins tokens

namespace Reading

variable {first second : Reading} {cursor : Cursor} {tokens : List Token}

theorem idle_placed (h : cursor.Among tokens) (accepted : Bool) :
    (idle accepted cursor).Placed tokens := ⟨h, List.forall_mem_nil _⟩

theorem taking_placed (h : cursor.Among tokens) (count : Nat) :
    (taking count cursor).Placed tokens := by
  refine ⟨fun token hmem => h ?_, List.forall_mem_nil _⟩
  rcases List.mem_append.1 hmem with hrest | heof
  · exact List.mem_append_left _ (List.mem_of_mem_drop hrest)
  · exact List.mem_append_right _ heof

theorem reporting_placed (h : cursor.Among tokens) {diagnostic : Diagnostic}
    (hspan : diagnostic.span.Joins tokens) : (reporting diagnostic cursor).Placed tokens :=
  ⟨h, List.forall_mem_singleton.2 hspan⟩

theorem Placed.followedBy (h : first.Placed tokens) (h' : second.Placed tokens) :
    (first.followedBy second).Placed tokens :=
  ⟨h'.among, List.forall_mem_append.2 ⟨h.joins, h'.joins⟩⟩

theorem Placed.grownBy (h : first.Placed tokens) (h' : second.Placed tokens) (kind : Kind) :
    (first.grownBy second kind).Placed tokens :=
  ⟨(h.followedBy h').among, (h.followedBy h').joins⟩

end Reading

def Reader.Places (reader : Reader) (tokens : List Token) : Prop :=
  ∀ cursor reading, cursor.Among tokens → reader cursor = some reading → reading.Placed tokens

namespace Reader

variable {body : Reader} {tokens : List Token} (h : body.Places tokens)
include h

theorem loop_places (rounds : Nat) : (loop body rounds).Places tokens := by
  intro cursor reading hamong hread
  exact loop_induction h (fun _ hround => hround.among) .followedBy
    (fun hround => ⟨hround.among, hround.joins⟩) rounds hamong hread

theorem growAll_placed {kind : Kind} (rounds : Nat) {sofar reading : Reading} {cursor : Cursor}
    (hamong : cursor.Among tokens) (hsofar : sofar.Placed tokens)
    (hread : growAll kind body rounds sofar = some reading) : reading.Placed tokens :=
  growAll_induction h (fun _ hround => hround.among) .followedBy
    (fun hround => ⟨hround.among, hround.joins⟩) (fun hfirst hsecond => hfirst.grownBy hsecond kind)
    rounds cursor hamong hsofar hread

end Reader

theorem Grammar.read_places {call : Rule → Reader} {tokens : List Token}
    (hcall : ∀ rule, (call rule).Places tokens) (grammar : Grammar) {mark : Token}
    (hmark : mark ∈ tokens) : Reader.Places (grammar.read call mark) tokens := by
  induction grammar generalizing mark with
  | accept | reject =>
      intro cursor reading hamong hread
      cases hread
      exact Reading.idle_placed hamong _
  | bump | skip =>
      intro cursor reading hamong hread
      cases hread
      exact Reading.taking_placed hamong _
  | unreachable =>
      intro cursor reading _ hread
      cases hread
  | complain problem =>
      intro cursor reading hamong hread
      simp only [read] at hread
      split at hread <;> cases hread
      · exact Reading.idle_placed hamong _
      · exact Reading.reporting_placed hamong (.span hamong.current)
  | note place problem =>
      intro cursor reading hamong hread
      cases hread
      exact Reading.reporting_placed hamong (hamong.noteSpan hmark place)
  | seq first second ihFirst ihSecond =>
      intro cursor reading hamong hread
      obtain ⟨one, hone, two, htwo, rfl⟩ := read_seq_eq_some_iff.1 hread
      have hfirst := ihFirst hmark _ _ hamong hone
      exact hfirst.followedBy (ihSecond hmark _ _ hfirst.among htwo)
  | ifOk test yes no ihTest ihYes ihNo =>
      intro cursor reading hamong hread
      obtain ⟨one, hone, two, htwo, rfl⟩ := read_ifOk_eq_some_iff.1 hread
      have htest := ihTest hmark _ _ hamong hone
      split at htwo
      · exact htest.followedBy (ihYes hmark _ _ htest.among htwo)
      · exact htest.followedBy (ihNo hmark _ _ htest.among htwo)
  | ifAt kinds yes no ihYes ihNo =>
      intro cursor reading hamong hread
      rw [read_ifAt] at hread
      split at hread
      · exact ihYes hmark _ _ hamong hread
      · exact ihNo hmark _ _ hamong hread
  | ifText test yes no ihYes ihNo =>
      intro cursor reading hamong hread
      rw [read_ifText] at hread
      split at hread
      · exact ihYes hmark _ _ hamong hread
      · exact ihNo hmark _ _ hamong hread
  | marked body ih =>
      intro cursor reading hamong hread
      exact ih hamong.current _ _ hamong hread
  | group body accepted rejected ih =>
      intro cursor reading hamong hread
      obtain ⟨inner, hinner, rfl⟩ := read_group_eq_some_iff.1 hread
      have hbody := ih hmark _ _ hamong hinner
      exact ⟨hbody.among, hbody.joins⟩
  | grow first kind rest ihFirst ihRest =>
      intro cursor reading hamong hread
      obtain ⟨one, hone, hread⟩ := read_grow_eq_some_iff.1 hread
      have hfirst := ihFirst hmark _ _ hamong hone
      split at hread
      · obtain ⟨two, htwo, rfl⟩ := hread
        have hrest := ihRest hmark _ _ hfirst.among htwo
        have hboth := hfirst.followedBy hrest
        split
        · exact hfirst.grownBy hrest kind
        · exact ⟨hboth.among, hboth.joins⟩
      · rw [hread]
        exact hfirst
  | growAll first kind rest ihFirst ihRest =>
      intro cursor reading hamong hread
      obtain ⟨one, hone, hread⟩ := read_growAll_eq_some_iff.1 hread
      have hfirst := ihFirst hmark _ _ hamong hone
      split at hread
      · exact Reader.growAll_placed (ihRest hmark) _ hamong hfirst hread
      · rw [hread]
        exact hfirst
  | loop body ih =>
      intro cursor reading hamong hread
      exact Reader.loop_places (ih hmark) _ _ _ hamong hread
  | call rule => exact hcall rule

theorem Rule.read_places (tokens : List Token) (depth : Nat) (rule : Rule) :
    (Rule.read depth rule).Places tokens := by
  induction depth generalizing rule with
  | zero =>
      intro cursor reading _ hread
      cases hread
  | succ depth ih =>
      intro cursor reading hamong hread
      exact Grammar.read_places ih rule.grammar hamong.current _ _ hamong hread

theorem Grammar.run_joins {grammar : Grammar} {cursor : Cursor} {reading : Reading}
    (h : grammar.run cursor = some reading) :
    ∀ report ∈ reading.diagnostics, report.span.Joins (cursor.tokens ++ [cursor.eof]) := by
  have hamong : cursor.Among (cursor.tokens ++ [cursor.eof]) := List.Subset.refl _
  exact (read_places (Rule.read_places _ _) grammar hamong.current _ _ hamong h).joins

end TdSyntax
