import TdSyntax.Proofs.Production.Derived
import TdSyntax.Proofs.Reading.Operands

/-!
# Ranges, and the reports of their glued ends

Whatever is read, each range has the parts of a range, and the reports that an integer is
read as the end of a range are those of the glued ends, one for each, in their order.
-/

namespace TdSyntax

def Diagnostic.isGluedEnd (diagnostic : Diagnostic) : Bool := diagnostic.problem == .gluedRangeEnd

/-- The report that an integer is read as the end of a range. -/
def Token.gluedEnd (literal : Token) : Diagnostic := ⟨.gluedRangeEnd, literal.span⟩

namespace Grammar

def readsRanges (kinds : Kind.Set) : Grammar → Bool
  | .accept | .reject | .unreachable | .bump | .skip _ | .complain _ | .note _ _ | .call _ => true
  | .seq first second => readsRanges kinds first && readsRanges .full second
  | .ifOk test yes no => readsRanges kinds test && (readsRanges .full yes && readsRanges .full no)
  | .ifAt among yes no => readsRanges (kinds.inter among) yes && readsRanges (kinds.diff among) no
  | .ifText _ yes no => readsRanges kinds yes && readsRanges kinds no
  | .marked body => readsRanges kinds body
  | .loop body => readsRanges .full body
  | .group body accepted rejected =>
      if accepted = .rangePiece ∨ rejected = .rangePiece then
        accepted == rejected && (kinds.diff valueFirst).isEmpty
      else readsRanges kinds body
  | .grow first kind rest | .growAll first kind rest =>
      readsRanges kinds first && (readsRanges .full rest && kind != .rangePiece)

def notesAside : Grammar → List (Text → Problem)
  | .accept | .reject | .unreachable | .bump | .skip _ | .complain _ | .call _ => []
  | .note _ problem => [problem]
  | .seq first second => notesAside first ++ notesAside second
  | .ifOk test yes no => notesAside test ++ (notesAside yes ++ notesAside no)
  | .ifAt _ yes no | .ifText _ yes no => notesAside yes ++ notesAside no
  | .marked body | .loop body => notesAside body
  | .group body accepted rejected =>
      if accepted = .rangePiece ∨ rejected = .rangePiece then [] else notesAside body
  | .grow first _ rest | .growAll first _ rest => notesAside first ++ notesAside rest

end Grammar

/-- The ranges of a reading have the parts of a range, and their glued ends are reported. -/
structure Reading.Ranges (reading : Reading) (cursor : Cursor) : Prop where
  eof : reading.cursor.eof = cursor.eof
  ranged : ∀ draft ∈ reading.drafts, draft.Ranged
  reports : reading.diagnostics.filter Diagnostic.isGluedEnd =
    (Draft.gluedAll reading.drafts).map Token.gluedEnd

namespace Reading

theorem idle_ranges (accepted : Bool) (cursor : Cursor) : (idle accepted cursor).Ranges cursor :=
  ⟨rfl, List.forall_mem_nil _, rfl⟩

theorem taking_ranges (count : Nat) (cursor : Cursor) : (taking count cursor).Ranges cursor where
  eof := rfl
  ranged := by
    intro draft hmem
    obtain ⟨token, -, rfl⟩ := List.mem_map.1 hmem
    exact .token token
  reports := by
    rw [taking, Draft.gluedAll_map_token]
    rfl

theorem reporting_ranges {diagnostic : Diagnostic} (h : diagnostic.problem ≠ .gluedRangeEnd)
    (cursor : Cursor) : (reporting diagnostic cursor).Ranges cursor where
  eof := rfl
  ranged := List.forall_mem_nil _
  reports := by simp [reporting, Diagnostic.isGluedEnd, h, Draft.gluedAll]

namespace Ranges

variable {first second reading : Reading} {cursor : Cursor}

theorem followedBy (h : first.Ranges cursor) (h' : second.Ranges first.cursor) :
    (first.followedBy second).Ranges cursor where
  eof := h'.eof.trans h.eof
  ranged := List.forall_mem_append.2 ⟨h.ranged, h'.ranged⟩
  reports := by
    simp only [Reading.followedBy, List.filter_append, Draft.gluedAll_append, List.map_append,
      h.reports, h'.reports]

theorem withAccepted (h : reading.Ranges cursor) (accepted : Bool) :
    (reading.withAccepted accepted).Ranges cursor := ⟨h.eof, h.ranged, h.reports⟩

theorem grownBy (h : first.Ranges cursor) (h' : second.Ranges first.cursor) {kind : Kind}
    (hkind : kind ≠ .rangePiece) : (first.grownBy second kind).Ranges cursor where
  eof := h'.eof.trans h.eof
  ranged := Draft.forall_mem_growLast
    (fun hshape hparts => .node hshape (fun heq => absurd heq hkind) hparts) h.ranged h'.ranged
  reports := by
    simp only [Reading.grownBy, Reading.followedBy, List.filter_append,
      Draft.gluedAll_growLast hkind, List.map_append, h.reports, h'.reports]

theorem grouped (h : reading.Ranges cursor) {accepted rejected : Kind}
    (haccepted : accepted ≠ .rangePiece) (hrejected : rejected ≠ .rangePiece) :
    (reading.grouped accepted rejected).Ranges cursor := by
  have hkind : (if reading.accepted then accepted else rejected) ≠ .rangePiece := by
    split <;> assumption
  refine ⟨h.eof, List.forall_mem_singleton.2 (.node rfl (fun heq => absurd heq hkind) h.ranged), ?_⟩
  simpa [Reading.grouped, Draft.gluedAll, Draft.glued, Draft.gluedEnd?_of_ne hkind] using h.reports

end Ranges

end Reading

def Reader.Ranges (reader : Reader) : Prop :=
  ∀ cursor reading, cursor.eof.kind = .eof → reader cursor = some reading → reading.Ranges cursor

namespace Reader

variable {body : Reader}

theorem loop_ranges (h : body.Ranges) (rounds : Nat) : (loop body rounds).Ranges := by
  intro cursor reading heof hread
  exact loop_induction h (fun heof hround => hround.eof ▸ heof) .followedBy
    (fun hround => hround.withAccepted true) rounds heof hread

theorem growAll_ranges (h : body.Ranges) {kind : Kind} (hkind : kind ≠ .rangePiece) (rounds : Nat)
    {sofar reading : Reading} {cursor : Cursor} (heof : cursor.eof.kind = .eof)
    (hsofar : sofar.Ranges cursor) (hread : growAll kind body rounds sofar = some reading) :
    reading.Ranges cursor :=
  growAll_induction h (fun heof hround => hround.eof ▸ heof) .followedBy
    (fun hround => hround.withAccepted true)
    (fun hfirst hsecond => hfirst.grownBy hsecond hkind) rounds cursor heof hsofar hread

end Reader

namespace Grammar

def rangeRest : Grammar :=
  .ifAt (.ofList [.ellipsis, .minus]) (.seq .bump anyValue)
  (ifKind .integerLiteral
    (.ifText (fun text => text.head? == some '-')
      (.seq (.note .here fun _ => .gluedRangeEnd) integer) .accept)
    .accept)

end Grammar

/-- A reading behind the start of a range completes the parts of the range, and the report
of its glued end is the last one. -/
structure Reading.EndsRange (reading : Reading) (start : Draft) (cursor : Cursor) : Prop where
  eof : reading.cursor.eof = cursor.eof
  parts : Draft.RangeParts (start :: reading.drafts)
  ranged : ∀ draft ∈ reading.drafts, draft.Ranged
  reports : reading.diagnostics.filter Diagnostic.isGluedEnd =
    (Draft.gluedAll reading.drafts ++
      (Draft.gluedEnd? .rangePiece (start :: reading.drafts)).toList).map Token.gluedEnd

namespace Reading

variable {start : Draft} {cursor : Cursor}

theorem idle_endsRange (hstart : start.Operand) : (idle true cursor).EndsRange start cursor :=
  ⟨rfl, .alone hstart, List.forall_mem_nil _, rfl⟩

theorem parted_endsRange (hstart : start.Operand) {separator : Token} {rest : List Token}
    (htokens : cursor.tokens = separator :: rest)
    (hseparator : separator.kind = .ellipsis ∨ separator.kind = .minus) {reading : Reading}
    (hranges : reading.Ranges (taking 1 cursor).cursor) (hmakes : reading.MakesOperand) :
    ((taking 1 cursor).followedBy reading).EndsRange start cursor := by
  obtain ⟨stop, hstop, hoperands⟩ : ∃ stop : Option Draft, reading.drafts = stop.toList ∧
      ∀ draft ∈ stop, draft.Operand := by
    cases haccepted : reading.accepted with
    | true =>
        obtain ⟨draft, hdrafts, hoperand⟩ := hmakes.accepted haccepted
        refine ⟨some draft, hdrafts, fun other hmem => ?_⟩
        cases hmem
        exact hoperand
    | false => exact ⟨none, hmakes.rejected haccepted, nofun⟩
  have hdrafts : ((taking 1 cursor).followedBy reading).drafts =
      .token separator :: stop.toList := by
    simp [followedBy, taking, htokens, hstop]
  have hnone : Draft.gluedEnd? .rangePiece (start :: .token separator :: stop.toList) = none := by
    cases stop <;> rfl
  refine ⟨hranges.eof, ?_, ?_, ?_⟩
  · rw [hdrafts]
    exact .parted hstart hseparator hoperands
  · rw [hdrafts]
    exact List.forall_mem_cons.2 ⟨.token separator, hstop ▸ hranges.ranged⟩
  · rw [hdrafts, hnone, ← hstop]
    simpa [followedBy, taking, Draft.gluedAll, Draft.glued] using hranges.reports

theorem glued_endsRange (hstart : start.Operand) {literal : Token} {rest : List Token}
    (htokens : cursor.tokens = literal :: rest) (hliteral : literal.kind = .integerLiteral)
    (hsign : literal.text.head? = some '-') :
    ((reporting literal.gluedEnd cursor).followedBy
      ((taking 1 (cursor.afterReport literal.gluedEnd)).grouped .integer .integer)).EndsRange
        start cursor := by
  have hdrafts : ((reporting literal.gluedEnd cursor).followedBy
      ((taking 1 (cursor.afterReport literal.gluedEnd)).grouped .integer .integer)).drafts =
        [.node .integer [.token literal]] := by
    simp [followedBy, reporting, grouped, taking, Cursor.afterReport, htokens]
  refine ⟨rfl, ?_, ?_, ?_⟩
  · rw [hdrafts]
    exact .glued hstart hliteral hsign
  · rw [hdrafts]
    exact List.forall_mem_singleton.2
      (.node rfl (absurd · (by decide)) (List.forall_mem_singleton.2 (.token literal)))
  · rw [hdrafts]
    rfl

end Reading

namespace Grammar

section

variable {call : Rule → Reader} (hrefuses : Refuses call) (hcall : ∀ rule, (call rule).Ranges)
  (hvalue : ∀ cursor reading, cursor.eof.kind = .eof →
    call (.value .anywhere) cursor = some reading → reading.MakesOperand)
include hcall hvalue

theorem rangeRest_endsRange {mark : Token} {cursor : Cursor} {reading : Reading} {start : Draft}
    (hstart : start.Operand) (heof : cursor.eof.kind = .eof)
    (hread : rangeRest.read call mark cursor = some reading) : reading.EndsRange start cursor := by
  have htokens (hne : cursor.kind ≠ .eof) :
      ∃ token rest, cursor.tokens = token :: rest ∧ cursor.current = token := by
    obtain ⟨token, rest, htokens⟩ := List.exists_cons_of_length_pos (cursor.tokens_ne_nil heof hne)
    exact ⟨token, rest, htokens, by simp [Cursor.current, htokens]⟩
  rw [rangeRest, read_ifAt] at hread
  split at hread
  case isTrue hbetween =>
    obtain ⟨separator, rest, htokens, hcurrent⟩ := htokens fun heq => by simp [heq] at hbetween
    obtain ⟨one, hone, two, htwo, rfl⟩ := read_seq_eq_some_iff.1 hread
    cases hone
    refine Reading.parted_endsRange hstart htokens ?_ (hcall _ _ _ ?_ htwo) (hvalue _ _ ?_ htwo)
    · simpa [Cursor.kind, hcurrent] using hbetween
    all_goals exact heof
  case isFalse =>
    rw [ifKind, read_ifAt] at hread
    split at hread
    case isTrue hliteral =>
      rw [read_ifText] at hread
      split at hread
      case isTrue hsign =>
        obtain ⟨literal, rest, htokens, hcurrent⟩ := htokens fun heq => by simp [heq] at hliteral
        obtain ⟨one, hone, two, htwo, rfl⟩ := read_seq_eq_some_iff.1 hread
        obtain ⟨inner, hinner, rfl⟩ := read_group_eq_some_iff.1 htwo
        cases hone
        cases hinner
        simp only [noteSpan, hcurrent]
        refine Reading.glued_endsRange hstart htokens ?_ ?_
        · simpa [Cursor.kind, hcurrent, eq_comm] using hliteral
        · simpa [hcurrent] using hsign
      case isFalse =>
        cases hread
        exact Reading.idle_endsRange hstart
    case isFalse =>
      cases hread
      exact Reading.idle_endsRange hstart

include hrefuses

theorem rangePiece_ranges {mark : Token} {cursor : Cursor} {inner : Reading}
    (hkind : valueFirst.contains cursor.kind = true) (heof : cursor.eof.kind = .eof)
    (hread : rangePieceBody.read call mark cursor = some inner) :
    (inner.grouped .rangePiece .rangePiece).Ranges cursor := by
  obtain ⟨one, hone, two, htwo, rfl⟩ := read_seq_eq_some_iff.1 hread
  have hfirst := hcall (.value .anywhere) _ _ heof hone
  obtain ⟨start, hstart, hoperand⟩ : ∃ draft, one.drafts = [draft] ∧ draft.Operand := by
    refine (hvalue _ _ heof hone).accepted ?_
    cases haccepted : one.accepted with
    | true => rfl
    | false => cases hkind.symm.trans (hrefuses _ _ _ hone haccepted).1
  have hends := rangeRest_endsRange hcall hvalue hoperand (hfirst.eof ▸ heof) htwo
  refine ⟨hends.eof.trans hfirst.eof, List.forall_mem_singleton.2 (.node rfl ?_ ?_), ?_⟩
  · simpa [Reading.followedBy, hstart] using hends.parts
  · exact List.forall_mem_append.2 ⟨hfirst.ranged, hends.ranged⟩
  · simp [Reading.grouped, Reading.followedBy, Draft.gluedAll, Draft.glued, hfirst.reports,
      hends.reports, hstart]

theorem read_ranges (grammar : Grammar) {kinds : Kind.Set} (h : grammar.readsRanges kinds = true)
    (hpieces : ∀ body ∈ grammar.bodiesOf .rangePiece, body = rangePieceBody)
    (hcomplaints : ∀ problem ∈ grammar.complaints, problem ≠ .gluedRangeEnd)
    (hnotes : ∀ note ∈ grammar.notesAside, ∀ text, note text ≠ .gluedRangeEnd) (mark : Token)
    {cursor : Cursor} {reading : Reading} (hkind : kinds.contains cursor.kind = true)
    (heof : cursor.eof.kind = .eof) (hread : grammar.read call mark cursor = some reading) :
    reading.Ranges cursor := by
  have hfull (cursor : Cursor) : Kind.Set.full.contains cursor.kind = true :=
    Kind.Set.contains_full _
  induction grammar generalizing kinds mark cursor reading with
  | accept | reject =>
      cases hread
      exact Reading.idle_ranges _ cursor
  | bump | skip =>
      cases hread
      exact Reading.taking_ranges _ cursor
  | unreachable => cases hread
  | complain problem =>
      simp only [read] at hread
      split at hread <;> cases hread
      · exact Reading.idle_ranges _ cursor
      · exact Reading.reporting_ranges (hcomplaints problem (by simp [complaints])) cursor
  | note place problem =>
      cases hread
      exact Reading.reporting_ranges (hnotes problem (by simp [notesAside]) _) cursor
  | seq first second ihFirst ihSecond =>
      simp only [readsRanges, Bool.and_eq_true] at h
      simp only [bodiesOf, complaints, notesAside, List.forall_mem_append]
        at hpieces hcomplaints hnotes
      obtain ⟨one, hone, two, htwo, rfl⟩ := read_seq_eq_some_iff.1 hread
      have hfirst := ihFirst h.1 hpieces.1 hcomplaints.1 hnotes.1 mark hkind heof hone
      exact hfirst.followedBy (ihSecond h.2 hpieces.2 hcomplaints.2 hnotes.2 mark (hfull _)
        (hfirst.eof ▸ heof) htwo)
  | ifOk test yes no ihTest ihYes ihNo =>
      simp only [readsRanges, Bool.and_eq_true] at h
      simp only [bodiesOf, complaints, notesAside, List.forall_mem_append]
        at hpieces hcomplaints hnotes
      obtain ⟨one, hone, two, htwo, rfl⟩ := read_ifOk_eq_some_iff.1 hread
      have htest := ihTest h.1 hpieces.1 hcomplaints.1 hnotes.1 mark hkind heof hone
      have hnext := htest.eof ▸ heof
      split at htwo
      · exact htest.followedBy
          (ihYes h.2.1 hpieces.2.1 hcomplaints.2.1 hnotes.2.1 mark (hfull _) hnext htwo)
      · exact htest.followedBy
          (ihNo h.2.2 hpieces.2.2 hcomplaints.2.2 hnotes.2.2 mark (hfull _) hnext htwo)
  | ifAt among yes no ihYes ihNo =>
      simp only [readsRanges, Bool.and_eq_true] at h
      simp only [bodiesOf, complaints, notesAside, List.forall_mem_append]
        at hpieces hcomplaints hnotes
      rw [read_ifAt] at hread
      split at hread
      case isTrue hamong =>
        exact ihYes h.1 hpieces.1 hcomplaints.1 hnotes.1 mark (by simp [hkind, hamong]) heof hread
      case isFalse hamong =>
        exact ihNo h.2 hpieces.2 hcomplaints.2 hnotes.2 mark (by simp [hkind, hamong]) heof hread
  | ifText test yes no ihYes ihNo =>
      simp only [readsRanges, Bool.and_eq_true] at h
      simp only [bodiesOf, complaints, notesAside, List.forall_mem_append]
        at hpieces hcomplaints hnotes
      rw [read_ifText] at hread
      split at hread
      · exact ihYes h.1 hpieces.1 hcomplaints.1 hnotes.1 mark hkind heof hread
      · exact ihNo h.2 hpieces.2 hcomplaints.2 hnotes.2 mark hkind heof hread
  | marked body ih => exact ih h hpieces hcomplaints hnotes cursor.current hkind heof hread
  | group body accepted rejected ih =>
      obtain ⟨inner, hinner, rfl⟩ := read_group_eq_some_iff.1 hread
      simp only [bodiesOf, List.forall_mem_append] at hpieces
      unfold readsRanges at h
      unfold notesAside at hnotes
      split at h
      case isTrue hpiece =>
        simp only [Bool.and_eq_true, beq_iff_eq] at h
        obtain ⟨rfl, hfirst⟩ := h
        obtain rfl : accepted = .rangePiece := by simpa using hpiece
        obtain rfl : body = rangePieceBody := hpieces.1 body (by simp)
        refine rangePiece_ranges hrefuses hcall hvalue ?_ heof hinner
        have houtside := Kind.Set.contains_of_isEmpty hfirst cursor.kind
        simpa [hkind] using houtside
      case isFalse hpiece =>
        rw [if_neg hpiece] at hnotes
        simp only [not_or] at hpiece
        exact (ih h hpieces.2 hcomplaints hnotes mark hkind heof hinner).grouped hpiece.1 hpiece.2
  | grow first kind rest ihFirst ihRest =>
      simp only [readsRanges, Bool.and_eq_true, bne_iff_ne] at h
      simp only [bodiesOf, complaints, notesAside, List.forall_mem_append]
        at hpieces hcomplaints hnotes
      obtain ⟨one, hone, hread⟩ := read_grow_eq_some_iff.1 hread
      have hfirst := ihFirst h.1 hpieces.2.1 hcomplaints.1 hnotes.1 mark hkind heof hone
      split at hread
      · obtain ⟨two, htwo, rfl⟩ := hread
        have hrest := ihRest h.2.1 hpieces.2.2 hcomplaints.2 hnotes.2 mark (hfull _)
          (hfirst.eof ▸ heof) htwo
        split
        · exact hfirst.grownBy hrest h.2.2
        · exact (hfirst.followedBy hrest).withAccepted true
      · rw [hread]
        exact hfirst
  | growAll first kind rest ihFirst ihRest =>
      simp only [readsRanges, Bool.and_eq_true, bne_iff_ne] at h
      simp only [bodiesOf, complaints, notesAside, List.forall_mem_append]
        at hpieces hcomplaints hnotes
      obtain ⟨one, hone, hread⟩ := read_growAll_eq_some_iff.1 hread
      have hfirst := ihFirst h.1 hpieces.2.1 hcomplaints.1 hnotes.1 mark hkind heof hone
      split at hread
      · refine Reader.growAll_ranges ?_ h.2.2 _ heof hfirst hread
        exact fun _ _ hend hround =>
          ihRest h.2.1 hpieces.2.2 hcomplaints.2 hnotes.2 mark (hfull _) hend hround
      · rw [hread]
        exact hfirst
  | loop body ih =>
      refine Reader.loop_ranges ?_ _ _ _ heof hread
      exact fun _ _ hend hround => ih h hpieces hcomplaints hnotes mark (hfull _) hend hround
  | call rule => exact hcall rule _ _ heof hread

end

end Grammar

namespace Rule

theorem readsRanges (rule : Rule) : rule.grammar.readsRanges .full = true := by
  rcases rule with _ | place | place
  · decide +kernel
  · cases place <;> decide +kernel
  · cases place <;> decide +kernel

theorem notesAside_subset (rule : Rule) : rule.grammar.notesAside ⊆
    [fun _ => .emptySequence, fun _ => .missingOperatorName, .unknownOperator,
      .detachedOperator, .notInMulticlass] := by
  rcases rule with _ | place | place
  · exact List.nil_subset _
  · have hvalue : (Grammar.value place).notesAside = [.detachedOperator, .unknownOperator,
        fun _ => .missingOperatorName, fun _ => .emptySequence] := by cases place <;> rfl
    rw [grammar, hvalue]
    simp
  · cases place with
    | topLevel => exact List.nil_subset _
    | multiclass =>
        have hstatement : (Grammar.statement .multiclass).notesAside = [.notInMulticlass] := rfl
        rw [grammar, hstatement]
        simp

theorem read_ranges (depth : Nat) (rule : Rule) : (Rule.read depth rule).Ranges := by
  induction depth generalizing rule with
  | zero =>
      intro cursor reading _ hread
      cases hread
  | succ depth ih =>
      intro cursor reading heof hread
      refine Grammar.read_ranges (read_refuses depth) ih (fun _ _ => read_value_makesOperand)
        rule.grammar rule.readsRanges rule.rangePiece_bodies ?_ ?_ _ (Kind.Set.contains_full _) heof
        hread
      · rintro problem hmem rfl
        cases rule.isComplaint_complaints _ hmem
      · intro note hmem text
        have hnoted := rule.notesAside_subset hmem
        simp only [List.mem_cons, List.not_mem_nil, or_false] at hnoted
        rcases hnoted with rfl | rfl | rfl | rfl | rfl <;> simp

end Rule

end TdSyntax
