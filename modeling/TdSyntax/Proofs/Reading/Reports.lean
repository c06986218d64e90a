import TdSyntax.Proofs.Reading.Steps

/-!
# What a reading reports

A grammar reports by complaining, which it does unless the last report was an error
at the same place, and by notes, which it makes in any case.  A relation between the
cursors before and behind a reading and the reports in between holds of all readings
if it holds of these two steps, of taking tokens, and of one reading behind another.
-/

namespace TdSyntax

namespace Grammar

def complaints : Grammar → List Problem
  | .accept | .reject | .unreachable | .bump | .skip _ | .note _ _ | .call _ => []
  | .complain problem => [problem]
  | .seq first second => complaints first ++ complaints second
  | .ifOk test yes no => complaints test ++ (complaints yes ++ complaints no)
  | .ifAt _ yes no | .ifText _ yes no => complaints yes ++ complaints no
  | .marked body | .loop body | .group body _ _ => complaints body
  | .grow first _ rest | .growAll first _ rest => complaints first ++ complaints rest

def notes : Grammar → List (Text → Problem)
  | .accept | .reject | .unreachable | .bump | .skip _ | .complain _ | .call _ => []
  | .note _ problem => [problem]
  | .seq first second => notes first ++ notes second
  | .ifOk test yes no => notes test ++ (notes yes ++ notes no)
  | .ifAt _ yes no | .ifText _ yes no => notes yes ++ notes no
  | .marked body | .loop body | .group body _ _ => notes body
  | .grow first _ rest | .growAll first _ rest => notes first ++ notes rest

end Grammar

def Cursor.Ordered (cursor : Cursor) : Prop :=
  (cursor.tokens ++ [cursor.eof]).Pairwise fun first second => first.start ≤ second.start

namespace Cursor

theorem Ordered.drop {cursor : Cursor} (h : cursor.Ordered) (count : Nat) :
    Ordered { cursor with tokens := cursor.tokens.drop count } :=
  h.sublist ((List.drop_sublist count cursor.tokens).append_right [cursor.eof])

theorem Ordered.start_le_drop {cursor : Cursor} (h : cursor.Ordered) (count : Nat) :
    cursor.current.start ≤
      (current { cursor with tokens := cursor.tokens.drop count }).start := by
  obtain ⟨tokens, eof, reported⟩ := cursor
  cases tokens with
  | nil => simp [current]
  | cons token tokens =>
      cases count with
      | zero => simp [current]
      | succ count =>
          have hbehind := (List.pairwise_cons.1 h).1
          simp only [current, List.headD_cons, List.drop_succ_cons]
          cases hdrop : tokens.drop count with
          | nil => exact hbehind eof (by simp)
          | cons next rest =>
              have hmem : next ∈ tokens := List.mem_of_mem_drop (i := count) (by simp [hdrop])
              exact hbehind next (by simp [hmem])

end Cursor

/-- A relation between two cursors and the reports between them that holds of every
reading whose complaints and notes are among the given ones. -/
structure Reporting (complains notes : Problem → Prop)
    (relation : Cursor → List Diagnostic → Cursor → Prop) : Prop where
  nil : ∀ cursor, relation cursor [] cursor
  append : ∀ {one two three first second}, relation one first two → relation two second three →
    relation one (first ++ second) three
  taking : ∀ count cursor, relation cursor [] (Reading.taking count cursor).cursor
  complaint : ∀ {problem} {cursor : Cursor}, complains problem →
    cursor.reported ≠ some cursor.current.start →
    relation cursor [⟨problem, cursor.current.span⟩]
      (cursor.afterReport ⟨problem, cursor.current.span⟩)
  note : ∀ {problem} (span : Span) (cursor : Cursor), notes problem →
    relation cursor [⟨problem, span⟩] (cursor.afterReport ⟨problem, span⟩)

def Reader.Reports (reader : Reader) (relation : Cursor → List Diagnostic → Cursor → Prop) :
    Prop :=
  ∀ cursor reading, reader cursor = some reading →
    relation cursor reading.diagnostics reading.cursor

namespace Reporting

variable {complains notes : Problem → Prop}
  {relation : Cursor → List Diagnostic → Cursor → Prop} (h : Reporting complains notes relation)
include h

theorem loop {body : Reader} (hbody : body.Reports relation) (rounds : Nat) :
    (Reader.loop body rounds).Reports relation := by
  induction rounds with
  | zero =>
      intro cursor reading hread
      cases hread
  | succ rounds ih =>
      intro cursor reading hread
      obtain ⟨first, hfirst, hread⟩ := Reader.loop_succ_eq_some_iff.1 hread
      have hone := hbody cursor first hfirst
      split at hread
      · obtain ⟨rest, hrest, rfl⟩ := hread
        exact h.append hone (ih _ _ hrest)
      · rw [hread]
        exact hone

theorem growAll {body : Reader} (hbody : body.Reports relation) {kind : Kind} (rounds : Nat)
    {sofar reading : Reading} {cursor : Cursor}
    (hsofar : relation cursor sofar.diagnostics sofar.cursor)
    (hread : Reader.growAll kind body rounds sofar = some reading) :
    relation cursor reading.diagnostics reading.cursor := by
  induction rounds generalizing sofar with
  | zero => cases hread
  | succ rounds ih =>
      obtain ⟨next, hnext, hread⟩ := Reader.growAll_succ_eq_some_iff.1 hread
      have hboth := h.append hsofar (hbody _ _ hnext)
      split at hread
      · refine ih ?_ hread
        exact hboth
      · rw [hread]
        exact hboth

theorem read {call : Rule → Reader} (hcall : ∀ rule, (call rule).Reports relation)
    (grammar : Grammar) (hcomplaints : ∀ problem ∈ grammar.complaints, complains problem)
    (hnotes : ∀ note ∈ grammar.notes, ∀ text, notes (note text)) (mark : Token) :
    Reader.Reports (grammar.read call mark) relation := by
  induction grammar generalizing mark with
  | accept | reject | bump | skip =>
      intro cursor reading hread
      cases hread
      first
        | exact h.nil cursor
        | exact h.taking _ cursor
  | note place problem =>
      intro cursor reading hread
      cases hread
      exact h.note _ cursor (hnotes problem (by simp [Grammar.notes]) _)
  | unreachable =>
      intro cursor reading hread
      cases hread
  | complain problem =>
      intro cursor reading hread
      simp only [Grammar.read] at hread
      split at hread <;> cases hread
      · exact h.nil cursor
      · rename_i hreported
        exact h.complaint (hcomplaints problem (by simp [Grammar.complaints])) hreported
  | seq first second ihFirst ihSecond =>
      intro cursor reading hread
      simp only [Grammar.complaints, Grammar.notes, List.forall_mem_append] at hcomplaints hnotes
      obtain ⟨one, hone, two, htwo, rfl⟩ := Grammar.read_seq_eq_some_iff.1 hread
      exact h.append (ihFirst hcomplaints.1 hnotes.1 mark _ _ hone)
        (ihSecond hcomplaints.2 hnotes.2 mark _ _ htwo)
  | ifOk test yes no ihTest ihYes ihNo =>
      intro cursor reading hread
      simp only [Grammar.complaints, Grammar.notes, List.forall_mem_append] at hcomplaints hnotes
      obtain ⟨one, hone, two, htwo, rfl⟩ := Grammar.read_ifOk_eq_some_iff.1 hread
      have htest := ihTest hcomplaints.1 hnotes.1 mark _ _ hone
      split at htwo
      · exact h.append htest (ihYes hcomplaints.2.1 hnotes.2.1 mark _ _ htwo)
      · exact h.append htest (ihNo hcomplaints.2.2 hnotes.2.2 mark _ _ htwo)
  | ifAt kinds yes no ihYes ihNo =>
      intro cursor reading hread
      simp only [Grammar.complaints, Grammar.notes, List.forall_mem_append] at hcomplaints hnotes
      rw [Grammar.read_ifAt] at hread
      split at hread
      · exact ihYes hcomplaints.1 hnotes.1 mark _ _ hread
      · exact ihNo hcomplaints.2 hnotes.2 mark _ _ hread
  | ifText test yes no ihYes ihNo =>
      intro cursor reading hread
      simp only [Grammar.complaints, Grammar.notes, List.forall_mem_append] at hcomplaints hnotes
      rw [Grammar.read_ifText] at hread
      split at hread
      · exact ihYes hcomplaints.1 hnotes.1 mark _ _ hread
      · exact ihNo hcomplaints.2 hnotes.2 mark _ _ hread
  | marked body ih =>
      intro cursor reading hread
      exact ih hcomplaints hnotes cursor.current _ _ hread
  | group body accepted rejected ih =>
      intro cursor reading hread
      obtain ⟨inner, hinner, rfl⟩ := Grammar.read_group_eq_some_iff.1 hread
      exact ih hcomplaints hnotes mark _ inner hinner
  | grow first kind rest ihFirst ihRest =>
      intro cursor reading hread
      simp only [Grammar.complaints, Grammar.notes, List.forall_mem_append] at hcomplaints hnotes
      obtain ⟨one, hone, hread⟩ := Grammar.read_grow_eq_some_iff.1 hread
      have hfirst := ihFirst hcomplaints.1 hnotes.1 mark _ _ hone
      split at hread
      · obtain ⟨two, htwo, rfl⟩ := hread
        have hboth := h.append hfirst (ihRest hcomplaints.2 hnotes.2 mark _ _ htwo)
        split <;> exact hboth
      · rw [hread]
        exact hfirst
  | growAll first kind rest ihFirst ihRest =>
      intro cursor reading hread
      simp only [Grammar.complaints, Grammar.notes, List.forall_mem_append] at hcomplaints hnotes
      obtain ⟨one, hone, hread⟩ := Grammar.read_growAll_eq_some_iff.1 hread
      have hfirst := ihFirst hcomplaints.1 hnotes.1 mark _ _ hone
      split at hread
      · exact h.growAll (ihRest hcomplaints.2 hnotes.2 mark) _ hfirst hread
      · rw [hread]
        exact hfirst
  | loop body ih =>
      intro cursor reading hread
      exact h.loop (ih hcomplaints hnotes mark) _ _ _ hread
  | call rule => exact hcall rule

theorem read_rule
    (hcomplaints : ∀ (rule : Rule), ∀ problem ∈ rule.grammar.complaints, complains problem)
    (hnotes : ∀ (rule : Rule), ∀ note ∈ rule.grammar.notes, ∀ text, notes (note text))
    (depth : Nat) (rule : Rule) : (Rule.read depth rule).Reports relation := by
  induction depth generalizing rule with
  | zero =>
      intro cursor reading hread
      cases hread
  | succ depth ih =>
      intro cursor reading hread
      exact h.read ih rule.grammar (hcomplaints rule) (hnotes rule) cursor.current cursor reading hread

end Reporting

def Problem.isComplaint : Problem → Bool
  | .expected _ | .emptyMulticlass => true
  | _ => false

theorem Rule.isComplaint_complaints (rule : Rule) :
    ∀ problem ∈ rule.grammar.complaints, problem.isComplaint = true := by
  rcases rule with _ | place | place
  · decide +kernel
  · cases place <;> decide +kernel
  · cases place <;> decide +kernel

/-! ## The notes of the rules -/

def Problem.noted : List (Text → Problem) :=
  [fun _ => .emptySequence, fun _ => .missingOperatorName, .unknownOperator,
    .detachedOperator, fun _ => .gluedRangeEnd, .notInMulticlass]

namespace Grammar

theorem notes_statementByKeyword (place : StatementPlace) :
    (statementByKeyword place).notes = List.replicate 5 fun _ => .gluedRangeEnd := by
  cases place <;> rfl

theorem notes_value (place : ValuePlace) :
    (value place).notes ⊆ [.detachedOperator, .unknownOperator, fun _ => .missingOperatorName,
      fun _ => .emptySequence, fun _ => .gluedRangeEnd, fun _ => .gluedRangeEnd] := by
  cases place with
  | anywhere => exact List.Subset.refl _
  | recordName => exact List.subset_append_left _ [_]

end Grammar

namespace Rule

theorem notes_subset (rule : Rule) : rule.grammar.notes ⊆ Problem.noted := by
  have hstatement (place : StatementPlace) :
      (Grammar.statementByKeyword place).notes ⊆ Problem.noted := by
    rw [Grammar.notes_statementByKeyword]
    intro note hmem
    rw [List.eq_of_mem_replicate hmem]
    simp [Problem.noted]
  rcases rule with _ | place | place
  · exact List.nil_subset _
  · refine List.Subset.trans (Grammar.notes_value place) ?_
    simp [Problem.noted]
  · cases place with
    | topLevel => exact List.append_subset.2 ⟨hstatement _, List.nil_subset _⟩
    | multiclass =>
        have hmisplaced : Grammar.misplacedStatement.notes ⊆ Problem.noted :=
          List.append_subset.2 ⟨hstatement .topLevel, by simp [Grammar.notes, Problem.noted]⟩
        exact List.append_subset.2 ⟨hmisplaced,
          List.append_subset.2 ⟨hstatement _, List.nil_subset _⟩⟩

theorem isComplaint_notes (rule : Rule) :
    ∀ note ∈ rule.grammar.notes, ∀ text, (note text).isComplaint = false := by
  intro note hmem
  have hnoted := rule.notes_subset hmem
  simp only [Problem.noted, List.mem_cons, List.not_mem_nil, or_false] at hnoted
  rcases hnoted with rfl | rfl | rfl | rfl | rfl | rfl <;> exact fun _ => rfl

end Rule

end TdSyntax
