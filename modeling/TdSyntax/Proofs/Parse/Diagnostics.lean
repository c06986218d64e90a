import TdSyntax.Proofs.Diagnostic.Rendered
import TdSyntax.Proofs.Parse.Ranges
import TdSyntax.Proofs.Parse.Recovery
import TdSyntax.Proofs.Reading.Placed
import TdSyntax.Proofs.Token.Placed

/-!
# The diagnostics of a text

What the lexer and the grammar report is listed by where it starts, and each report is a
range of the text.  All reports are errors but those of range ends that are glued to the
start of a range.
-/

namespace TdSyntax

theorem Span.Joins.within {span : Span} {text : Text} (h : span.Joins (tokenize text)) :
    span.Within text := by
  obtain ⟨first, hfirst, hstart⟩ := h.start
  obtain ⟨last, hlast, hstop⟩ := h.stop
  refine ⟨h.ordered, ?_, ?_⟩
  · rw [hstart]
    exact (Token.span_within hfirst).cuts.start
  · rw [hstop]
    exact (Token.span_within hlast).cuts.stop

/-- The problem is an error, unless a range end is glued to the start of the range. -/
def Problem.IsGraded (problem : Problem) : Prop :=
  problem.severity = .error ∨ problem = .gluedRangeEnd

namespace Rule

theorem isGraded_complaints (rule : Rule) :
    ∀ problem ∈ rule.grammar.complaints, problem.IsGraded := by
  intro problem hmem
  have hcomplaint := rule.isComplaint_complaints problem hmem
  cases problem with
  | expected | emptyMulticlass => exact .inl rfl
  | _ => cases hcomplaint

theorem isGraded_notes (rule : Rule) :
    ∀ note ∈ rule.grammar.notes, ∀ text, (note text).IsGraded := by
  intro note hmem text
  have hnoted := rule.notes_subset hmem
  simp only [Problem.noted, List.mem_cons, List.not_mem_nil, or_false] at hnoted
  rcases hnoted with rfl | rfl | rfl | rfl | rfl | rfl <;> simp [Problem.IsGraded, Problem.severity]

end Rule

/-- The report is the warning about a range of the tree: its end is a negative integer that
is glued to its start. -/
def Diagnostic.WarnsIn (report : Diagnostic) (root : Node) : Prop :=
  ∃ piece ∈ root.descendants, piece.kind = .rangePiece ∧ ∃ start stop,
    piece.Ranges start (some .gluedDash) (some stop) ∧ report = ⟨.gluedRangeEnd, stop.span⟩

namespace Parse

theorem isGraded_file {cursor : Cursor} {reading : Reading}
    (h : Grammar.file.run cursor = some reading) :
    ∀ report ∈ reading.diagnostics, report.problem.IsGraded := by
  have hreporting := Reporting.reports_all Problem.IsGraded
  have hrules := hreporting.read_rule Rule.isGraded_complaints Rule.isGraded_notes
    (cursor.tokens.length + 2)
  exact hreporting.read hrules Grammar.file (List.forall_mem_singleton.2 (.inl rfl))
    (List.forall_mem_nil _) _ _ _ h

theorem isError_eq_false_iff {text : Text} {parse : Parse} {draft : Draft}
    (h : draft.Reports text parse) {report : Diagnostic} (hmem : report ∈ parse.diagnostics)
    (hgraded : report.problem.IsGraded) :
    report.isError = false ↔ report.WarnsIn parse.root := by
  constructor
  · intro herror
    have hproblem : report.problem = .gluedRangeEnd := by
      refine hgraded.resolve_left fun hsevere => ?_
      simp [Diagnostic.isError, Diagnostic.severity, hsevere] at herror
    obtain ⟨literal, hliteral, rfl⟩ := h.mem_iff.1 ⟨hmem, hproblem⟩
    obtain ⟨piece, hpiece, hkind, start, stop, hranges, hspan⟩ :=
      h.ranged.exists_ranges h.outlines hliteral
    exact ⟨piece, hpiece, hkind, start, stop, hranges, by rw [hspan]; rfl⟩
  · rintro ⟨piece, -, -, start, stop, -, rfl⟩
    rfl

theorem ofText_within {text : Text} {parse : Parse} (h : Parse.ofText text = .ok parse) :
    ∀ report ∈ parse.diagnostics, report.span.Within text := by
  obtain ⟨reading, hread, -, hparse⟩ := ofText_eq text
  obtain rfl := Except.ok.inj (hparse.symm.trans h)
  intro report hmem
  rcases List.mem_append.1 (List.mem_mergeSort.1 hmem) with hlexical | hreported
  · exact TokenList.ofText_within text report hlexical
  · exact Span.Joins.within (Grammar.run_joins hread report hreported)

theorem ofText_isSome_render? {text : Text} {parse : Parse} (h : Parse.ofText text = .ok parse)
    {report : Diagnostic} (hmem : report ∈ parse.diagnostics) (path : String) :
    (report.render? path text).isSome = true :=
  Diagnostic.isSome_render?_iff.2 (ofText_within h report hmem).cuts.start

/-- The diagnostics of a text are those of the lexer and those of the grammar, sorted by
their starts, where the ones of the lexer come first among those that start at one place.
Each of them is a range of the text, starts with a token unless the lexer reports it, and is
an error unless it warns about a glued range end. -/
theorem ofText_reports (text : Text) :
    ∃ parse draft reports, Parse.ofText text = .ok parse ∧
      Draft.ofTokens (TokenList.ofText text) = .ok (draft, reports) ∧
      parse.diagnostics.Perm ((TokenList.ofText text).diagnostics ++ reports) ∧
      parse.diagnostics.Pairwise (fun first second => first.span.start ≤ second.span.start) ∧
      (∀ offset, parse.diagnostics.filter (fun report => report.span.start == offset) =
        (TokenList.ofText text).diagnostics.filter (fun report => report.span.start == offset) ++
          reports.filter fun report => report.span.start == offset) ∧
      (∀ report ∈ parse.diagnostics,
        report.span.start ≤ report.span.stop ∧ report.span.stop ≤ text.size ∧
        report.span.Cuts text ∧
        (report.stage ≠ .lexical → ∃ token ∈ tokenize text, report.span.start = token.start) ∧
        (report.isError = false ↔ report.WarnsIn parse.root)) ∧
      (parse.hasErrors = false ↔
        ∀ report ∈ parse.diagnostics, report.WarnsIn parse.root) := by
  obtain ⟨reading, hread, -, -, hdraft⟩ := Draft.ofTokens_eq text
  obtain ⟨same, hsame, -, hparse⟩ := ofText_eq text
  obtain rfl : same = reading := Option.some.inj (hsame.symm.trans hread)
  obtain ⟨parse, whole, hwhole, hreports⟩ := ofText_ranged text
  obtain rfl := Except.ok.inj (hparse.symm.trans hwhole)
  have hgraded : ∀ report ∈ (TokenList.ofText text).diagnostics ++ same.diagnostics,
      report.problem.IsGraded :=
    List.forall_mem_append.2 ⟨fun report hmem =>
      .inl (TokenList.ofLexer_diagnostics (Lexer.start text) report hmem).2, isGraded_file hread⟩
  have hweighs {report : Diagnostic} (hmem : report ∈ Diagnostic.sort
      ((TokenList.ofText text).diagnostics ++ same.diagnostics)) :=
    isError_eq_false_iff hreports hmem (hgraded report (List.mem_mergeSort.1 hmem))
  refine ⟨_, _, same.diagnostics, hparse, hdraft, List.mergeSort_perm _ _,
    Diagnostic.pairwise_sort _, fun offset => ?_, fun report hmem => ?_, ?_⟩
  · rw [Diagnostic.filter_start_sort, List.filter_append]
  · obtain ⟨hordered, hcuts⟩ := ofText_within hparse report hmem
    refine ⟨hordered, Text.le_size_of_isBoundary hcuts.stop, hcuts, fun hstage => ?_,
      hweighs hmem⟩
    rcases List.mem_append.1 (List.mem_mergeSort.1 hmem) with hlexical | hmem
    · exact absurd (TokenList.ofText_diagnostics text report hlexical) hstage
    · exact (Grammar.run_joins hread report hmem).start
  · rw [hasErrors, List.any_eq_false]
    refine forall₂_congr fun report hmem => ?_
    rw [Bool.not_eq_true, hweighs hmem]

end Parse

end TdSyntax
