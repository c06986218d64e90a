import TdSyntax.Proofs.Diagnostic.Order
import TdSyntax.Proofs.Parse.Complaints
import TdSyntax.Proofs.Reading.Explained
import TdSyntax.Proofs.Token.Unknown

/-!
# Nothing is passed over in silence

Where the grammar gives up on some tokens, an error says so at the first of them.  Where
the lexer gives up on a character, a single report says so.
-/

namespace TdSyntax

theorem Reporting.reports_all (holds : Problem → Prop) :
    Reporting holds holds fun _ reports _ => ∀ report ∈ reports, holds report.problem where
  nil _ := List.forall_mem_nil _
  append h h' := List.forall_mem_append.2 ⟨h, h'⟩
  taking _ _ := List.forall_mem_nil _
  complaint hproblem _ := List.forall_mem_singleton.2 hproblem
  note _ _ hproblem := List.forall_mem_singleton.2 hproblem

namespace Rule

theorem not_lexical_complaints (rule : Rule) :
    ∀ problem ∈ rule.grammar.complaints, problem.stage ≠ .lexical := by
  intro problem hmem
  have hcomplaint := rule.isComplaint_complaints problem hmem
  cases problem <;> simp_all [Problem.isComplaint, Problem.stage]

theorem not_lexical_notes (rule : Rule) :
    ∀ note ∈ rule.grammar.notes, ∀ text, (note text).stage ≠ .lexical := by
  intro note hmem text
  have hnoted := rule.notes_subset hmem
  simp only [Problem.noted, List.mem_cons, List.not_mem_nil, or_false] at hnoted
  rcases hnoted with rfl | rfl | rfl | rfl | rfl | rfl <;> simp [Problem.stage]

end Rule

namespace Parse

theorem not_lexical_file {cursor : Cursor} {reading : Reading}
    (h : Grammar.file.run cursor = some reading) :
    ∀ report ∈ reading.diagnostics, report.stage ≠ .lexical := by
  have hreporting := Reporting.reports_all (fun problem => problem.stage ≠ .lexical)
  have hrules := hreporting.read_rule Rule.not_lexical_complaints Rule.not_lexical_notes
    (cursor.tokens.length + 2)
  exact hreporting.read hrules Grammar.file (by decide) (List.forall_mem_nil _) _ _ _ h

theorem ofText_explained (text : Text) :
    ∃ parse draft, Parse.ofText text = .ok parse ∧ draft.Outlines (.node parse.root) ∧
      draft.tokens = tokenize text ∧ Draft.Explained (fun start => ∃ report ∈ parse.diagnostics,
        report.isFault = true ∧ report.span.start = start) draft := by
  obtain ⟨reading, hread, htokens, hparse⟩ := ofText_eq text
  refine ⟨_, _, hparse, Draft.outlines_root htokens, Draft.tokens_root htokens, ?_⟩
  have htells : reading.Tells fun start => ∃ report ∈
      Diagnostic.sort ((TokenList.ofText text).diagnostics ++ reading.diagnostics),
        report.isFault = true ∧ report.span.start = start := by
    intro report hmem hfault
    exact ⟨report, List.mem_mergeSort.2 (List.mem_append_right _ hmem), hfault, rfl⟩
  have hdrafts := Grammar.read_explains (Rule.read_keeps _) (Rule.read_refuses _)
    (Rule.read_explains _ _) (show Grammar.file.isReported .full = true by decide +kernel)
    (List.forall_mem_nil _) (Kind.Set.contains_full _)
    ⟨TokenList.eof_kind _, Cursor.ordered_start text, by simp⟩ hread htells
  refine .node rfl (fun heq => absurd heq (by decide)) (List.forall_mem_append.2 ⟨hdrafts, ?_⟩)
  exact List.forall_mem_singleton.2 (.token _)

theorem ofText_unknown {text : Text} {parse : Parse} (h : Parse.ofText text = .ok parse) :
    ∀ token ∈ tokenize text, token.kind = .unknown →
      ∃ c, token.text = [c] ∧
        parse.diagnostics.filter (fun report => report.stage == .lexical && report.span == token.span) =
          [⟨.unrecognized c, token.span⟩] := by
  obtain ⟨reading, hread, -, hparse⟩ := ofText_eq text
  obtain rfl := Except.ok.inj (h.symm.trans hparse)
  intro token hmem hkind
  have htoken : token ∈ (TokenList.ofText text).tokens := by
    rcases List.mem_append.1 hmem with hmem | hmem
    · exact hmem
    · obtain rfl := List.mem_singleton.1 hmem
      cases (TokenList.eof_kind (Lexer.start text)).symm.trans hkind
  obtain ⟨c, htext, hreport⟩ := TokenList.reports_unknown _ token htoken hkind
  refine ⟨c, htext, ?_⟩
  have hlexer : (TokenList.ofText text).diagnostics.filter
      (fun report => report.stage == .lexical && report.span == token.span) =
        [⟨.unrecognized c, token.span⟩] := by
    rw [← hreport]
    refine List.filter_congr fun report hmem => ?_
    rw [TokenList.ofText_diagnostics text report hmem]
    rfl
  have hgrammar : reading.diagnostics.filter
      (fun report => report.stage == .lexical && report.span == token.span) = [] := by
    refine List.filter_eq_nil_iff.2 fun report hmem => ?_
    simp [not_lexical_file hread report hmem]
  rw [Diagnostic.filter_sort, List.filter_append, hlexer, hgrammar]
  simp [Diagnostic.sort]

/-- Every error node has a token and starts where an error of the grammar starts, and each
unknown character has one lexical report. -/
theorem ofText_recovery (text : Text) :
    ∃ parse, Parse.ofText text = .ok parse ∧
      (∀ error ∈ parse.root.descendants, error.kind = .error →
        error.tokens ≠ [] ∧ ∃ report ∈ parse.diagnostics, report.isError = true ∧
          (report.stage = .grammatical ∨ report.stage = .structural) ∧
          report.span.start = error.span.start) ∧
      ((∃ error ∈ parse.root.descendants, error.kind = .error) → parse.hasErrors = true) ∧
      ∀ token ∈ parse.root.tokens, token.kind = .unknown →
        ∃ c, token.text = .ok [c] ∧
          parse.diagnostics.filter
              (fun report => report.stage == .lexical && report.span == token.span) =
            [⟨.unrecognized c, token.span⟩] := by
  obtain ⟨parse, draft, hparse, houtlines, htokens, hexplained⟩ := ofText_explained text
  have herrors : ∀ error ∈ parse.root.descendants, error.kind = .error →
      error.tokens ≠ [] ∧ ∃ report ∈ parse.diagnostics, report.isError = true ∧
        (report.stage = .grammatical ∨ report.stage = .structural) ∧
        report.span.start = error.span.start := by
    intro error hmem hkind
    obtain ⟨part, hpart, hnode⟩ :=
      Draft.exists_of_mem_descendants Draft.Explained.parts hexplained houtlines hmem
    obtain ⟨hne, report, hreport, hfault, hstart⟩ := hpart.error hnode hkind
    simp only [Diagnostic.isFault, Problem.isFault, Bool.and_eq_true, Bool.or_eq_true,
      beq_iff_eq] at hfault
    refine ⟨hne, report, hreport, ?_, hfault.2, hstart⟩
    simpa [Diagnostic.isError, Diagnostic.severity] using hfault.1
  refine ⟨parse, hparse, herrors, ?_, ?_⟩
  · rintro ⟨error, hmem, hkind⟩
    obtain ⟨-, report, hreport, herror, -⟩ := herrors error hmem hkind
    exact List.any_eq_true.2 ⟨report, hreport, herror⟩
  · intro placed hmem hkind
    have hshown := houtlines.tokens
    rw [htokens] at hshown
    obtain ⟨token, htoken, hshows⟩ := exists_related hshown.flip hmem
    have hsame : token.kind = .unknown := by
      rw [← hkind, NodeToken.kind, hshows.leaf, Token.leaf]
    obtain ⟨c, htext, hreports⟩ := ofText_unknown hparse token htoken hsame
    refine ⟨c, ?_, ?_⟩
    · rw [hshows.text, htext]
    · rw [hshows.span]
      exact hreports

end Parse

end TdSyntax
