import Mathlib.Data.List.Chain
import TdSyntax.Proofs.Parse.Lossless
import TdSyntax.Proofs.Reading.Reports

/-!
# Complaints at one place

A complaint is kept back where the last report is an error at the same place.  So of
complaints that are made one behind the other, each stands behind the last.  A note
between them makes the grammar forget the place: then it may complain there again.
-/

namespace TdSyntax

def Diagnostic.isComplaint (diagnostic : Diagnostic) : Bool := diagnostic.problem.isComplaint

/-- If both are complaints, the second one stands behind the first. -/
def Diagnostic.Advances (first second : Diagnostic) : Prop :=
  first.isComplaint = true → second.isComplaint = true → first.span.start < second.span.start

theorem Cursor.reported_afterReport {cursor : Cursor} {diagnostic : Diagnostic}
    (h : diagnostic.isComplaint = true) :
    (cursor.afterReport diagnostic).reported = some diagnostic.span.start := by
  obtain ⟨problem, span⟩ := diagnostic
  cases problem <;> simp_all [Diagnostic.isComplaint, Problem.isComplaint, afterReport,
    Diagnostic.isError, Diagnostic.severity, Problem.severity, Diagnostic.stage, Problem.stage]

/-- How the reports between two cursors fit to the last one before them and to the
next one behind them. -/
structure Cursor.Complains (cursor : Cursor) (reports : List Diagnostic) (later : Cursor) :
    Prop where
  forward : cursor.current.start ≤ later.current.start
  advances : reports.IsChain Diagnostic.Advances
  first : ∀ report ∈ reports.head?, report.isComplaint = true →
    cursor.reported ≠ some report.span.start ∧ cursor.current.start ≤ report.span.start
  last : ∀ report ∈ reports.getLast?, report.isComplaint = true →
    later.reported = some report.span.start ∧ report.span.start ≤ later.current.start
  quiet : reports = [] → later.reported = cursor.reported

namespace Cursor

theorem Complains.append {one two three : Cursor} {first second : List Diagnostic}
    (h : one.Complains first two) (h' : two.Complains second three) :
    one.Complains (first ++ second) three where
  forward := Nat.le_trans h.forward h'.forward
  advances := by
    refine List.isChain_append.2 ⟨h.advances, h'.advances, ?_⟩
    intro before hbefore behind hbehind hone htwo
    obtain ⟨hreported, hle⟩ := h.last before hbefore hone
    obtain ⟨hnew, hge⟩ := h'.first behind hbehind htwo
    have hne : before.span.start ≠ behind.span.start := fun heq => hnew (heq ▸ hreported)
    omega
  first := by
    intro report hmem hcomplaint
    cases first with
    | nil =>
        obtain ⟨hnew, hge⟩ := h'.first report hmem hcomplaint
        exact ⟨h.quiet rfl ▸ hnew, Nat.le_trans h.forward hge⟩
    | cons before first => exact h.first report hmem hcomplaint
  last := by
    intro report hmem hcomplaint
    rcases List.eq_nil_or_concat second with rfl | ⟨front, behind, rfl⟩
    · rw [List.append_nil] at hmem
      obtain ⟨hreported, hle⟩ := h.last report hmem hcomplaint
      exact ⟨(h'.quiet rfl).trans hreported, Nat.le_trans hle h'.forward⟩
    · exact h'.last report (by simpa using hmem) hcomplaint
  quiet := by
    intro hnil
    obtain ⟨hfirst, hsecond⟩ := List.append_eq_nil_iff.1 hnil
    exact (h'.quiet hsecond).trans (h.quiet hfirst)

theorem reporting_complains :
    Reporting (fun problem => problem.isComplaint = true)
      (fun problem => problem.isComplaint = false)
      fun cursor reports later =>
        cursor.Ordered → later.Ordered ∧ cursor.Complains reports later where
  nil cursor hordered := ⟨hordered, Nat.le_refl _, .nil, by simp, by simp, fun _ => rfl⟩
  append h h' hordered := by
    obtain ⟨hmiddle, hfirst⟩ := h hordered
    obtain ⟨hlast, hsecond⟩ := h' hmiddle
    exact ⟨hlast, hfirst.append hsecond⟩
  taking count cursor hordered :=
    ⟨hordered.drop count, hordered.start_le_drop count, .nil, by simp, by simp, fun _ => rfl⟩
  complaint hproblem hreported hordered := by
    refine ⟨hordered, Nat.le_refl _, .singleton _, ?_, ?_, by simp⟩
    · rintro report ⟨rfl⟩ -
      exact ⟨hreported, Nat.le_refl _⟩
    · rintro report ⟨rfl⟩ hcomplaint
      exact ⟨reported_afterReport hcomplaint, Nat.le_refl _⟩
  note span cursor hproblem hordered := by
    refine ⟨hordered, Nat.le_refl _, .singleton _, ?_, ?_, by simp⟩
    · rintro report ⟨rfl⟩ hcomplaint
      cases hproblem.symm.trans hcomplaint
    · rintro report ⟨rfl⟩ hcomplaint
      cases hproblem.symm.trans hcomplaint

end Cursor

theorem Cursor.ordered_start (text : Text) :
    Cursor.Ordered ⟨(TokenList.ofText text).tokens, (TokenList.ofText text).eof, none⟩ := by
  refine (tokenize_pairwise_precedes text).imp ?_
  intro first second hprecedes
  have hstart := hprecedes.start_lt_stop
  have hstop := hprecedes.stop_le_start
  omega

theorem Diagnostic.pairwise_of_isChain_advances {reports run : List Diagnostic}
    (h : reports.IsChain Advances) (hrun : run <:+: reports)
    (hcomplaints : ∀ report ∈ run, report.isComplaint = true) :
    run.Pairwise fun first second => first.span.start < second.span.start := by
  have hchain : run.IsChain fun first second => first.span.start < second.span.start := by
    have hpart : run.IsChain Advances := List.IsChain.infix h hrun
    refine hpart.imp_of_mem_imp ?_
    intro first second hfirst hsecond hadvances
    exact hadvances (hcomplaints first hfirst) (hcomplaints second hsecond)
  have hpairs := (List.isChain_map (fun report : Diagnostic => report.span.start)
    (R := fun first second => first < second)).2 hchain
  exact List.pairwise_map.1 (List.isChain_iff_pairwise.1 hpairs)

namespace Parse

/-- Complaints that are made without a note in between start at different places, one
behind the other. -/
theorem ofText_complaints (text : Text) :
    ∃ parse draft reports, Parse.ofText text = .ok parse ∧
      Draft.ofTokens (TokenList.ofText text) = .ok (draft, reports) ∧
      parse.diagnostics = Diagnostic.sort ((TokenList.ofText text).diagnostics ++ reports) ∧
      ∀ run, run <:+: reports → (∀ report ∈ run, report.isComplaint = true) →
        run.Pairwise fun first second => first.span.start < second.span.start := by
  obtain ⟨reading, hread, -, -, hdraft⟩ := Draft.ofTokens_eq text
  obtain ⟨same, hsame, -, hparse⟩ := ofText_eq text
  obtain rfl : same = reading := Option.some.inj (hsame.symm.trans hread)
  refine ⟨_, _, same.diagnostics, hparse, hdraft, rfl, ?_⟩
  have hrules := Cursor.reporting_complains.read_rule Rule.isComplaint_complaints
    Rule.isComplaint_notes ((TokenList.ofText text).tokens.length + 2)
  have hreports := Cursor.reporting_complains.read hrules Grammar.file
    (by decide) (List.forall_mem_nil _) _ _ _ hread
  obtain ⟨-, hcomplains⟩ := hreports (Cursor.ordered_start text)
  intro run hrun hcomplaints
  exact Diagnostic.pairwise_of_isChain_advances hcomplains.advances hrun hcomplaints

/-- A note that a sequence is empty lets a second complaint through at the bracket. -/
theorem ofText_complaints_repeated :
    (Draft.ofTokens (TokenList.ofText "defvar x = \x7b ]".toList)).map (fun built =>
        (built.2.filter Diagnostic.isComplaint).map fun report => report.span.start) =
      .ok [13, 13] := by
  decide +kernel

end Parse

end TdSyntax
