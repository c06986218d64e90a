import TdSyntax.Proofs.Diagnostic.Order
import TdSyntax.Proofs.Parse.Lossless
import TdSyntax.Proofs.Production.Ranges
import TdSyntax.Proofs.Tree.RangeEnds

/-!
# The ranges of a text

The tree of a text is outlined by a draft whose ranges have the parts of a range, and the
reports of glued ends are those of the glued ends in this draft.
-/

namespace TdSyntax

namespace Draft

/-- A draft of a whole text: it has the tokens of the text and outlines the tree, and the
reports of glued ends are those of its glued ends. -/
structure Reports (draft : Draft) (text : Text) (parse : Parse) : Prop where
  ranged : draft.Ranged
  tokens : draft.tokens = tokenize text
  outlines : draft.Outlines (.node parse.root)
  reports : parse.diagnostics.filter Diagnostic.isGluedEnd =
    Diagnostic.sort (draft.glued.map Token.gluedEnd)

namespace Reports

variable {draft : Draft} {text : Text} {parse : Parse} (h : draft.Reports text parse)
include h

theorem precedes : draft.tokens.Pairwise Token.Precedes :=
  h.tokens ▸ tokenize_pairwise_precedes text

theorem mem_iff {warning : Diagnostic} :
    (warning ∈ parse.diagnostics ∧ warning.problem = .gluedRangeEnd) ↔
      ∃ literal ∈ draft.glued, literal.gluedEnd = warning := by
  have hfilter : warning ∈ parse.diagnostics.filter Diagnostic.isGluedEnd ↔
      warning ∈ parse.diagnostics ∧ warning.problem = .gluedRangeEnd := by
    simp [Diagnostic.isGluedEnd]
  rw [← hfilter, h.reports, Diagnostic.sort, List.mem_mergeSort, List.mem_map]

theorem lies {piece : Node} (hpiece : piece ∈ parse.root.descendants) :
    ∃ part : Draft, draft.Lies part ∧ part.Outlines (.node piece) :=
  exists_of_mem_descendants (Lies.parts (Token.nodup_of_precedes h.precedes)) h.ranged.lies
    h.outlines hpiece

theorem tells {piece : Node} (hpiece : piece ∈ parse.root.descendants)
    (hkind : piece.kind = .rangePiece) : draft.Tells piece := by
  obtain ⟨part, hpart, houtlines⟩ := h.lies hpiece
  exact hpart.tells h.precedes houtlines hkind

end Reports

end Draft

theorem Parse.ofText_ranged (text : Text) :
    ∃ parse draft, Parse.ofText text = .ok parse ∧ Draft.Reports draft text parse := by
  obtain ⟨reading, hread, htokens, hparse⟩ := ofText_eq text
  have hranges := Grammar.read_ranges (Rule.read_refuses _) (Rule.read_ranges _)
    (fun _ _ => Rule.read_value_makesOperand) Grammar.file
    (show Grammar.file.readsRanges .full = true by decide +kernel) (fun _ hbody => nomatch hbody)
    (by decide +kernel) (List.forall_mem_nil _) _
    (Kind.Set.contains_full _) (TokenList.eof_kind (Lexer.start text)) hread
  refine ⟨_, _, hparse, ?_, Draft.tokens_root htokens, Draft.outlines_root htokens, ?_⟩
  · exact .node rfl nofun
      (List.forall_mem_append.2 ⟨hranges.ranged, List.forall_mem_singleton.2 (.token _)⟩)
  · have hlexical : (TokenList.ofText text).diagnostics.filter Diagnostic.isGluedEnd = [] := by
      refine List.filter_eq_nil_iff.2 fun diagnostic hmem hglued => ?_
      have hstage := TokenList.ofText_diagnostics text diagnostic hmem
      rw [Diagnostic.isGluedEnd, beq_iff_eq] at hglued
      rw [Diagnostic.stage, hglued] at hstage
      cases hstage
    have hglued : (Draft.node .sourceFile
        (reading.drafts ++ [.token (TokenList.ofText text).eof])).glued =
          Draft.gluedAll reading.drafts := by
      rw [Draft.glued_of_shape rfl, Draft.gluedAll_append]
      simp [Draft.gluedAll, Draft.glued, Draft.gluedEnd?]
    simp only [Diagnostic.filter_sort, List.filter_append, hlexical, List.nil_append]
    rw [hranges.reports, hglued]

end TdSyntax
