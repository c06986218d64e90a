import TdSyntax.Proofs.Diagnostic.Order
import TdSyntax.Proofs.Parse.Lossless
import TdSyntax.Proofs.Reading.Fenced
import TdSyntax.Proofs.Token.Lexical
import TdSyntax.Proofs.Tree.Wrappers
import TdSyntax.View.Views

/-!
# Statements in the wrong place

Of the statements in a multiclass, those that may not stand there are in error nodes,
each in one of its own, and every such node is reported once.
-/

namespace TdSyntax

/-- A structural report tells that the statement in an error node is misplaced: it
quotes the first token of the statement and stands at its place. -/
def Diagnostic.Tells (diagnostic : Diagnostic) (error : Node) : Prop :=
  ∃ statement keyword text, error.Wraps statement ∧ statement.firstToken? = some keyword ∧
    Grammar.notInMulticlass.contains keyword.kind = true ∧ keyword.text = .ok text ∧
    diagnostic = ⟨.notInMulticlass text, keyword.span⟩

theorem Node.WrapsFrom.tells {error : Node} {keyword : Token} (h : error.WrapsFrom keyword) :
    keyword.misplaced.Tells error := by
  obtain ⟨statement, placed, hwraps, hfirst, hshows, hkeyword⟩ := h
  have hkind : placed.kind = keyword.kind := by rw [NodeToken.kind, hshows.leaf, Token.leaf]
  refine ⟨statement, placed, keyword.text, hwraps, hfirst, hkind ▸ hkeyword, hshows.text, ?_⟩
  rw [Token.misplaced, hshows.span]

namespace Parse

theorem ofText_fenced (text : Text) :
    ∃ parse draft, Parse.ofText text = .ok parse ∧ Draft.Fenced draft ∧
      draft.Outlines (.node parse.root) ∧
      parse.diagnostics.filter Diagnostic.isStructural = draft.wrapped.map Token.misplaced := by
  obtain ⟨reading, hread, htokens, hparse⟩ := ofText_eq text
  have hfences := Grammar.read_fences (Rule.read_fences _) (fun _ => Rule.read_free _)
    Grammar.file (by decide +kernel) (by decide +kernel) (List.forall_mem_nil _)
    _ _ _ (TokenList.eof_kind (Lexer.start text)) hread
  have hfenced : Draft.Fenced
      (.node .sourceFile (reading.drafts ++ [.token (TokenList.ofText text).eof])) :=
    .node rfl (by decide) nofun
      (List.forall_mem_append.2 ⟨hfences.fenced, List.forall_mem_singleton.2 (.token _)⟩)
  refine ⟨_, _, hparse, hfenced, Draft.outlines_root htokens, ?_⟩
  have hall := Draft.tokens_root htokens
  have hlexical : (TokenList.ofText text).diagnostics.filter Diagnostic.isStructural = [] := by
    refine List.filter_eq_nil_iff.2 fun diagnostic hmem => ?_
    simp [Diagnostic.isStructural, TokenList.ofText_diagnostics text diagnostic hmem]
  have hwrapped : (Draft.node .sourceFile
      (reading.drafts ++ [.token (TokenList.ofText text).eof])).wrapped =
        Draft.wrappedAll reading.drafts := by
    rw [Draft.wrapped_of_shape rfl (by decide), Draft.wrappedAll_append]
    exact List.append_nil _
  simp only [Diagnostic.filter_sort, List.filter_append, hlexical, List.nil_append]
  rw [hwrapped]
  refine Diagnostic.sort_eq_of_perm hfences.reports ?_
  rw [← hwrapped, List.pairwise_map]
  have hsublist := hfenced.wrapped_sublist
  rw [hall] at hsublist
  refine ((tokenize_pairwise_precedes text).sublist hsublist).imp ?_
  intro first second hprecedes
  exact Nat.lt_of_lt_of_le hprecedes.start_lt_stop hprecedes.stop_le_start

/-- In the body of a multiclass, a barred statement is in an error node, and all other
statements may stand there.  An error node holds tokens only or a single barred
statement, and the structural reports are one for each of those statements. -/
theorem ofText_misplaced (text : Text) :
    ∃ parse, Parse.ofText text = .ok parse ∧
      (∀ body ∈ parse.root.descendants, body.kind = .multiclassBody →
        (∀ inner ∈ body.descendants, inner.kind.isBarred = true →
          ∃ error ∈ body.descendants, error.kind = .error ∧ inner ∈ error.descendants) ∧
        ∀ inner, body.Encloses inner → ∀ statement ∈ inner.statements,
          statement.kind.isMulticlassStatement = true) ∧
      (∀ error ∈ parse.root.descendants, error.kind = .error →
        (error.nodes ≠ [] ↔ ∃ statement, error.Wraps statement)) ∧
      List.Forall₂ Diagnostic.Tells (parse.diagnostics.filter Diagnostic.isStructural)
        (parse.root.descendants.filter Node.isWrapper) := by
  obtain ⟨parse, draft, hparse, hfenced, houtlines, hreports⟩ := ofText_fenced text
  refine ⟨parse, hparse, ?_, ?_, ?_⟩
  · intro body hbody hkind
    obtain ⟨part, hpart, hpartOutlines⟩ := hfenced.of_mem_descendants houtlines hbody
    exact hpart.multiclassBody hpartOutlines hkind
  · intro error herror hkind
    obtain ⟨part, hpart, hpartOutlines⟩ := hfenced.of_mem_descendants houtlines herror
    constructor
    · intro hnodes
      exact (hpart.nodes_error hpartOutlines hkind).resolve_left hnodes
    · rintro ⟨statement, helements, -⟩
      simp [Node.nodes, helements, Element.node?]
  · rw [hreports, List.forall₂_map_left_iff]
    exact (hfenced.wrappers houtlines).flip.imp fun _ _ => Node.WrapsFrom.tells

end Parse

end TdSyntax
