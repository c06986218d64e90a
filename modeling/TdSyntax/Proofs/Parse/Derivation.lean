import TdSyntax.Proofs.Parse.Lossless
import TdSyntax.Proofs.Production.Derived
import TdSyntax.Proofs.Token.Lexical
import TdSyntax.Proofs.View.Complete

/-!
# Texts without errors

If parsing a text reports no error, its tree is a derivation of the grammar.  The
children of each node fit the production of its kind, so what the productions ask for is
there and the delimiters nest.
-/

namespace TdSyntax

namespace Node

variable {node : Node}

theorem Regular.kind_ne (h : node.Regular) : node.kind ≠ .error ∧ node.kind ≠ .tombstone := by
  have hfaulty := Production.not_faulty h.fits
  constructor
  · intro heq
    rw [heq] at hfaulty
    cases hfaulty
  · intro heq
    rw [heq] at hfaulty
    cases hfaulty

theorem Sound.token_kind_ne (h : node.Sound) :
    ∀ token ∈ node.tokens, token.kind ≠ .unknown ∧ token.kind ≠ .exclamation := by
  intro token hmem
  obtain ⟨inner, hinner, hparent⟩ := exists_parent hmem
  have hfaulty := Production.not_contains_of_avoids (h inner hinner).fits
    (Production.avoids_ofKind inner.kind) _ (List.mem_map_of_mem hparent)
  have hkind : Production.faulty.contains token.kind = false := hfaulty
  constructor
  · intro heq
    rw [heq] at hkind
    cases hkind
  · intro heq
    rw [heq] at hkind
    cases hkind

end Node

namespace Parse

theorem ofText_derived {text : Text} {parse : Parse} (hparse : Parse.ofText text = .ok parse)
    (hclean : parse.hasErrors = false) :
    ∃ draft : Draft, draft.Derived ∧ draft.Outlines (.node parse.root) := by
  obtain ⟨reading, hread, htokens, heq⟩ := ofText_eq text
  cases hparse.symm.trans heq
  obtain ⟨hlexed, hnoError⟩ := clean_of_hasErrors hclean
  have heof := TokenList.eof_kind (Lexer.start text)
  obtain ⟨hfits, hderived⟩ := Grammar.run_file_derived
    ⟨heof, rfl, TokenList.ofText_quoted hlexed⟩ hread hnoError
  refine ⟨.node .sourceFile (reading.drafts ++ [.token (TokenList.ofText text).eof]), ?_, ?_⟩
  · refine .node rfl ?_ nofun ?_
    · rw [List.map_append]
      have hkind : [Draft.token (TokenList.ofText text).eof].map Draft.kind = [.eof] :=
        congrArg (fun kind => [kind]) heof
      rw [hkind]
      exact hfits
    · exact List.forall_mem_append.2 ⟨hderived,
        List.forall_mem_singleton.2 (.token (TokenList.eof_sound (Lexer.start text)))⟩
  · exact Draft.outlines_root htokens

/-- A text without errors has a tree in which every node has the children that the
production of its kind asks for, all parts of the views are found and delimiters nest. -/
theorem ofText_derivation {text : Text} {parse : Parse} (hparse : Parse.ofText text = .ok parse)
    (hclean : parse.hasErrors = false) :
    (∀ node ∈ parse.root.descendants, node.kind ≠ .error ∧ node.kind ≠ .tombstone ∧
      (Production.ofKind node.kind).Fits (node.elements.map Element.kind) ∧
      (node.kind = .rangePiece → node.GluedEnd) ∧ node.IsComplete) ∧
    (∀ token ∈ parse.root.tokens, token.kind ≠ .unknown ∧ token.kind ≠ .exclamation) ∧
    Delimiter.Nested (parse.root.tokens.map NodeToken.kind) := by
  obtain ⟨draft, hderived, houtlines⟩ := ofText_derived hparse hclean
  have hsound : parse.root.Sound := hderived.regular houtlines
  refine ⟨fun node hnode => ?_, hsound.token_kind_ne, hsound.nested⟩
  have hregular := hsound node hnode
  have hnodeSound : node.Sound := fun _ hinner => hsound _ (Node.descendants_trans hnode hinner)
  exact ⟨hregular.kind_ne.1, hregular.kind_ne.2, hregular.fits, hregular.glued,
    hnodeSound.isComplete⟩

/-- A range that ends in a negative integer is warned about, which is no error. -/
theorem ofText_derivation_glued :
    ∃ parse, Parse.ofText "defvar x = y{0 -3};".toList = .ok parse ∧
      parse.diagnostics.map Diagnostic.problem = [.gluedRangeEnd] ∧ parse.hasErrors = false ∧
      ∀ node ∈ parse.root.descendants,
        (Production.ofKind node.kind).Fits (node.elements.map Element.kind) ∧ node.IsComplete := by
  have hrun : (Parse.ofText "defvar x = y{0 -3};".toList).toOption.any (fun parse =>
      parse.diagnostics.map Diagnostic.problem == [.gluedRangeEnd] && !parse.hasErrors) = true := by
    decide +kernel
  obtain ⟨parse, hparse⟩ := exists_ofText "defvar x = y{0 -3};".toList
  rw [hparse] at hrun
  simp only [Except.toOption, Option.any_some, Bool.and_eq_true, beq_iff_eq,
    Bool.not_eq_true'] at hrun
  obtain ⟨hproblems, hclean⟩ := hrun
  refine ⟨parse, hparse, hproblems, hclean, fun node hnode => ?_⟩
  obtain ⟨-, -, hfits, -, hcomplete⟩ := (ofText_derivation hparse hclean).1 node hnode
  exact ⟨hfits, hcomplete⟩

end Parse

end TdSyntax
