import TdSyntax.Parse
import TdSyntax.Proofs.Event.Written
import TdSyntax.Proofs.Reading.Totality
import TdSyntax.Proofs.Token.Lexical
import TdSyntax.Proofs.Tree.Places

/-!
# Parsing is total and lossless

Every text has a parse.  Its tree covers the text, and the tokens in it are those of
the lexer, in their order and with their places and their trivia.
-/

namespace TdSyntax

namespace NodeToken

end NodeToken

theorem Draft.ofTokens_eq (text : Text) :
    ∃ reading, Grammar.file.run
        ⟨(TokenList.ofText text).tokens, (TokenList.ofText text).eof, none⟩ = some reading ∧
      Draft.tokensAll reading.drafts = (TokenList.ofText text).tokens ∧
      Draft.WellFormedAll reading.drafts ∧
      Draft.ofTokens (TokenList.ofText text) = .ok
        (.node .sourceFile (reading.drafts ++ [.token (TokenList.ofText text).eof]),
          reading.diagnostics) := by
  have heof := TokenList.eof_kind (Lexer.start text)
  obtain ⟨reading, hread, htokens, hformed, hdone, hend⟩ :=
    Grammar.run_file heof (TokenList.kind_ne_eof (Lexer.start text)) none
  have hcurrent : reading.cursor.current = (TokenList.ofText text).eof := by
    rw [Cursor.current, hdone]
    exact hend
  have hkind : reading.cursor.kind = .eof := by
    rw [Cursor.kind, hcurrent]
    exact heof
  refine ⟨reading, hread, htokens, hformed, ?_⟩
  simp only [Draft.ofTokens]
  rw [show Grammar.file.run ⟨(TokenList.ofText text).tokens, (TokenList.ofText text).eof, none⟩ =
    some reading from hread]
  simp only [hkind, if_true, hcurrent]

namespace Parse

/-- What parsing gives: the reading of the tokens by the grammar of files, as a
tree, and the diagnostics of both stages in order. -/
theorem ofText_eq (text : Text) :
    ∃ reading, Grammar.file.run
        ⟨(TokenList.ofText text).tokens, (TokenList.ofText text).eof, none⟩ = some reading ∧
      Draft.tokensAll reading.drafts = (TokenList.ofText text).tokens ∧
      Parse.ofText text = .ok
        ⟨⟨.sourceFile,
            Draft.treeAll (reading.drafts ++ [.token (TokenList.ofText text).eof]), text⟩,
          Diagnostic.sort ((TokenList.ofText text).diagnostics ++ reading.diagnostics)⟩ := by
  obtain ⟨reading, hread, htokens, hformed, hdraft⟩ := Draft.ofTokens_eq text
  have hall : Draft.tokensAll (reading.drafts ++ [.token (TokenList.ofText text).eof]) =
      tokenize text := by
    rw [Draft.tokensAll_append, htokens]
    rfl
  have hwhole : (Draft.node .sourceFile
      (reading.drafts ++ [.token (TokenList.ofText text).eof])).WellFormed :=
    ⟨by simp, Draft.wellFormedAll_append.2 ⟨hformed, trivial, trivial⟩⟩
  have htiles := tokenize_tiles text
  rw [← hall] at htiles
  obtain ⟨log, place, hwrite, hreplay⟩ := Draft.replay_write hwhole htiles.1 htiles.2
  refine ⟨reading, hread, htokens, ?_⟩
  simp only [Parse.ofText, hdraft, hwrite, hreplay, bind, Except.bind, pure, Except.pure]

theorem exists_ofText (text : Text) : ∃ parse, Parse.ofText text = .ok parse := by
  obtain ⟨reading, -, -, hparse⟩ := ofText_eq text
  exact ⟨_, hparse⟩

theorem clean_of_hasErrors {text : Text} {tree : SourceTree} {reports : List Diagnostic}
    (h : hasErrors ⟨tree, Diagnostic.sort ((TokenList.ofText text).diagnostics ++ reports)⟩ =
      false) :
    (TokenList.ofText text).diagnostics = [] ∧
      ∀ diagnostic ∈ reports, diagnostic.isError = false := by
  have hnoError : ∀ diagnostic ∈ (TokenList.ofText text).diagnostics ++ reports,
      diagnostic.isError = false := by
    intro diagnostic hmem
    rw [← Bool.not_eq_true]
    intro herror
    have hany : (Diagnostic.sort _).any Diagnostic.isError = true :=
      List.any_eq_true.2 ⟨diagnostic, List.mem_mergeSort.2 hmem, herror⟩
    cases hany.symm.trans h
  rw [List.forall_mem_append] at hnoError
  refine ⟨List.eq_nil_iff_forall_not_mem.2 fun diagnostic hmem => ?_, hnoError.2⟩
  cases (TokenList.ofText_isError text diagnostic hmem).symm.trans (hnoError.1 diagnostic hmem)

theorem textAll_eq {text : Text} {drafts : List Draft}
    (h : Draft.tokensAll drafts = (TokenList.ofText text).tokens) :
    Tree.leavesAll (Draft.treeAll (drafts ++ [.token (TokenList.ofText text).eof])) =
        (tokenize text).map Token.leaf ∧
      Tree.textAll (Draft.treeAll (drafts ++ [.token (TokenList.ofText text).eof])) = text := by
  have hleaves : Tree.leavesAll (Draft.treeAll (drafts ++ [.token (TokenList.ofText text).eof])) =
      (tokenize text).map Token.leaf := by
    rw [Draft.leavesAll_treeAll, Draft.tokensAll_append, h]
    rfl
  refine ⟨hleaves, ?_⟩
  rw [Tree.textAll, hleaves, List.flatMap_map]
  exact (tokenize_tiles text).2

end Parse

end TdSyntax
