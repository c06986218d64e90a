import TdSyntax.Proofs.Parse.Lossless
import TdSyntax.Proofs.Reading.Yields
import TdSyntax.Proofs.Term.Lexed
import TdSyntax.Proofs.Tree.Bears

/-!
# Parsing what is printed

If the grammar of files makes some trees of the tokens of a text, and the lexer has nothing
to report, then parsing gives a root with these trees, and reports nothing.
-/

namespace TdSyntax.Parse

theorem ofText_words {text : Text} {words : List Word} {trees : List BareTree}
    (hwords : (TokenList.ofText text).tokens.map Token.word = words)
    (hclean : (TokenList.ofText text).diagnostics = [])
    (h : Grammar.file.Builds words .eof trees true) :
    ∃ parse eof, Parse.ofText text = .ok parse ∧ parse.diagnostics = [] ∧
      parse.root.Bears (.node .sourceFile (trees ++ [.token eof])) := by
  obtain ⟨reading, hread, htokens, hparse⟩ := ofText_eq text
  have hspans : Cursor.Spans ⟨(TokenList.ofText text).tokens, (TokenList.ofText text).eof, none⟩
      words ⟨[], (TokenList.ofText text).eof, none⟩ :=
    ⟨⟨_, (List.append_nil _).symm, hwords⟩, rfl, rfl⟩
  have hgives := h hspans (TokenList.eof_kind _) hread
  refine ⟨_, (TokenList.ofText text).eof.word, hparse, ?_, ?_⟩
  · simp [hclean, hgives.diagnostics, Diagnostic.sort]
  · have hsource : Text.HasAt text 0 (Tree.textAll
        (Draft.treeAll (reading.drafts ++ [.token (TokenList.ofText text).eof]))) :=
      ⟨[], [], by simp [(textAll_eq htokens).2], rfl⟩
    have hbears := Draft.bears_bare
      (.node .sourceFile (reading.drafts ++ [.token (TokenList.ofText text).eof])) [] 0 hsource
    rw [Draft.bare, Draft.bareAll_append, hgives.drafts] at hbears
    exact hbears

end TdSyntax.Parse
