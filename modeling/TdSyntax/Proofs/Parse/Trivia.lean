import TdSyntax.Proofs.Diagnostic.Order
import TdSyntax.Proofs.Parse.Lossless
import TdSyntax.Proofs.Reading.Simulation
import TdSyntax.Proofs.Token.Lexical

/-!
# Trivia cannot change a parse

Two texts whose tokens agree in kind and text have the same parse up to trivia and
offsets, and what is reported beyond the lexer is the same at the same tokens.
-/

namespace TdSyntax

theorem Cursor.matches_start {first second : Text}
    (h : (tokenize first).map Token.word = (tokenize second).map Token.word) :
    Cursor.Matches ((tokenize first).zip (tokenize second))
      ⟨(TokenList.ofText first).tokens, (TokenList.ofText first).eof, none⟩
      ⟨(TokenList.ofText second).tokens, (TokenList.ofText second).eof, none⟩ := by
  have hlength : (TokenList.ofText first).tokens.length =
      (TokenList.ofText second).tokens.length := by
    simpa [tokenize, TokenList.all] using congrArg List.length h
  exact matches_zip hlength (by simp)

namespace Diagnostic

def isBeyondLexer (diagnostic : Diagnostic) : Bool := diagnostic.stage != .lexical

theorem filter_isBeyondLexer_append {first second : List Diagnostic}
    (h : ∀ diagnostic ∈ first, diagnostic.stage = .lexical) :
    (first ++ second).filter isBeyondLexer = second.filter isBeyondLexer := by
  have hnone : first.filter isBeyondLexer = [] :=
    List.filter_eq_nil_iff.2 fun diagnostic hmem => by simp [isBeyondLexer, h diagnostic hmem]
  rw [List.filter_append, hnone, List.nil_append]

end Diagnostic

namespace Parse

def beyondLexer (parse : Parse) : List Diagnostic :=
  parse.diagnostics.filter Diagnostic.isBeyondLexer

theorem ofText_trivia {first second : Text}
    (h : (tokenize first).map Token.word = (tokenize second).map Token.word) :
    ∃ one two tree, Parse.ofText first = .ok one ∧ Parse.ofText second = .ok two ∧
      one.tree.tree.bare = .ok tree ∧ two.tree.tree.bare = .ok tree ∧
      List.Forall₂ (Diagnostic.Corresponds ((tokenize first).zip (tokenize second)))
        one.beyondLexer two.beyondLexer := by
  have hpairs := Token.matching_zip h (tokenize_pairwise_precedes first)
    (tokenize_pairwise_precedes second)
  obtain ⟨reading, hread, -, hfirst⟩ := ofText_eq first
  obtain ⟨reading', hread', -, hsecond⟩ := ofText_eq second
  have hstart := Cursor.matches_start h
  obtain ⟨other, hother, hmatch⟩ :=
    Grammar.run_follows hpairs Grammar.file _ _ reading hstart hread
  obtain rfl : reading' = other := Option.some.inj (hread'.symm.trans hother)
  have heof : (TokenList.ofText first).eof.word = (TokenList.ofText second).eof.word :=
    hpairs.word _ hstart.eof
  refine ⟨_, _, .node .sourceFile (Draft.bareAll
    (reading.drafts ++ [.token (TokenList.ofText first).eof])), hfirst, hsecond, ?_, ?_, ?_⟩
  · exact Draft.bare_tree (.node .sourceFile _)
  · rw [Draft.bareAll_append, hmatch.drafts, Draft.bareAll, Draft.bare, heof]
    have htree := Draft.bare_tree (.node .sourceFile
      (reading'.drafts ++ [.token (TokenList.ofText second).eof]))
    rw [Draft.bare, Draft.bareAll_append] at htree
    exact htree
  · simp only [beyondLexer, Diagnostic.filter_sort,
      Diagnostic.filter_isBeyondLexer_append (TokenList.ofText_diagnostics _)]
    refine Diagnostic.forall₂_sort ?_ fun hone htwo => hone.start_le_iff hpairs htwo
    refine List.rel_filter ?_ hmatch.diagnostics
    intro one two hcorresponds
    simp [Diagnostic.isBeyondLexer, Diagnostic.stage, hcorresponds.problem]

theorem ofText_trivia_comment :
    (tokenize "def A".toList).map Token.word =
        (tokenize "def /* b */ A // c".toList).map Token.word ∧
      ∃ one two tree, Parse.ofText "def A".toList = .ok one ∧
        Parse.ofText "def /* b */ A // c".toList = .ok two ∧
        one.tree.tree.bare = .ok tree ∧ two.tree.tree.bare = .ok tree ∧
        List.Forall₂
          (Diagnostic.Corresponds
            ((tokenize "def A".toList).zip (tokenize "def /* b */ A // c".toList)))
          one.beyondLexer two.beyondLexer :=
  ⟨by decide +kernel, ofText_trivia (by decide +kernel)⟩

end Parse

end TdSyntax
