import TdSyntax.Proofs.Include.Directives
import TdSyntax.Proofs.Literal.Integer
import TdSyntax.Proofs.Reading.Singles
import TdSyntax.Proofs.Token.Forms
import TdSyntax.Proofs.View.Shown

/-!
# Integers of a text

Whatever the text is, an integer node of its tree holds one token, an integer literal, and
shows what this literal is worth.
-/

namespace TdSyntax

theorem Rule.singles_integer (rule : Rule) :
    rule.grammar.singles .integer .integerLiteral .full = true := by
  rcases rule with _ | place | place
  · decide +kernel
  · cases place <;> decide +kernel
  · cases place <;> decide +kernel

theorem Token.worth {text : Text} {token : Token} (h : token ∈ tokenize text)
    (hkind : token.kind = .integerLiteral) {value : Option Int} :
    IntegerLiteral.Worth token.text value ↔ value = IntegerLiteral.value? token.text := by
  rcases TokenList.taken_of_mem h token.piece_mem_pieces with heof | htaken
  · have hpiece := PieceKind.token.inj (Piece.mk.inj heof).1
    cases hkind.symm.trans hpiece
  · obtain ⟨lexer, next, problem, front, htakes, -⟩ := htaken
    have hspells := htakes.spells rfl (by rw [hkind]; decide) (by rw [hkind]; decide)
    exact IntegerLiteral.worth_iff (hspells.integer hkind)

namespace Parse

theorem ofText_singles (text : Text) :
    ∃ parse draft, Parse.ofText text = .ok parse ∧
      Draft.Singles .integer .integerLiteral draft ∧ draft.Outlines (.node parse.root) := by
  obtain ⟨reading, hread, htokens, hparse⟩ := ofText_eq text
  have hsingles := Grammar.read_singles (Rule.read_singles (by decide) Rule.singles_integer _)
    (by decide) Grammar.file (show Grammar.file.singles _ _ .full = true by decide +kernel) _
    (Kind.Set.contains_full _) (TokenList.eof_kind (Lexer.start text)) hread
  refine ⟨_, _, hparse, ?_, Draft.outlines_root htokens⟩
  exact .node rfl nofun
    (List.forall_mem_append.2 ⟨hsingles.drafts, List.forall_mem_singleton.2 (.token _)⟩)

/-- An integer node holds an integer literal and nothing else, and its value is the only one
that this literal is worth. -/
theorem ofText_integers (text : Text) :
    ∃ parse, Parse.ofText text = .ok parse ∧
      ∀ node ∈ parse.root.descendants, node.kind = .integer →
        ∃ token literal value, node.elements = [.token token] ∧
          token.kind = .integerLiteral ∧ token.text = .ok literal ∧
          node.Shows (.integer literal value) ∧
          ∀ worth, IntegerLiteral.Worth literal worth ↔ worth = value := by
  obtain ⟨parse, draft, hparse, hsingles, houtlines⟩ := ofText_singles text
  obtain ⟨_, hsame, htokens⟩ := ofText_tokens text
  obtain rfl := Except.ok.inj (hsame.symm.trans hparse)
  refine ⟨_, hparse, fun node hnode hkind => ?_⟩
  obtain ⟨part, hpart, hpartOutlines⟩ :=
    Draft.exists_of_mem_descendants (fun h hshape => h.parts hshape) hsingles houtlines hnode
  obtain ⟨literal, placed, helements, hshows, hliteral, htext⟩ :=
    hpart.outlined hpartOutlines hkind
  have hplaced : placed ∈ node.tokens :=
    Node.mem_tokens_of_mem_elements (helements ▸ List.mem_cons_self)
  obtain ⟨content, hcontent, hsource⟩ := htokens node hnode placed hplaced
  have hcontentKind : content.kind = .integerLiteral := by
    rw [← Draft.shows_kind hsource, Draft.shows_kind hshows, hliteral]
  have hsameText : literal.text = content.text :=
    Except.ok.inj (hshows.text.symm.trans hsource.text)
  refine ⟨placed, literal.text, IntegerLiteral.value? literal.text, helements,
    (Draft.shows_kind hshows).trans hliteral, hshows.text, ?_, fun worth => ?_⟩
  · simp only [Node.Shows, Node.view, hkind, htext]
    rfl
  · rw [hsameText]
    exact Token.worth hcontent hcontentKind

end Parse

end TdSyntax
