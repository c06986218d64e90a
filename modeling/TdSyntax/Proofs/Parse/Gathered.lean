import TdSyntax.Proofs.Parse.Lossless
import TdSyntax.Proofs.Reading.Gathered

/-!
# Statements are found again

Whatever the text is, no keyword of a statement is hidden: each one begins the node of its
statement or is a child of an error node.  Between statements, tokens that fit nowhere are
gathered: strays that stand together are a single one.
-/

namespace TdSyntax.Parse

theorem exists_gathered (text : Text) :
    ∃ parse draft, Parse.ofText text = .ok parse ∧ Draft.Gathered draft ∧
      draft.Outlines (.node parse.root) := by
  obtain ⟨reading, hread, htokens, hparse⟩ := ofText_eq text
  have heof : (TokenList.ofText text).eof.kind = .eof := TokenList.eof_kind (Lexer.start text)
  obtain ⟨hgathers, hapart⟩ := Grammar.run_gathered heof hread
  have hquiet : (Draft.token (TokenList.ofText text).eof).isKeyword = false := by
    rw [Draft.isKeyword, heof]
    rfl
  have hstray : (Draft.token (TokenList.ofText text).eof).isStray = false := rfl
  refine ⟨_, _, hparse, .node rfl (.plain rfl ?_) (fun _ => ?_) ?_, Draft.outlines_root htokens⟩
  · exact List.forall_mem_append.2 ⟨hgathers.fits, List.forall_mem_singleton.2 hquiet⟩
  · exact hapart.snoc (by rw [hstray, Bool.and_false])
  · exact List.forall_mem_append.2 ⟨hgathers.drafts, List.forall_mem_singleton.2 (.token _)⟩

/-- In the tree of every text, a keyword of a statement is a child of an error node or the first
child of a node that it opens, and such nodes begin with their keyword.  Where statements are
listed, error nodes of tokens only are never side by side. -/
theorem ofText_gathered (text : Text) :
    ∃ parse, Parse.ofText text = .ok parse ∧
      (∀ token ∈ parse.root.tokens, Grammar.statementFirst.contains token.kind = true →
        ∃ node ∈ parse.root.descendants, .token token ∈ node.elements ∧
          (node.kind = .error ∨
            node.elements.head? = some (.token token) ∧
              node.kind.opener? = some token.kind)) ∧
      (∀ node ∈ parse.root.descendants, ∀ keyword, node.kind.opener? = some keyword →
        ∃ token, node.elements.head? = some (.token token) ∧ token.kind = keyword) ∧
      ∀ node ∈ parse.root.descendants, node.kind.listsStatements = true →
        ∀ run, run <:+: node.elements → (∀ child ∈ run, child.isStray = true) →
          run.length ≤ 1 := by
  obtain ⟨parse, draft, hparse, hgathered, houtlines⟩ := exists_gathered text
  have hparts {node : Node} (hnode : node ∈ parse.root.descendants) :
      ∃ parts, Draft.Opened node.kind parts ∧
        (node.kind.listsStatements = true → Draft.Apart parts) ∧
        List.Forall₂ Draft.Outlines parts node.elements := by
    obtain ⟨part, hpart, hpartOutlines⟩ := Draft.exists_of_mem_descendants
      (fun hdraft hshape => (hdraft.shape hshape).2.2) hgathered houtlines hnode
    cases hpartOutlines with
    | node hshape hkind helements htext =>
        subst hkind
        obtain ⟨hopened, hapart, -⟩ := hpart.shape hshape
        exact ⟨_, hopened, hapart, helements⟩
  refine ⟨parse, hparse, ?_, ?_, ?_⟩
  · intro token htoken hkeyword
    obtain ⟨node, hnode, hmem⟩ := Node.exists_parent htoken
    obtain ⟨parts, hopened, -, helements⟩ := hparts hnode
    exact ⟨node, hnode, hmem, hopened.of_mem helements hmem hkeyword⟩
  · intro node hnode keyword hkind
    obtain ⟨parts, hopened, -, helements⟩ := hparts hnode
    exact hopened.exists_keyword helements hkind
  · intro node hnode hlists run hrun hstrays
    obtain ⟨parts, -, hapart, helements⟩ := hparts hnode
    exact (hapart hlists).length_le_one helements hrun hstrays

end TdSyntax.Parse
