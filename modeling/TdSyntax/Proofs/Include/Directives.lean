import TdSyntax.Include.SourceFile
import TdSyntax.Proofs.Parse.Lossless
import TdSyntax.Proofs.Tree.Explained
import TdSyntax.Proofs.View.Complete

/-!
# Include statements of a text

Whatever is wrong with a text, its include statements can be told: each string literal
in the tree has a value, since its tokens are tokens of the text.
-/

namespace TdSyntax

theorem TokenList.sound_ofLexer (lexer : Lexer) :
    ∀ token ∈ (TokenList.ofLexer lexer).all, token.Sound := by
  fun_induction TokenList.ofLexer lexer with
  | case1 lexer step heof => exact List.forall_mem_singleton.2 lexer.next_sound
  | case2 lexer step heof list ih => exact List.forall_mem_cons.2 ⟨lexer.next_sound, ih⟩

namespace Draft

theorem mem_tokensAll {parts : List Draft} {part : Draft} (hpart : part ∈ parts) {token : Token}
    (h : token ∈ part.tokens) : token ∈ tokensAll parts := by
  induction parts with
  | nil => cases hpart
  | cons first rest ih =>
      rw [tokensAll, List.mem_append]
      rcases List.mem_cons.1 hpart with rfl | hpart
      · exact .inl h
      · exact .inr (ih hpart)

end Draft

theorem Parse.ofText_tokens (text : Text) :
    ∃ parse, Parse.ofText text = .ok parse ∧ ∀ node ∈ parse.root.descendants,
      ∀ token ∈ node.tokens, ∃ content ∈ tokenize text, token.Shows content := by
  obtain ⟨reading, -, htokens, hparse⟩ := ofText_eq text
  have hroot := Draft.tokens_root htokens
  refine ⟨_, hparse, fun node hnode token htoken => ?_⟩
  have hwithin : ∀ token ∈ (Draft.node .sourceFile
      (reading.drafts ++ [.token (TokenList.ofText text).eof])).tokens, token ∈ tokenize text :=
    fun token htoken => hroot ▸ htoken
  have hparts : ∀ {draft : Draft} {kind parts}, (∀ token ∈ draft.tokens, token ∈ tokenize text) →
      draft.shape? = some (kind, parts) →
        ∀ part ∈ parts, ∀ token ∈ part.tokens, token ∈ tokenize text := by
    intro draft kind parts h hshape part hpart token htoken
    exact h token (Draft.tokens_of_shape hshape ▸ Draft.mem_tokensAll hpart htoken)
  obtain ⟨part, hpart, houtlines⟩ :=
    Draft.exists_of_mem_descendants hparts hwithin (Draft.outlines_root htokens) hnode
  obtain ⟨content, hcontent, hshows⟩ := exists_related houtlines.tokens.flip htoken
  exact ⟨content, hpart content hcontent, hshows⟩

namespace Node

/-- The names of files in the include statements below a node, as string literals. -/
def includePaths (node : Node) : List Node :=
  (node.descendants.filter fun inner => inner.kind == .includeStmt).filterMap
    fun statement => statement.childOfKind? .string

end Node

/-- What a directive says is what a string literal means, and it stands there. -/
structure IncludeDirective.Names (directive : IncludeDirective) (path : Node) : Prop where
  value : StringLiteral.value path = .ok directive.name
  span : path.span = directive.span

namespace Node

theorem includeDirective?_of_path {node path : Node} {name : Text} (hkind : node.kind = .includeStmt)
    (hpath : node.childOfKind? .string = some path) (hname : StringLiteral.value path = .ok name) :
    node.includeDirective? = .ok (some ⟨name, path.span⟩) := by
  simp [includeDirective?, hkind, hpath, hname, bind, Except.bind, pure, Except.pure]

theorem includeDirective?_of_none {node : Node} (hpath : node.childOfKind? .string = none) :
    node.includeDirective? = .ok none := by
  rw [includeDirective?, hpath]
  split <;> rfl

theorem names_of_values {nodes : List Node}
    (h : ∀ node ∈ nodes, ∀ path, node.childOfKind? .string = some path →
      ∃ name, StringLiteral.value path = .ok name) :
    ∃ results, nodes.mapM includeDirective? = .ok results ∧
      List.Forall₂ IncludeDirective.Names results.reduceOption
        ((nodes.filter fun inner => inner.kind == .includeStmt).filterMap
          fun statement => statement.childOfKind? .string) := by
  induction nodes with
  | nil => exact ⟨[], rfl, .nil⟩
  | cons first rest ih =>
      obtain ⟨hfirst, hrest⟩ := List.forall_mem_cons.1 h
      obtain ⟨results, hresults, hnames⟩ := ih hrest
      have hcons {result : Option IncludeDirective} (hresult : first.includeDirective? = .ok result) :
          (first :: rest).mapM includeDirective? = .ok (result :: results) := by
        simp [List.mapM_cons, hresult, hresults, bind, Except.bind, pure, Except.pure]
      by_cases hkind : first.kind = .includeStmt
      · rw [List.filter_cons_of_pos (by simpa using hkind)]
        cases hpath : first.childOfKind? .string with
        | none =>
            simp only [List.filterMap_cons, hpath]
            exact ⟨_, hcons (includeDirective?_of_none hpath), hnames⟩
        | some path =>
            obtain ⟨name, hname⟩ := hfirst path hpath
            simp only [List.filterMap_cons, hpath]
            refine ⟨_, hcons (includeDirective?_of_path hkind hpath hname), ?_⟩
            exact .cons ⟨hname, rfl⟩ hnames
      · rw [List.filter_cons_of_neg (by simpa using hkind)]
        have hnone : first.includeDirective? = .ok none := by simp [includeDirective?, hkind]
        exact ⟨_, hcons hnone, hnames⟩

end Node

namespace SourceFile

/-- The include statements of every file can be told: there is one for each string literal
that stands in such a statement, wherever the statement is. -/
theorem includeDirectives_eq_ok (file : SourceFile) :
    ∃ parse directives, Parse.ofText file.text = .ok parse ∧
      file.includeDirectives = .ok directives ∧
      List.Forall₂ IncludeDirective.Names directives parse.root.includePaths := by
  obtain ⟨parse, hparse, htokens⟩ := Parse.ofText_tokens file.text
  have hvalues : ∀ node ∈ parse.root.descendants, ∀ path, node.childOfKind? .string = some path →
      ∃ name, StringLiteral.value path = .ok name := by
    intro node hnode path hpath
    have hchild : path ∈ node.nodes := List.mem_of_find?_eq_some hpath
    have hbelow : path ∈ parse.root.descendants :=
      Node.descendants_trans hnode (Node.mem_descendants_of_mem_nodes hchild path.mem_descendants_self)
    refine StringLiteral.value_eq_ok fun token hmem => ?_
    obtain ⟨element, helement, htoken⟩ := List.mem_filterMap.1 hmem
    cases element with
    | node child => cases htoken
    | token inner =>
        cases htoken
        obtain ⟨content, hcontent, hshows⟩ :=
          htokens path hbelow _ (Node.mem_tokens_of_mem_elements helement)
        exact ⟨content, hshows, TokenList.sound_ofLexer _ content hcontent⟩
  obtain ⟨results, hresults, hnames⟩ := Node.names_of_values hvalues
  refine ⟨parse, results.reduceOption, hparse, ?_, hnames⟩
  rw [includeDirectives, SourceFile.parse, hparse]
  simp only [bind, Except.bind, Node.includeDirectives, hresults, pure, Except.pure]

end SourceFile

end TdSyntax
