import TdSyntax.Proofs.Literal.Read
import TdSyntax.Proofs.Parse.Printed
import TdSyntax.Proofs.Term.ValueMeant
import TdSyntax.Proofs.Tree.BareNodes

/-!
# Values of spelled string literals

Whatever spelling is chosen for each character, a string literal is lexed without a report,
parsed as a single node, and its value is the text that is spelled.
-/

namespace TdSyntax

namespace Spelled

open Term

def between (front back : List Atom) (spelled : List Spelled) : Text :=
  front.flatMap (fun atom => atom.text ++ [' ']) ++
    (literal spelled ++ if back = [] then [] else ' ' :: Atom.spaced back)

theorem ofText_between (front back : List Atom) (spelled : List Spelled) :
    (TokenList.ofText (between front back spelled)).tokens.map Token.word =
        Atom.wordsAll front ++ (words spelled ++ Atom.wordsAll back) ∧
      (TokenList.ofText (between front back spelled)).diagnostics = [] := by
  have hstart : (Lexer.start (between front back spelled)).Stands (between front back spelled) :=
    ⟨rfl, rfl, fun _ => rfl⟩
  obtain ⟨one, hfront, hone⟩ := Atom.emits_before front
    (Lexeme.trivia?_eq_none (by decide) (by decide) (by decide)) hstart
  obtain ⟨two, hliteral, htwo⟩ := Lexer.emits_literal (Lexer.givesPieces spelled _)
    (Atom.parts_spaced back) (by simpa using hone)
  obtain ⟨three, hback, hrest, hopen⟩ := Atom.emits_spaced back htwo
  obtain ⟨htokens, hclean⟩ := (hfront.append (hliteral.append hback)).ofLexer
  obtain ⟨hnone, hsilent⟩ := Lexer.ofLexer_of_rest_nil hrest hopen
  rw [hnone, List.map_nil, List.append_nil] at htokens
  exact ⟨htokens, hclean.trans hsilent⟩

/-- A text is parsed without a report, and to a single node for a string literal, which has
the given tokens and value. -/
def ParsedIn (spelled : List Spelled) (text : Text) : Prop :=
  ∃ parse node, Parse.ofText text = .ok parse ∧ parse.diagnostics = [] ∧
    parse.root.descendants.filter (fun inner => inner.kind == .string) = [node] ∧
    node.Bears (tree spelled) ∧ StringLiteral.value node = .ok (content spelled)

theorem parsedIn_between {front back : List Atom} {spelled : List Spelled} {statement : BareTree}
    (h : Grammar.file.Builds (Atom.wordsAll front ++ (words spelled ++ Atom.wordsAll back)) .eof
      [statement] true)
    (hnodes : statement.nodes.filter (fun inner => inner.kind == .string) = [tree spelled]) :
    ParsedIn spelled (between front back spelled) := by
  obtain ⟨hwords, hclean⟩ := ofText_between front back spelled
  obtain ⟨parse, eof, hparse, hquiet, hbears⟩ := Parse.ofText_words hwords hclean h
  have hstrings := Node.bears_filter_kind hbears .string
  have hall : (BareTree.node .sourceFile ([statement] ++ [.token eof])).nodes.filter
      (fun inner => inner.kind == .string) = [tree spelled] := by
    rw [← hnodes]
    simp [BareTree.nodes, BareTree.nodesAll, BareTree.kind]
  rw [hall] at hstrings
  obtain ⟨node, rest, hnode, hnil, hfilter⟩ := List.forall₂_cons_right_iff.1 hstrings
  cases hnil
  exact ⟨parse, node, hparse, hquiet, hfilter, hnode, value_of_spelled hnode⟩

theorem parsedIn_definition (name : Name) (spelled : List Spelled) :
    ParsedIn spelled
      ("defvar ".toList ++ name.text ++ " = ".toList ++ literal spelled ++ " ;".toList) := by
  have hparsed := parsedIn_between (Grammar.definition_builds name spelled)
    (by simp [BareTree.nodes, BareTree.nodesAll, BareTree.kind, Atom.leaf, tree])
  have htext : between (Grammar.definitionFront name) [.mark .semicolon] spelled =
      "defvar ".toList ++ name.text ++ " = ".toList ++ literal spelled ++ " ;".toList := by
    simp [between, Grammar.definitionFront, Atom.text, Atom.word, Atom.spaced, Kind.spelling?]
  exact htext ▸ hparsed

theorem parsedIn_inclusion (spelled : List Spelled) :
    ParsedIn spelled ("include ".toList ++ literal spelled) := by
  have hparsed := parsedIn_between (Grammar.inclusion_builds spelled)
    (by simp [BareTree.nodes, BareTree.nodesAll, BareTree.kind, Atom.leaf, tree])
  have htext : between [.mark .includeKw] [] spelled = "include ".toList ++ literal spelled := by
    simp [between, Atom.text, Atom.word, Kind.spelling?]
  exact htext ▸ hparsed

/-- However the characters of a text are spelled, the string literal is lexed without a
report as its two quotes and the pieces in between, and it is parsed as a single node whose
value is the text: as the value of a variable, and as the name of a file. -/
theorem literal_roundTrip (name : Name) (spelled : List Spelled) :
    ((TokenList.ofText (literal spelled)).tokens.map Token.word =
        Quoted.quote :: (pieces spelled ++ [Quoted.quote]) ∧
      (∀ piece ∈ pieces spelled, piece.kind = .stringContent ∨ piece.kind = .escapeSequence) ∧
      (TokenList.ofText (literal spelled)).diagnostics = []) ∧
    ParsedIn spelled
      ("defvar ".toList ++ name.text ++ " = ".toList ++ literal spelled ++ " ;".toList) ∧
    ParsedIn spelled ("include ".toList ++ literal spelled) := by
  have halone := ofText_between [] [] spelled
  have htext : between [] [] spelled = literal spelled := List.append_nil _
  have hwords : Atom.wordsAll [] ++ (words spelled ++ Atom.wordsAll []) = words spelled := by
    simp
  rw [htext, hwords] at halone
  exact ⟨⟨halone.1, kind_of_mem_pieces spelled, halone.2⟩, parsedIn_definition name spelled,
    parsedIn_inclusion spelled⟩

end Spelled

end TdSyntax
