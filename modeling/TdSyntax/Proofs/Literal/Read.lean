import TdSyntax.Proofs.Term.ValueYields

/-!
# Spelled string literals are read

A string literal is read as one node where a value is asked for, and where the name of a
file is.
-/

namespace TdSyntax

def Spelled.tree (spelled : List Spelled) : BareTree :=
  .node .string ((Spelled.words spelled).map .token)

namespace Grammar

variable {words : List Word} {next : Kind} {tree : BareTree} {spelled : List Spelled}

theorem literal_builds (spelled : List Spelled) (next : Kind) :
    string.Builds (Spelled.words spelled) next [Spelled.tree spelled] true :=
  string_builds (Spelled.kind_of_mem_pieces spelled) next

theorem literalValue_builds (spelled : List Spelled) :
    anyValue.Builds (Spelled.words spelled) .semicolon [Spelled.tree spelled] true := by
  have hstrings : strings.Builds (Spelled.words spelled) .semicolon [Spelled.tree spelled] true :=
    grow_alone_builds (literal_builds spelled .semicolon)
      (choose_builds .semicolon rfl (reject_builds .semicolon))
  have hsimple : simpleValue.Builds (Spelled.words spelled) .semicolon [Spelled.tree spelled]
      true := choose_builds .doubleQuote rfl hstrings
  have hsuffix : (suffix .anywhere).GrowBuilds .suffixedValue [Spelled.tree spelled] [] .semicolon
      [Spelled.tree spelled] :=
    growAll_nil_builds (choose_builds .semicolon rfl (reject_builds .semicolon))
  have hsuffixed := growAll_builds hsimple hsuffix
  rw [List.append_nil] at hsuffixed
  exact call_builds (choose_builds .doubleQuote rfl (grow_alone_builds hsuffixed
    (choose_builds .semicolon rfl (reject_builds .semicolon))))

theorem file_builds (kind : Kind) (hkind : Word.headKind words .eof = kind)
    (hstart : statementFirst.contains kind = true)
    (h : (statementByKeyword .topLevel).Builds words .eof [tree] true) :
    file.Builds words .eof [tree] true := by
  have hstatement : (anyStatement .topLevel).Builds words .eof [tree] true := by
    refine call_builds (ifAt_builds ?_)
    rw [hkind, if_pos hstart]
    exact h
  have hround : (ifKind .eof .reject (.ifOk (anyStatement .topLevel) .accept
      (recoverStatement false))).Builds words .eof [tree] true := by
    have hok : (Grammar.ifOk (anyStatement .topLevel) .accept (recoverStatement false)).Builds
        (words ++ []) .eof ([tree] ++ []) true := ifOk_builds hstatement (accept_builds .eof)
    rw [List.append_nil, List.append_nil] at hok
    refine ifAt_builds ?_
    rw [hkind, if_neg]
    · exact hok
    · intro heof
      obtain rfl : Kind.eof = kind := by simpa using heof
      exact absurd hstart (by decide)
  have hlast : (ifKind .eof .reject (.ifOk (anyStatement .topLevel) .accept
      (recoverStatement false))).Builds [] .eof [] false :=
    choose_builds .eof rfl (reject_builds .eof)
  have hall := loop_cons_builds hround (loop_last_builds hlast)
  rw [List.append_nil, List.append_nil] at hall
  exact loop_builds hall

def definitionFront (name : Name) : List Atom := [.mark .defvarKw, .name name, .mark .eq]

theorem definition_builds (name : Name) (spelled : List Spelled) :
    file.Builds (Atom.wordsAll (definitionFront name) ++ (Spelled.words spelled ++
        Atom.wordsAll [.mark .semicolon])) .eof
      [.node .defvarStmt [Atom.leaf (.mark .defvarKw),
        .node .name [Atom.leaf (.name name)], Atom.leaf (.mark .eq),
        Spelled.tree spelled, Atom.leaf (.mark .semicolon)]] true := by
  have hname : declaredName.Builds [⟨.identifier, name.text⟩] .eq
      [.node .name [Atom.leaf (.name name)]] true :=
    choose_builds .identifier rfl (group_builds (bump_builds _ _))
  have heq : (expect .eq).Builds [(Atom.mark .eq).word] .doubleQuote [Atom.leaf (.mark .eq)] true :=
    choose_builds .eq rfl (bump_builds _ _)
  have hend : (expect .semicolon).Builds [(Atom.mark .semicolon).word] .eof
      [Atom.leaf (.mark .semicolon)] true := choose_builds .semicolon rfl (bump_builds _ _)
  have hvalue := seq_builds heq (seq_builds (literalValue_builds spelled) hend)
  have hall := seq_builds (bump_builds (Atom.mark .defvarKw).word _) (seq_builds hname hvalue)
  have hnode : definedVariable.Builds _ .eof _ true := group_builds hall
  exact file_builds .defvarKw rfl (by decide) (choose_builds .defvarKw rfl hnode)

theorem inclusion_builds (spelled : List Spelled) :
    file.Builds (Atom.wordsAll [.mark .includeKw] ++ (Spelled.words spelled ++ Atom.wordsAll []))
      .eof [.node .includeStmt [Atom.leaf (.mark .includeKw), Spelled.tree spelled]] true := by
  have hname : (ifKind .doubleQuote string (missing .fileName)).Builds (Spelled.words spelled) .eof
      [Spelled.tree spelled] true :=
    choose_builds .doubleQuote rfl (literal_builds spelled .eof)
  have hall := seq_builds (bump_builds (Atom.mark .includeKw).word _) hname
  have hnode : inclusion.Builds _ .eof _ true := group_builds hall
  rw [Atom.wordsAll_nil, List.append_nil]
  exact file_builds .includeKw rfl (by decide) (choose_builds .includeKw rfl hnode)

end Grammar

end TdSyntax
