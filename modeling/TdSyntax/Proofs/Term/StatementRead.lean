import TdSyntax.Proofs.Term.PartsRead

/-!
# Every printed statement is read as its tree

By induction over statements and blocks at once.  The one token that decides how far a
statement goes is `else`: an open statement is read to its end in front of any other
token only.
-/

namespace TdSyntax.Term

open Grammar

variable (layout : Layout)

def Statement.firstKind : Statement → Kind
  | .assertion _ _ => .assertKw
  | .classDefinition _ _ _ => .classKw
  | .recordDefinition _ _ => .defKw
  | .recordInstances _ _ => .defmKw
  | .recordSet _ _ _ => .defsetKw
  | .definedVariable _ _ => .defvarKw
  | .iteration _ _ _ => .foreachKw
  | .conditional _ _ | .alternative _ _ _ => .ifKw
  | .inclusion _ => .includeKw
  | .letBlock _ _ => .letKw
  | .multiclass _ _ _ _ => .multiclassKw

theorem Statement.headKind_atoms (statement : Statement) (next : Kind) :
    Atom.headKind (statement.atoms layout) next = statement.firstKind := by
  cases statement <;> rfl

theorem Statement.starts (statement : Statement) (next : Kind) :
    statementFirst.contains (Atom.headKind (statement.atoms layout) next) = true := by
  rw [statement.headKind_atoms]
  cases statement <;> simp only [Statement.firstKind] <;> rfl

theorem Statement.allowed (statement : Statement) (h : statement.fits .multiclass = true) :
    notInMulticlass.contains statement.firstKind = false := by
  cases statement with
  | classDefinition name args body => cases h
  | recordSet type name statements => cases h
  | inclusion path => cases h
  | multiclass name args parents statements => cases h
  | _ => simp only [Statement.firstKind]; rfl

theorem Statement.yields_of_keyword {place : StatementPlace} {next : Kind}
    (statement : Statement) (hfits : statement.fits place = true)
    (h : (statementByKeyword place).Yields (statement.atoms layout) next
      [statement.tree layout] true) :
    (anyStatement place).Yields (statement.atoms layout) next [statement.tree layout] true := by
  have hstarts := statement.starts layout next
  cases place with
  | topLevel => exact call_yields (ifAt_pos hstarts h)
  | multiclass =>
      have hallowed := statement.allowed hfits
      rw [← statement.headKind_atoms layout next] at hallowed
      exact call_yields (ifAt_neg hallowed (ifAt_pos hstarts h))

/-! ## Statements one behind the other -/

/-- A statement that is read to its end in front of every token but `else`. -/
structure StatementPart (place : StatementPlace) (part : List Atom) (tree : BareTree) :
    Prop where
  starts : ∀ next, statementFirst.contains (Atom.headKind part next) = true
  yields : ∀ next, next ≠ .elseKw → (anyStatement place).Yields part next [tree] true

section Parts

variable {place : StatementPlace} {parts : List (List Atom)} {trees : List BareTree}
  {body : Grammar} {close : Kind}

theorem loop_statements (hclose : close ≠ .elseKw) (hend : body.Yields [] close [] false)
    (hpart : ∀ part tree next, StatementPart place part tree → next ≠ .elseKw →
      body.Yields part next [tree] true)
    (h : List.Forall₂ (StatementPart place) parts trees) :
    (Grammar.loop body).Yields parts.flatten close trees true := by
  refine loop_yields (loop_parts (· ≠ .elseKw) hclose hend (h.imp fun part tree helement => ?_))
  exact ⟨headKind_ne_of_starts helement.starts rfl, fun next => hpart part tree next helement⟩

theorem statements_yields (h : List.Forall₂ (StatementPart place) parts trees) :
    (statements place).Yields parts.flatten .rightBrace trees true := by
  refine loop_statements (by decide) (ifAt_pos rfl (reject_yields _)) ?_ h
  intro part tree next helement hnext
  have hbrace := headKind_ne_of_starts helement.starts
    (rfl : statementFirst.contains .rightBrace = false) next
  have heof := headKind_ne_of_starts helement.starts
    (rfl : statementFirst.contains .eof = false) next
  exact ifAt_neg (by simp [hbrace, heof]) (ifOk_accept (helement.yields next hnext))

theorem multiclassBody_yields (h : List.Forall₂ (StatementPart .multiclass) parts trees)
    (next : Kind) :
    Grammar.multiclassBody.Yields (multiclassBody parts) next [multiclassTree trees] true := by
  have hstatements := seq_yields (statements_yields h) (@expect_mark .rightBrace rfl next)
  cases h with
  | nil => exact choose .semicolon rfl (node_yields (bump_leaf rfl next))
  | cons hfirst hrest =>
      rename_i part tree parts trees
      have hbrace : Atom.headKind ((part :: parts).flatten ++ [.mark .rightBrace]) next ≠
          .rightBrace := by
        rw [Atom.headKind_append, List.flatten_cons, Atom.headKind_append]
        exact headKind_ne_of_starts hfirst.starts rfl _
      exact choose .leftBrace rfl (node_yields (seq_atom (bump_leaf rfl _)
        (seq_none (optional_none hbrace) hstatements)))

theorem headKind_multiclassBody (parts : List (List Atom)) (next : Kind) :
    Atom.headKind (multiclassBody parts) next = .semicolon ∨
      Atom.headKind (multiclassBody parts) next = .leftBrace := by
  cases parts with
  | nil => exact .inl rfl
  | cons part parts => exact .inr rfl

end Parts

/-! ## The induction -/

mutual

theorem Statement.yields {place : StatementPlace} {next : Kind} (statement : Statement)
    (hfits : statement.fits place = true) (hnext : statement.isOpen = true → next ≠ .elseKw) :
    (anyStatement place).Yields (statement.atoms layout) next [statement.tree layout] true := by
  refine statement.yields_of_keyword layout hfits ?_
  match statement with
  | .assertion condition message =>
      exact choose .assertKw rfl (assertion_yields layout condition message next)
  | .classDefinition name args body =>
      have hargs : Atom.headKind (body.atoms layout) next ≠ .leftAngle := by
        rcases headKind_recordBody layout body next with h | h | h <;> simp [h]
      exact choose .classKw rfl (node_yields (seq_atom (bump_leaf rfl _)
        (seq_atom (declaredName_yields name _)
          (seq_yields (templateArgs_yields layout args hargs) (body.yields layout next)))))
  | .recordDefinition name body =>
      have hname : closesValue .recordName (Atom.headKind (body.atoms layout) next) = true := by
        rcases headKind_recordBody layout body next with h | h | h <;> rw [h] <;> rfl
      exact choose .defKw rfl (node_yields (seq_atom (bump_leaf rfl _)
        (seq_yields (recordName_yields layout name hfits hname) (body.yields layout next))))
  | .recordInstances name parents =>
      have hparents := seq_yields (@parentList_yields layout .semicolon parents (.inl rfl))
        (@expect_mark .semicolon rfl next)
      have hname : closesValue .recordName (Atom.headKind
          (parentList layout parents ++ [.mark .semicolon]) next) = true := by
        rcases headKind_parentList layout parents [.mark .semicolon] next with h | h
        · rw [h]
          rfl
        · rw [h, Atom.headKind_cons, Atom.kind_mark]
          rfl
      exact choose .defmKw rfl (node_yields (seq_atom (bump_leaf rfl _)
        (seq_yields (recordName_yields layout name hfits hname) hparents)))
  | .recordSet type name statements =>
      simp only [Statement.fits, Bool.and_eq_true, beq_iff_eq] at hfits
      obtain ⟨rfl, hfits⟩ := hfits
      have hstatements := seq_yields (statements_yields (Statement.parts statements hfits))
        (@expect_mark .rightBrace rfl next)
      exact choose .defsetKw rfl (node_yields (seq_atom (bump_leaf rfl _)
        (seq_tree (type_yields type _) (seq_atom (declaredName_yields name _)
          (seq_atom (expect_mark rfl _) (ifOk_true (expect_mark rfl _) hstatements))))))
  | .definedVariable name value =>
      exact choose .defvarKw rfl (definition_yields layout name value next)
  | .iteration name range body =>
      simp only [Statement.fits, Bool.and_eq_true] at hfits
      have hbody := seq_atom (@expect_mark .inKw rfl _) (body.yields hfits.2 hnext)
      have hloop := seq_tree (iterator_yields layout name range hfits.1) hbody
      exact choose .foreachKw rfl (node_yields (seq_atom (bump_leaf rfl _) hloop))
  | .conditional condition thenBranch =>
      have hbranch := thenBranch.yields hfits fun _ => hnext rfl
      exact choose .ifKw rfl (node_yields (seq_atom (bump_leaf rfl _)
        (seq_tree (condition.before layout _ rfl) (seq_atom (expect_mark rfl _)
          (seq_last hbranch (optional_none (hnext rfl)))))))
  | .alternative condition thenBranch elseBranch =>
      simp only [Statement.fits, Bool.and_eq_true, Bool.not_eq_true'] at hfits
      have hthen := @Block.yields place .elseKw thenBranch hfits.1.2 (by simp [hfits.1.1])
      have helse := elseBranch.yields hfits.2 hnext
      exact choose .ifKw rfl (node_yields (seq_atom (bump_leaf rfl _)
        (seq_tree (condition.before layout _ rfl) (seq_atom (expect_mark rfl _)
          (seq_tree hthen
            (ifKind_pos rfl (node_yields (seq_atom (bump_leaf rfl _) helse))))))))
  | .inclusion path =>
      exact choose .includeKw rfl (node_yields (seq_atom (bump_leaf rfl _)
        (ifKind_pos rfl (string_yields path next))))
  | .letBlock items body =>
      exact choose .letKw rfl (node_yields (seq_atom (bump_leaf rfl _)
        (seq_tree (node_yields (letItems_yields layout items))
          (seq_atom (expect_mark rfl _) (body.yields hfits hnext)))))
  | .multiclass name args parents statements =>
      simp only [Statement.fits, Bool.and_eq_true, beq_iff_eq] at hfits
      obtain ⟨rfl, hfits⟩ := hfits
      have hbody := multiclassBody_yields (Statement.parts statements hfits) next
      have hkind := headKind_multiclassBody (Statement.atomsAll layout statements) next
      have hparents := parentList_yields layout parents hkind
      have hargs : Atom.headKind (parentList layout parents ++
          multiclassBody (Statement.atomsAll layout statements)) next ≠ .leftAngle := by
        rcases headKind_parentList layout parents
          (multiclassBody (Statement.atomsAll layout statements)) next with h | h
        · simp [h]
        · rcases hkind with h' | h' <;> simp [h, h']
      exact choose .multiclassKw rfl (node_yields (seq_atom (bump_leaf rfl _)
        (seq_atom (declaredName_yields name _) (seq_yields (templateArgs_yields layout args hargs)
          (seq_yields hparents hbody)))))

theorem Block.yields {place : StatementPlace} {next : Kind} (block : Block)
    (hfits : block.fits place = true) (hnext : block.isOpen = true → next ≠ .elseKw) :
    (Grammar.block place).Yields (block.atoms layout) next [block.tree layout] true := by
  match block with
  | .single statement =>
      have hstarts := statement.starts layout
      have hbrace := headKind_ne_of_starts hstarts
        (rfl : statementFirst.contains .leftBrace = false) next
      exact ifKind_neg hbrace
        (ifAt_pos (hstarts next) (node_yields (statement.yields hfits hnext)))
  | .braced statements =>
      exact choose .leftBrace rfl (node_yields (seq_atom (bump_leaf rfl _)
        (seq_yields (statements_yields (Statement.parts statements hfits)) (expect_mark rfl next))))

theorem Statement.parts {place : StatementPlace} (statements : List Statement)
    (hfits : Statement.fitAll place statements = true) :
    List.Forall₂ (StatementPart place) (Statement.atomsAll layout statements)
      (Statement.treeAll layout statements) := by
  match statements with
  | [] => exact .nil
  | statement :: statements =>
      simp only [Statement.fitAll, Bool.and_eq_true] at hfits
      refine .cons ⟨statement.starts layout, fun next hnext => ?_⟩
        (Statement.parts statements hfits.2)
      exact statement.yields hfits.1 fun _ => hnext

end

end TdSyntax.Term
