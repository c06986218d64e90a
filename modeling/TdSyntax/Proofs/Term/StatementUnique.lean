import TdSyntax.Proofs.Term.StatementMeaning
import TdSyntax.Proofs.Term.ValueUnique

/-!
# A node is read as one statement

As for values, the kind of a node tells the form, and its view the parts.  Only the
two forms of a conditional share a kind; they differ in whether there is an `else`.
-/

namespace TdSyntax

open Relator (LeftUnique)

theorem Name.readFrom_unique : LeftUnique Name.ReadFrom := by
  intro first second node h h'
  obtain ⟨token, hnode, -⟩ := h
  obtain ⟨token', hnode', -⟩ := h'
  have hboth := hnode.unique hnode'
  simp only [View.name.injEq] at hboth
  exact Name.ext hboth.2

namespace Term

theorem Value.leftUnique : LeftUnique Value.ReadFrom := fun value _ _ => value.readFrom_unique

theorem Ranges.readFrom_unique : LeftUnique Ranges.ReadFrom := by
  intro first second node h h'
  obtain ⟨piece, pieces, hnode, hfirst, hrest⟩ := h
  obtain ⟨piece', pieces', hnode', hfirst', hrest'⟩ := h'
  cases hnode.unique hnode'
  cases first
  cases second
  congr
  · exact Range.readFrom_unique hfirst hfirst'
  · exact Range.readFromAll_unique hrest hrest'

/-! ## Arguments and parents -/

theorem TemplateArg.readFrom_unique : LeftUnique TemplateArg.ReadFrom := by
  intro first second node h h'
  obtain ⟨type, name, initial, hnode, htype, hname, hinitial⟩ := h
  obtain ⟨type', name', initial', hnode', htype', hname', hinitial'⟩ := h'
  cases hnode.unique hnode'
  cases first
  cases second
  congr
  · exact TypeName.readFrom_unique htype htype'
  · exact Name.readFrom_unique hname hname'
  · exact optional_unique Value.leftUnique hinitial hinitial'

theorem templateArgs_unique : LeftUnique TemplateArgsReadFrom := by
  intro first second node h h'
  obtain ⟨inner, hnode, hargs⟩ := h
  obtain ⟨inner', hnode', hargs'⟩ := h'
  cases hnode.unique hnode'
  exact List.left_unique_forall₂' TemplateArg.readFrom_unique hargs hargs'

theorem argList_unique : LeftUnique ArgListReadFrom := by
  intro first second node h h'
  obtain ⟨inner, hnode, hvalues⟩ := h
  obtain ⟨inner', hnode', hvalues'⟩ := h'
  cases hnode.unique hnode'
  exact Value.readFromAll_unique hvalues hvalues'

theorem ParentClass.readFrom_unique : LeftUnique ParentClass.ReadFrom := by
  intro first second node h h'
  obtain ⟨token, args, hnode, hname, hargs⟩ := h
  obtain ⟨token', args', hnode', hname', hargs'⟩ := h'
  cases hnode.unique hnode'
  cases first
  cases second
  congr
  · exact Name.ext (eq_of_ok hname hname')
  · exact optional_unique argList_unique hargs hargs'

theorem parents_unique : LeftUnique ParentsReadFrom := by
  intro first second node h h'
  match first, second with
  | [], [] => rfl
  | [], parent :: parents =>
      obtain ⟨list, inner, hlist, -⟩ := h'
      cases h.symm.trans hlist
  | parent :: parents, [] =>
      obtain ⟨list, inner, hlist, -⟩ := h
      cases h'.symm.trans hlist
  | parent :: parents, parent' :: parents' =>
      obtain ⟨list, inner, rfl, hlist, hparents⟩ := h
      obtain ⟨list', inner', hnode, hlist', hparents'⟩ := h'
      cases hnode
      cases hlist.unique hlist'
      exact List.left_unique_forall₂' ParentClass.readFrom_unique hparents hparents'

/-! ## Record bodies -/

theorem definition_unique {first second : Name} {value other : Value} {node : Node}
    (h : DefinitionReadFrom first value node) (h' : DefinitionReadFrom second other node) :
    first = second ∧ value = other := by
  obtain ⟨name, inner, hnode, hname, hvalue⟩ := h
  obtain ⟨name', inner', hnode', hname', hvalue'⟩ := h'
  cases hnode.unique hnode'
  exact ⟨Name.readFrom_unique hname hname', value.readFrom_unique hvalue hvalue'⟩

theorem assertion_unique {condition message condition' message' : Value} {node : Node}
    (h : AssertionReadFrom condition message node)
    (h' : AssertionReadFrom condition' message' node) :
    condition = condition' ∧ message = message' := by
  obtain ⟨first, second, hnode, hfirst, hsecond⟩ := h
  obtain ⟨first', second', hnode', hfirst', hsecond'⟩ := h'
  cases hnode.unique hnode'
  exact ⟨condition.readFrom_unique hfirst hfirst', message.readFrom_unique hsecond hsecond'⟩

def BodyItem.nodeKind : BodyItem → Kind
  | .field _ _ _ _ => .field
  | .letInstruction _ _ _ => .letInstruction
  | .definedVariable _ _ => .defvarStmt
  | .assertion _ _ => .assertStmt

theorem BodyItem.kind_of_readFrom {item : BodyItem} {node : Node} (h : item.ReadFrom node) :
    node.kind = item.nodeKind := by
  cases item with
  | field hasKeyword type name initial =>
      obtain ⟨typeNode, nameNode, inner, hnode, -⟩ := h
      exact hnode.kind_eq
  | letInstruction name bits value =>
      obtain ⟨nameNode, list, inner, hnode, -⟩ := h
      exact hnode.kind_eq
  | definedVariable name value => obtain ⟨nameNode, inner, hnode, -⟩ := h; exact hnode.kind_eq
  | assertion condition message => obtain ⟨first, second, hnode, -⟩ := h; exact hnode.kind_eq

theorem BodyItem.readFrom_unique : LeftUnique BodyItem.ReadFrom := by
  intro first second node h h'
  have hkind := (kind_of_readFrom h).symm.trans (kind_of_readFrom h')
  cases first with
  | field hasKeyword type name initial =>
      cases second <;> cases hkind
      obtain ⟨typeNode, nameNode, inner, hnode, htype, hname, hinitial⟩ := h
      obtain ⟨typeNode', nameNode', inner', hnode', htype', hname', hinitial'⟩ := h'
      cases hnode.unique hnode'
      rw [TypeName.readFrom_unique htype htype', Name.readFrom_unique hname hname',
        optional_unique Value.leftUnique hinitial hinitial']
  | letInstruction name bits value =>
      cases second <;> cases hkind
      obtain ⟨nameNode, list, inner, hnode, hname, hbits, hvalue⟩ := h
      obtain ⟨nameNode', list', inner', hnode', hname', hbits', hvalue'⟩ := h'
      cases hnode.unique hnode'
      rw [Name.readFrom_unique hname hname', optional_unique Ranges.readFrom_unique hbits hbits',
        value.readFrom_unique hvalue hvalue']
  | definedVariable name value =>
      cases second <;> cases hkind
      obtain ⟨rfl, rfl⟩ := definition_unique h h'
      rfl
  | assertion condition message =>
      cases second <;> cases hkind
      obtain ⟨rfl, rfl⟩ := assertion_unique h h'
      rfl

theorem RecordBody.readFrom_unique : LeftUnique RecordBody.ReadFrom := by
  intro first second node h h'
  obtain ⟨list, inner, nodes, hnode, hparents, hbody, hitems⟩ := h
  obtain ⟨list', inner', nodes', hnode', hparents', hbody', hitems'⟩ := h'
  cases hnode.unique hnode'
  have hboth := hbody.unique hbody'
  simp only [View.body.injEq] at hboth
  obtain ⟨hnone, rfl⟩ := hboth
  have hsame := List.left_unique_forall₂' BodyItem.readFrom_unique hitems hitems'
  obtain ⟨parents, items⟩ := first
  obtain ⟨parents', items'⟩ := second
  obtain rfl := parents_unique hparents hparents'
  cases items <;> cases items' <;> simp_all

theorem LetItem.readFrom_unique : LeftUnique LetItem.ReadFrom := by
  intro first second node h h'
  obtain ⟨name, list, inner, hnode, hname, hbits, hvalue⟩ := h
  obtain ⟨name', list', inner', hnode', hname', hbits', hvalue'⟩ := h'
  cases hnode.unique hnode'
  cases first
  cases second
  congr
  · exact Name.readFrom_unique hname hname'
  · exact optional_unique Ranges.readFrom_unique hbits hbits'
  · exact Value.leftUnique hvalue hvalue'

theorem LoopRange.readFrom_unique : LeftUnique LoopRange.ReadFrom := by
  intro first second source h h'
  cases source with
  | list node =>
      cases first with
      | piece range => cases h
      | list ranges =>
          cases second with
          | piece range => cases h'
          | list ranges' => exact congrArg LoopRange.list (Ranges.readFrom_unique h h')
  | piece node =>
      cases first with
      | list ranges => cases h
      | piece range =>
          cases second with
          | list ranges => cases h'
          | piece range' => exact congrArg LoopRange.piece (range.readFrom_unique h h')

/-! ## Statements -/

def Statement.nodeKind : Statement → Kind
  | .assertion _ _ => .assertStmt
  | .classDefinition _ _ _ => .classStmt
  | .recordDefinition _ _ => .defStmt
  | .recordInstances _ _ => .defmStmt
  | .recordSet _ _ _ => .defsetStmt
  | .definedVariable _ _ => .defvarStmt
  | .iteration _ _ _ => .foreachStmt
  | .conditional _ _ | .alternative _ _ _ => .ifStmt
  | .inclusion _ => .includeStmt
  | .letBlock _ _ => .letStmt
  | .multiclass _ _ _ _ => .multiclassStmt

theorem Statement.kind_of_readFrom {statement : Statement} {node : Node}
    (h : statement.ReadFrom node) : node.kind = statement.nodeKind := by
  cases statement with
  | assertion condition message => obtain ⟨first, second, hnode, -⟩ := h; exact hnode.kind_eq
  | classDefinition name args body =>
      obtain ⟨nameNode, list, inner, hnode, -⟩ := h
      exact hnode.kind_eq
  | recordDefinition name body => obtain ⟨nameNode, inner, hnode, -⟩ := h; exact hnode.kind_eq
  | recordInstances name parents => obtain ⟨nameNode, list, hnode, -⟩ := h; exact hnode.kind_eq
  | recordSet type name statements =>
      obtain ⟨typeNode, nameNode, inner, hnode, -⟩ := h
      exact hnode.kind_eq
  | definedVariable name value => obtain ⟨nameNode, inner, hnode, -⟩ := h; exact hnode.kind_eq
  | iteration name range body =>
      obtain ⟨iterator, nameNode, source, inner, hnode, -⟩ := h
      exact hnode.kind_eq
  | conditional condition thenBranch =>
      obtain ⟨first, second, hnode, -⟩ := h
      exact hnode.kind_eq
  | alternative condition thenBranch elseBranch =>
      obtain ⟨first, second, third, hnode, -⟩ := h
      exact hnode.kind_eq
  | inclusion path => obtain ⟨inner, hnode, -⟩ := h; exact hnode.kind_eq
  | letBlock items body => obtain ⟨list, inner, hnode, -⟩ := h; exact hnode.kind_eq
  | multiclass name args parents statements =>
      obtain ⟨nameNode, list, above, inner, nodes, hnode, -⟩ := h
      exact hnode.kind_eq

mutual

theorem Statement.readFrom_unique {first second : Statement} {node : Node}
    (h : first.ReadFrom node) (h' : second.ReadFrom node) : first = second := by
  have hkind := (Statement.kind_of_readFrom h).symm.trans (Statement.kind_of_readFrom h')
  match first with
  | .assertion condition message =>
      cases second <;> cases hkind
      obtain ⟨rfl, rfl⟩ := assertion_unique h h'
      rfl
  | .classDefinition name args body =>
      cases second <;> cases hkind
      obtain ⟨nameNode, list, inner, hnode, hname, hargs, hbody⟩ := h
      obtain ⟨nameNode', list', inner', hnode', hname', hargs', hbody'⟩ := h'
      cases hnode.unique hnode'
      rw [Name.readFrom_unique hname hname', optional_unique templateArgs_unique hargs hargs',
        RecordBody.readFrom_unique hbody hbody']
  | .recordDefinition name body =>
      cases second <;> cases hkind
      obtain ⟨nameNode, inner, hnode, hname, hbody⟩ := h
      obtain ⟨nameNode', inner', hnode', hname', hbody'⟩ := h'
      cases hnode.unique hnode'
      rw [optional_unique Value.leftUnique hname hname', RecordBody.readFrom_unique hbody hbody']
  | .recordInstances name parents =>
      cases second <;> cases hkind
      obtain ⟨nameNode, list, hnode, hname, hparents⟩ := h
      obtain ⟨nameNode', list', hnode', hname', hparents'⟩ := h'
      cases hnode.unique hnode'
      rw [optional_unique Value.leftUnique hname hname', parents_unique hparents hparents']
  | .recordSet type name statements =>
      cases second <;> cases hkind
      obtain ⟨typeNode, nameNode, inner, hnode, htype, hname, hall⟩ := h
      obtain ⟨typeNode', nameNode', inner', hnode', htype', hname', hall'⟩ := h'
      cases hnode.unique hnode'
      rw [TypeName.readFrom_unique htype htype', Name.readFrom_unique hname hname',
        Statement.readFromAll_unique hall hall']
  | .definedVariable name value =>
      cases second <;> cases hkind
      obtain ⟨rfl, rfl⟩ := definition_unique h h'
      rfl
  | .iteration name range body =>
      cases second <;> cases hkind
      obtain ⟨iterator, nameNode, source, inner, hnode, hiterator, hname, hrange, hbody⟩ := h
      obtain ⟨iterator', nameNode', source', inner', hnode', hiterator', hname', hrange',
        hbody'⟩ := h'
      cases hnode.unique hnode'
      cases hiterator.unique hiterator'
      rw [Name.readFrom_unique hname hname', LoopRange.readFrom_unique hrange hrange',
        body.readFrom_unique hbody hbody']
  | .conditional condition thenBranch =>
      obtain ⟨one, two, hnode, hcondition, hthen⟩ := h
      cases second <;> cases hkind
      · obtain ⟨one', two', hnode', hcondition', hthen'⟩ := h'
        cases hnode.unique hnode'
        rw [condition.readFrom_unique hcondition hcondition',
          thenBranch.readFrom_unique hthen hthen']
      · obtain ⟨one', two', three', hnode', -⟩ := h'
        cases hnode.unique hnode'
  | .alternative condition thenBranch elseBranch =>
      obtain ⟨one, two, three, hnode, hcondition, hthen, helse⟩ := h
      cases second <;> cases hkind
      · obtain ⟨one', two', hnode', -⟩ := h'
        cases hnode.unique hnode'
      · obtain ⟨one', two', three', hnode', hcondition', hthen', helse'⟩ := h'
        cases hnode.unique hnode'
        rw [condition.readFrom_unique hcondition hcondition',
          thenBranch.readFrom_unique hthen hthen', elseBranch.readFrom_unique helse helse']
  | .inclusion path =>
      cases second <;> cases hkind
      obtain ⟨inner, hnode, hpath⟩ := h
      obtain ⟨inner', hnode', hpath'⟩ := h'
      cases hnode.unique hnode'
      rw [string_unique hpath hpath']
  | .letBlock items body =>
      cases second <;> cases hkind
      obtain ⟨list, inner, hnode, hitems, hbody⟩ := h
      obtain ⟨list', inner', hnode', hitems', hbody'⟩ := h'
      cases hnode.unique hnode'
      rw [List.left_unique_forall₂' LetItem.readFrom_unique hitems hitems',
        body.readFrom_unique hbody hbody']
  | .multiclass name args parents statements =>
      cases second <;> cases hkind
      obtain ⟨nameNode, list, above, inner, nodes, hnode, hname, hargs, hparents, hinner,
        hall⟩ := h
      obtain ⟨nameNode', list', above', inner', nodes', hnode', hname', hargs', hparents',
        hinner', hall'⟩ := h'
      cases hnode.unique hnode'
      cases hinner.unique hinner'
      rw [Name.readFrom_unique hname hname', optional_unique templateArgs_unique hargs hargs',
        parents_unique hparents hparents', Statement.readFromAll_unique hall hall']
termination_by structural first

theorem Block.readFrom_unique {first second : Block} {node : Node} (h : first.ReadFrom node)
    (h' : second.ReadFrom node) : first = second := by
  match first with
  | .single statement =>
      obtain ⟨inner, hnode, hstatement⟩ := h
      cases second with
      | single statement' =>
          obtain ⟨inner', hnode', hstatement'⟩ := h'
          cases hnode.unique hnode'
          rw [statement.readFrom_unique hstatement hstatement']
      | braced statements => obtain ⟨inner', hnode', -⟩ := h'; cases hnode.unique hnode'
  | .braced statements =>
      obtain ⟨inner, hnode, hall⟩ := h
      cases second with
      | single statement => obtain ⟨inner', hnode', -⟩ := h'; cases hnode.unique hnode'
      | braced statements' =>
          obtain ⟨inner', hnode', hall'⟩ := h'
          cases hnode.unique hnode'
          rw [Statement.readFromAll_unique hall hall']
termination_by structural first

theorem Statement.readFromAll_unique {first second : List Statement} {nodes : List Node}
    (h : Statement.ReadFromAll first nodes) (h' : Statement.ReadFromAll second nodes) :
    first = second := by
  match first with
  | [] =>
      obtain rfl := h
      cases second with
      | nil => rfl
      | cons statement statements => obtain ⟨node, others, hnodes, -⟩ := h'; cases hnodes
  | statement :: statements =>
      obtain ⟨node, others, rfl, hstatement, hstatements⟩ := h
      cases second with
      | nil => cases h'
      | cons statement' statements' =>
          obtain ⟨node', others', hnodes, hstatement', hstatements'⟩ := h'
          cases hnodes
          rw [statement.readFrom_unique hstatement hstatement',
            Statement.readFromAll_unique hstatements hstatements']
termination_by structural first

end

end Term

end TdSyntax
