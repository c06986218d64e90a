import Mathlib.Data.List.Forall2
import TdSyntax.Proofs.Term.ValueMeaning

/-!
# A node is read as one value

The kind of a node tells the form of the value, and its view the parts.
-/

namespace TdSyntax.Term

theorem eq_of_ok {first second : Text} {read : Except Fault Text} (h : read = .ok first)
    (h' : read = .ok second) : first = second := by
  rw [h] at h'
  exact Except.ok.inj h'

theorem optional_unique {α β : Type} {R : α → β → Prop} (h : Relator.LeftUnique R) :
    Relator.LeftUnique (Option.Rel R) := by
  intro first second node hfirst hsecond
  cases hfirst with
  | none => cases hsecond; rfl
  | some hfirst =>
      cases hsecond with
      | some hsecond => exact congrArg some (h hfirst hsecond)

/-! ## Types -/

def TypeName.nodeKind : TypeName → Kind
  | .primitive _ => .primitiveType
  | .bits _ => .bitsType
  | .list _ => .listType
  | .named _ => .classType

theorem TypeName.kind_of_readFrom {type : TypeName} {node : Node} (h : type.ReadFrom node) :
    node.kind = type.nodeKind := by
  cases type with
  | primitive type => exact h.kind_eq
  | bits width => obtain ⟨inner, hnode, -⟩ := h; exact hnode.kind_eq
  | list element => obtain ⟨inner, hnode, -⟩ := h; exact hnode.kind_eq
  | named name => obtain ⟨token, hnode, -⟩ := h; exact hnode.kind_eq

theorem TypeName.readFrom_unique : Relator.LeftUnique TypeName.ReadFrom := by
  intro first second node h h'
  have hkind := (kind_of_readFrom h).symm.trans (kind_of_readFrom h')
  induction first generalizing second node with
  | primitive type =>
      cases second <;> cases hkind
      cases Node.Shows.unique h h'
      rfl
  | bits width =>
      cases second <;> cases hkind
      obtain ⟨inner, hnode, hwidth⟩ := h
      obtain ⟨other, hother, hnumber⟩ := h'
      cases hnode.unique hother
      have hboth := hwidth.unique hnumber
      simp only [View.integer.injEq] at hboth
      exact congrArg TypeName.bits (IntegerText.ext hboth.1)
  | list element ih =>
      cases second <;> cases hkind
      obtain ⟨inner, hnode, helement⟩ := h
      obtain ⟨other, hother, hrest⟩ := h'
      cases hnode.unique hother
      have hinner := (kind_of_readFrom helement).symm.trans (kind_of_readFrom hrest)
      exact congrArg TypeName.list (ih helement hrest hinner)
  | named name =>
      cases second <;> cases hkind
      obtain ⟨token, hnode, htext⟩ := h
      obtain ⟨other, hother, hname⟩ := h'
      cases hnode.unique hother
      exact congrArg TypeName.named (Name.ext (eq_of_ok htext hname))

/-! ## Values -/

def Simple.nodeKind : Simple → Kind
  | .integer _ => .integer
  | .string _ => .string
  | .strings _ _ _ => .concatenatedString
  | .code _ => .code
  | .boolean _ => .boolean
  | .uninitialized => .uninitialized
  | .sequence _ _ => .sequence
  | .list _ _ => .listInit
  | .dag _ _ => .dagInit
  | .identifier _ => .ident
  | .record _ _ => .anonymousRecord
  | .bang _ _ _ _ => .bangOperation
  | .cond _ => .condOperation

def Operand.nodeKind : Operand → Kind
  | .simple base => base.nodeKind
  | _ => .suffixedValue

def Value.nodeKind : Value → Kind
  | .operand base => base.nodeKind
  | _ => .pasteValue

theorem Simple.kind_of_readFrom {simple : Simple} {node : Node} (h : simple.ReadFrom node) :
    node.kind = simple.nodeKind := by
  cases simple with
  | integer number => exact h.kind_eq
  | string content => exact h.kind_eq
  | strings first second rest => obtain ⟨parts, hnode, -⟩ := h; exact hnode.kind_eq
  | code content => exact h.kind_eq
  | boolean value => exact h.kind_eq
  | uninitialized => exact h.kind_eq
  | sequence first rest => obtain ⟨inner, others, hnode, -⟩ := h; exact hnode.kind_eq
  | list values type => obtain ⟨inner, ascribed, hnode, -⟩ := h; exact hnode.kind_eq
  | dag operator args => obtain ⟨inner, others, hnode, -⟩ := h; exact hnode.kind_eq
  | identifier name => obtain ⟨token, hnode, -⟩ := h; exact hnode.kind_eq
  | record name args => obtain ⟨token, list, inner, hnode, -⟩ := h; exact hnode.kind_eq
  | bang operator type first rest =>
      obtain ⟨token, ascribed, inner, others, hnode, -⟩ := h
      exact hnode.kind_eq
  | cond clauses => obtain ⟨inner, hnode, -⟩ := h; exact hnode.kind_eq

theorem Operand.kind_of_readFrom {operand : Operand} {node : Node} (h : operand.ReadFrom node) :
    node.kind = operand.nodeKind := by
  cases operand with
  | simple base => exact Simple.kind_of_readFrom h
  | bitSlice base first rest =>
      obtain ⟨inner, suffix, list, piece, pieces, hnode, -⟩ := h
      exact hnode.kind_eq
  | listSlice base first rest =>
      obtain ⟨inner, suffix, list, piece, pieces, hnode, -⟩ := h
      exact hnode.kind_eq
  | field base name => obtain ⟨inner, suffix, token, hnode, -⟩ := h; exact hnode.kind_eq

theorem Value.kind_of_readFrom {value : Value} {node : Node} (h : value.ReadFrom node) :
    node.kind = value.nodeKind := by
  cases value with
  | operand base => exact Operand.kind_of_readFrom h
  | paste left right => obtain ⟨first, second, hnode, -⟩ := h; exact hnode.kind_eq
  | openPaste left => obtain ⟨first, hnode, -⟩ := h; exact hnode.kind_eq

theorem Operand.nodeKind_ne_paste (operand : Operand) : operand.nodeKind ≠ .pasteValue := by
  cases operand with
  | simple base => cases base <;> simp [Operand.nodeKind, Simple.nodeKind]
  | _ => simp [Operand.nodeKind]

theorem Simple.nodeKind_ne_suffixed (simple : Simple) : simple.nodeKind ≠ .suffixedValue := by
  cases simple <;> simp [Simple.nodeKind]

theorem string_unique :
    Relator.LeftUnique fun content part => Node.Shows part (.string content) := by
  intro first second part h h'
  exact View.string.inj (h.unique h')

mutual

theorem Value.readFrom_unique {first second : Value} {node : Node} (h : first.ReadFrom node)
    (h' : second.ReadFrom node) : first = second := by
  have hkind := (Value.kind_of_readFrom h).symm.trans (Value.kind_of_readFrom h')
  match first with
  | .operand base =>
      cases second with
      | operand other => exact congrArg Value.operand (base.readFrom_unique h h')
      | paste left right => exact absurd hkind base.nodeKind_ne_paste
      | openPaste left => exact absurd hkind base.nodeKind_ne_paste
  | .paste left right =>
      obtain ⟨one, two, hnode, hleft, hright⟩ := h
      cases second with
      | operand other => exact absurd hkind.symm other.nodeKind_ne_paste
      | paste left' right' =>
          obtain ⟨one', two', hnode', hleft', hright'⟩ := h'
          cases hnode.unique hnode'
          rw [left.readFrom_unique hleft hleft', right.readFrom_unique hright hright']
      | openPaste left' =>
          obtain ⟨one', hnode', -⟩ := h'
          cases hnode.unique hnode'
  | .openPaste left =>
      obtain ⟨one, hnode, hleft⟩ := h
      cases second with
      | operand other => exact absurd hkind.symm other.nodeKind_ne_paste
      | paste left' right' =>
          obtain ⟨one', two', hnode', -⟩ := h'
          cases hnode.unique hnode'
      | openPaste left' =>
          obtain ⟨one', hnode', hleft'⟩ := h'
          cases hnode.unique hnode'
          rw [left.readFrom_unique hleft hleft']
termination_by structural first

theorem Operand.readFrom_unique {first second : Operand} {node : Node} (h : first.ReadFrom node)
    (h' : second.ReadFrom node) : first = second := by
  have hkind := (Operand.kind_of_readFrom h).symm.trans (Operand.kind_of_readFrom h')
  match first with
  | .simple base =>
      cases second with
      | simple other => exact congrArg Operand.simple (base.readFrom_unique h h')
      | _ => exact absurd hkind base.nodeKind_ne_suffixed
  | .bitSlice base first rest =>
      obtain ⟨inner, suffix, list, piece, pieces, hnode, hbase, hslice, hlist, hfirst, hrest⟩ := h
      cases second with
      | simple other => exact absurd hkind.symm other.nodeKind_ne_suffixed
      | bitSlice base' first' rest' =>
          obtain ⟨inner', suffix', list', piece', pieces', hnode', hbase', hslice', hlist',
            hfirst', hrest'⟩ := h'
          cases hnode.unique hnode'
          cases hslice.unique hslice'
          cases hlist.unique hlist'
          rw [base.readFrom_unique hbase hbase', first.readFrom_unique hfirst hfirst',
            Range.readFromAll_unique hrest hrest']
      | listSlice base' first' rest' =>
          obtain ⟨inner', suffix', list', piece', pieces', hnode', -, hslice', -⟩ := h'
          cases hnode.unique hnode'
          cases hslice.unique hslice'
      | field base' name =>
          obtain ⟨inner', suffix', token, hnode', -, hfield, -⟩ := h'
          cases hnode.unique hnode'
          cases hslice.unique hfield
  | .listSlice base first rest =>
      obtain ⟨inner, suffix, list, piece, pieces, hnode, hbase, hslice, hlist, hfirst, hrest⟩ := h
      cases second with
      | simple other => exact absurd hkind.symm other.nodeKind_ne_suffixed
      | bitSlice base' first' rest' =>
          obtain ⟨inner', suffix', list', piece', pieces', hnode', -, hslice', -⟩ := h'
          cases hnode.unique hnode'
          cases hslice.unique hslice'
      | listSlice base' first' rest' =>
          obtain ⟨inner', suffix', list', piece', pieces', hnode', hbase', hslice', hlist',
            hfirst', hrest'⟩ := h'
          cases hnode.unique hnode'
          cases hslice.unique hslice'
          cases hlist.unique hlist'
          rw [base.readFrom_unique hbase hbase', first.readFrom_unique hfirst hfirst',
            Range.readFromAll_unique hrest hrest']
      | field base' name =>
          obtain ⟨inner', suffix', token, hnode', -, hfield, -⟩ := h'
          cases hnode.unique hnode'
          cases hslice.unique hfield
  | .field base name =>
      obtain ⟨inner, suffix, token, hnode, hbase, hfield, hname⟩ := h
      cases second with
      | simple other => exact absurd hkind.symm other.nodeKind_ne_suffixed
      | bitSlice base' first rest =>
          obtain ⟨inner', suffix', list, piece, pieces, hnode', -, hslice, -⟩ := h'
          cases hnode.unique hnode'
          cases hfield.unique hslice
      | listSlice base' first rest =>
          obtain ⟨inner', suffix', list, piece, pieces, hnode', -, hslice, -⟩ := h'
          cases hnode.unique hnode'
          cases hfield.unique hslice
      | field base' name' =>
          obtain ⟨inner', suffix', token', hnode', hbase', hfield', hname'⟩ := h'
          cases hnode.unique hnode'
          cases hfield.unique hfield'
          rw [base.readFrom_unique hbase hbase', Name.ext (eq_of_ok hname hname')]
termination_by structural first

theorem Simple.readFrom_unique {first second : Simple} {node : Node} (h : first.ReadFrom node)
    (h' : second.ReadFrom node) : first = second := by
  have hkind := (Simple.kind_of_readFrom h).symm.trans (Simple.kind_of_readFrom h')
  match first with
  | .integer number =>
      cases second <;> cases hkind
      have hboth := Node.Shows.unique h h'
      simp only [View.integer.injEq] at hboth
      exact congrArg Simple.integer (IntegerText.ext hboth.1)
  | .string content =>
      cases second <;> cases hkind
      cases Node.Shows.unique h h'
      rfl
  | .strings one two rest =>
      cases second <;> cases hkind
      obtain ⟨parts, hnode, hparts⟩ := h
      obtain ⟨others, hother, hrest⟩ := h'
      have hboth := hnode.unique hother
      simp only [View.concatenatedString.injEq] at hboth
      obtain ⟨rfl, -⟩ := hboth
      cases List.left_unique_forall₂' string_unique hparts hrest
      rfl
  | .code content =>
      cases second <;> cases hkind
      have hboth := Node.Shows.unique h h'
      simp only [View.code.injEq] at hboth
      exact congrArg Simple.code (CodeText.ext hboth)
  | .boolean value =>
      cases second <;> cases hkind
      cases Node.Shows.unique h h'
      rfl
  | .uninitialized =>
      cases second <;> cases hkind
      rfl
  | .sequence value rest =>
      cases second <;> cases hkind
      obtain ⟨inner, others, hnode, hvalue, hrest⟩ := h
      obtain ⟨inner', others', hnode', hvalue', hrest'⟩ := h'
      cases hnode.unique hnode'
      rw [value.readFrom_unique hvalue hvalue', Value.readFromAll_unique hrest hrest']
  | .list values type =>
      cases second <;> cases hkind
      obtain ⟨inner, ascribed, hnode, hvalues, htype⟩ := h
      obtain ⟨inner', ascribed', hnode', hvalues', htype'⟩ := h'
      cases hnode.unique hnode'
      rw [Value.readFromAll_unique hvalues hvalues',
        optional_unique TypeName.readFrom_unique htype htype']
  | .dag operator args =>
      cases second <;> cases hkind
      obtain ⟨inner, others, hnode, hoperator, hargs⟩ := h
      obtain ⟨inner', others', hnode', hoperator', hargs'⟩ := h'
      cases hnode.unique hnode'
      rw [operator.readFrom_unique hoperator hoperator', DagArg.readFromAll_unique hargs hargs']
  | .identifier name =>
      cases second <;> cases hkind
      obtain ⟨token, hnode, htext⟩ := h
      obtain ⟨token', hnode', htext'⟩ := h'
      have hboth := hnode.unique hnode'
      simp only [View.identifier.injEq] at hboth
      exact congrArg Simple.identifier (Name.ext hboth.2)
  | .record name args =>
      cases second <;> cases hkind
      obtain ⟨token, list, inner, hnode, htext, hlist, hargs⟩ := h
      obtain ⟨token', list', inner', hnode', htext', hlist', hargs'⟩ := h'
      cases hnode.unique hnode'
      cases hlist.unique hlist'
      rw [Name.ext (eq_of_ok htext htext'), Value.readFromAll_unique hargs hargs']
  | .bang operator type value rest =>
      cases second <;> cases hkind
      obtain ⟨token, ascribed, inner, others, hnode, htype, hvalue, hrest⟩ := h
      obtain ⟨token', ascribed', inner', others', hnode', htype', hvalue', hrest'⟩ := h'
      cases hnode.unique hnode'
      rw [optional_unique TypeName.readFrom_unique htype htype',
        value.readFrom_unique hvalue hvalue', Value.readFromAll_unique hrest hrest']
  | .cond clauses =>
      cases second <;> cases hkind
      obtain ⟨inner, hnode, hclauses⟩ := h
      obtain ⟨inner', hnode', hclauses'⟩ := h'
      cases hnode.unique hnode'
      rw [Clause.readFromAll_unique hclauses hclauses']
termination_by structural first

theorem Range.readFrom_unique {first second : Range} {node : Node} (h : first.ReadFrom node)
    (h' : second.ReadFrom node) : first = second := by
  match first with
  | .single value =>
      obtain ⟨inner, hnode, hvalue⟩ := h
      cases second with
      | single value' =>
          obtain ⟨inner', hnode', hvalue'⟩ := h'
          have hboth := hnode.unique hnode'
          simp only [View.rangePiece.injEq, Option.some.injEq] at hboth
          obtain ⟨rfl, -⟩ := hboth
          rw [value.readFrom_unique hvalue hvalue']
      | span start mark stop =>
          obtain ⟨one, two, hnode', -⟩ := h'
          have hboth := hnode.unique hnode'
          simp at hboth
  | .span start mark stop =>
      obtain ⟨one, two, hnode, hstart, hstop⟩ := h
      cases second with
      | single value =>
          obtain ⟨inner, hnode', -⟩ := h'
          have hboth := hnode.unique hnode'
          simp at hboth
      | span start' mark' stop' =>
          obtain ⟨one', two', hnode', hstart', hstop'⟩ := h'
          have hboth := hnode.unique hnode'
          simp only [View.rangePiece.injEq, Option.some.injEq] at hboth
          obtain ⟨rfl, rfl, hmark, -⟩ := hboth
          have hmarks : mark = mark' := by cases mark <;> cases mark' <;> first | rfl | cases hmark
          rw [start.readFrom_unique hstart hstart', stop.readFrom_unique hstop hstop', hmarks]
termination_by structural first

theorem DagArg.readFrom_unique {first second : DagArg} {node : Node} (h : first.ReadFrom node)
    (h' : second.ReadFrom node) : first = second := by
  match first with
  | .plain value =>
      obtain ⟨inner, hnode, hvalue⟩ := h
      cases second with
      | plain value' =>
          obtain ⟨inner', hnode', hvalue'⟩ := h'
          cases hnode.unique hnode'
          rw [value.readFrom_unique hvalue hvalue']
      | bound value' name => obtain ⟨inner', token, hnode', -⟩ := h'; cases hnode.unique hnode'
      | named name => obtain ⟨token, hnode', -⟩ := h'; cases hnode.unique hnode'
  | .bound value name =>
      obtain ⟨inner, token, hnode, hvalue, htext⟩ := h
      cases second with
      | plain value' => obtain ⟨inner', hnode', -⟩ := h'; cases hnode.unique hnode'
      | bound value' name' =>
          obtain ⟨inner', token', hnode', hvalue', htext'⟩ := h'
          cases hnode.unique hnode'
          have hname := List.tail_eq_of_cons_eq (eq_of_ok htext htext')
          rw [value.readFrom_unique hvalue hvalue', VarName.ext hname]
      | named name' => obtain ⟨token', hnode', -⟩ := h'; cases hnode.unique hnode'
  | .named name =>
      obtain ⟨token, hnode, htext⟩ := h
      cases second with
      | plain value' => obtain ⟨inner', hnode', -⟩ := h'; cases hnode.unique hnode'
      | bound value' name' => obtain ⟨inner', token', hnode', -⟩ := h'; cases hnode.unique hnode'
      | named name' =>
          obtain ⟨token', hnode', htext'⟩ := h'
          cases hnode.unique hnode'
          have hname := List.tail_eq_of_cons_eq (eq_of_ok htext htext')
          rw [VarName.ext hname]
termination_by structural first

theorem Clause.readFrom_unique {first second : Clause} {node : Node} (h : first.ReadFrom node)
    (h' : second.ReadFrom node) : first = second := by
  match first with
  | .mk condition value =>
      cases second
      obtain ⟨one, two, hnode, hcondition, hvalue⟩ := h
      obtain ⟨one', two', hnode', hcondition', hvalue'⟩ := h'
      cases hnode.unique hnode'
      rw [condition.readFrom_unique hcondition hcondition', value.readFrom_unique hvalue hvalue']
termination_by structural first

theorem Value.readFromAll_unique {first second : List Value} {nodes : List Node}
    (h : Value.ReadFromAll first nodes) (h' : Value.ReadFromAll second nodes) :
    first = second := by
  match first with
  | [] =>
      obtain rfl := h
      cases second with
      | nil => rfl
      | cons value values => obtain ⟨node, others, hnodes, -⟩ := h'; cases hnodes
  | value :: values =>
      obtain ⟨node, others, rfl, hvalue, hvalues⟩ := h
      cases second with
      | nil => cases h'
      | cons value' values' =>
          obtain ⟨node', others', hnodes, hvalue', hvalues'⟩ := h'
          cases hnodes
          rw [value.readFrom_unique hvalue hvalue', Value.readFromAll_unique hvalues hvalues']
termination_by structural first

theorem Range.readFromAll_unique {first second : List Range} {nodes : List Node}
    (h : Range.ReadFromAll first nodes) (h' : Range.ReadFromAll second nodes) :
    first = second := by
  match first with
  | [] =>
      obtain rfl := h
      cases second with
      | nil => rfl
      | cons range ranges => obtain ⟨node, others, hnodes, -⟩ := h'; cases hnodes
  | range :: ranges =>
      obtain ⟨node, others, rfl, hrange, hranges⟩ := h
      cases second with
      | nil => cases h'
      | cons range' ranges' =>
          obtain ⟨node', others', hnodes, hrange', hranges'⟩ := h'
          cases hnodes
          rw [range.readFrom_unique hrange hrange', Range.readFromAll_unique hranges hranges']
termination_by structural first

theorem DagArg.readFromAll_unique {first second : List DagArg} {nodes : List Node}
    (h : DagArg.ReadFromAll first nodes) (h' : DagArg.ReadFromAll second nodes) :
    first = second := by
  match first with
  | [] =>
      obtain rfl := h
      cases second with
      | nil => rfl
      | cons arg args => obtain ⟨node, others, hnodes, -⟩ := h'; cases hnodes
  | arg :: args =>
      obtain ⟨node, others, rfl, harg, hargs⟩ := h
      cases second with
      | nil => cases h'
      | cons arg' args' =>
          obtain ⟨node', others', hnodes, harg', hargs'⟩ := h'
          cases hnodes
          rw [arg.readFrom_unique harg harg', DagArg.readFromAll_unique hargs hargs']
termination_by structural first

theorem Clause.readFromAll_unique {first second : List Clause} {nodes : List Node}
    (h : Clause.ReadFromAll first nodes) (h' : Clause.ReadFromAll second nodes) :
    first = second := by
  match first with
  | [] =>
      obtain rfl := h
      cases second with
      | nil => rfl
      | cons clause clauses => obtain ⟨node, others, hnodes, -⟩ := h'; cases hnodes
  | clause :: clauses =>
      obtain ⟨node, others, rfl, hclause, hclauses⟩ := h
      cases second with
      | nil => cases h'
      | cons clause' clauses' =>
          obtain ⟨node', others', hnodes, hclause', hclauses'⟩ := h'
          cases hnodes
          rw [clause.readFrom_unique hclause hclause',
            Clause.readFromAll_unique hclauses hclauses']
termination_by structural first

end

end TdSyntax.Term
