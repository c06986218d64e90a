import TdSyntax.Proofs.Literal.Spelled
import TdSyntax.Proofs.Term.ValueMeaning
import TdSyntax.Proofs.Term.ValueTree
import TdSyntax.Proofs.Tree.Bears

/-!
# Values are read back from their trees

A node that bears the tree of a type or value is read as that type or value: the parts
that its view looks for are found where the tree has them.
-/

namespace TdSyntax

namespace BareTree

@[simp] theorem isOf_node (member : Kind → Bool) (kind : Kind) (children : List BareTree) :
    (node kind children).isOf member = member kind := rfl

@[simp] theorem isOf_leaf (member : Kind → Bool) (atom : Atom) :
    atom.leaf.isOf member = false := rfl

@[simp] theorem kind_node (kind : Kind) (children : List BareTree) :
    (node kind children).kind = kind := rfl

@[simp] theorem kind_leaf (atom : Atom) : atom.leaf.kind = atom.kind := rfl

@[simp] theorem wordOf?_node (kind inner : Kind) (children : List BareTree) :
    (node inner children).wordOf? kind = none := rfl

@[simp] theorem wordOf?_leaf (kind : Kind) (atom : Atom) :
    atom.leaf.wordOf? kind = if atom.kind == kind then some atom.word else none := rfl

theorem exists_node_of_isOf {member : Kind → Bool} {tree : BareTree}
    (h : tree.isOf member = true) :
    ∃ kind children, tree = .node kind children ∧ member kind = true := by
  cases tree with
  | token word => cases h
  | node kind children => exact ⟨kind, children, rfl, h⟩

end BareTree

namespace Term

open BareTree

@[simp] theorem filter_commaTrees (member : Kind → Bool) (trees : List BareTree) :
    (commaTrees trees).filter (isOf member) = trees.filter (isOf member) := by
  induction trees with
  | nil => rfl
  | cons tree trees ih =>
      cases trees with
      | nil => rfl
      | cons second trees =>
          have hcomma : (Atom.leaf (.mark .comma)).isOf member = false := rfl
          have hpair : [tree, Atom.leaf (.mark .comma)].filter (isOf member) =
              [tree].filter (isOf member) := by
            simp [List.filter_cons, hcomma]
          rw [commaTrees_cons _ _ (by simp), List.filter_append, ih, hpair, ← List.filter_append]
          rfl

theorem filter_commaTrees_of_isOf {member : Kind → Bool} {trees : List BareTree}
    (h : ∀ tree ∈ trees, tree.isOf member = true) :
    (commaTrees trees).filter (isOf member) = trees := by
  rw [filter_commaTrees]
  exact List.filter_eq_self.2 h

theorem filter_of_isOf_ne {member : Kind → Bool} {kind : Kind} {trees : List BareTree}
    (h : ∀ tree ∈ trees, tree.isOf member = true) (hkind : member kind = false) :
    trees.filter (isOf (· == kind)) = [] := by
  refine List.filter_eq_nil_iff.2 fun tree hmem => ?_
  obtain ⟨other, children, rfl, hother⟩ := exists_node_of_isOf (h tree hmem)
  rw [isOf_node, beq_iff_eq]
  rintro rfl
  rw [hkind] at hother
  cases hother

/-! ## The classes of trees -/

variable (layout : Layout)

theorem TypeName.isOf_tree (type : TypeName) : type.tree.isOf Kind.isType = true := by
  cases type <;> rfl

theorem Simple.isOf_tree (simple : Simple) : (simple.tree layout).isOf Kind.isValue = true := by
  cases simple <;> rfl

theorem Operand.isOf_tree (operand : Operand) :
    (operand.tree layout).isOf Kind.isValue = true := by
  cases operand with
  | simple base => exact base.isOf_tree layout
  | _ => rfl

theorem Value.isOf_tree (value : Value) : (value.tree layout).isOf Kind.isValue = true := by
  cases value with
  | operand base => exact base.isOf_tree layout
  | _ => rfl

theorem Value.isOf_treeAll (values : List Value) :
    ∀ tree ∈ Value.treeAll layout values, tree.isOf Kind.isValue = true := by
  induction values with
  | nil => simp [Value.treeAll]
  | cons value values ih => simpa [Value.treeAll, value.isOf_tree layout] using ih

theorem Range.isOf_treeAll (ranges : List Range) :
    ∀ tree ∈ Range.treeAll layout ranges, tree.isOf (· == .rangePiece) = true := by
  induction ranges with
  | nil => simp [Range.treeAll]
  | cons range ranges ih =>
      have hrange : (range.tree layout).isOf (· == .rangePiece) = true := by cases range <;> rfl
      simpa [Range.treeAll, hrange] using ih

theorem DagArg.isOf_treeAll (args : List DagArg) :
    ∀ tree ∈ DagArg.treeAll layout args, tree.isOf (· == .dagArg) = true := by
  induction args with
  | nil => simp [DagArg.treeAll]
  | cons arg args ih =>
      have harg : (arg.tree layout).isOf (· == .dagArg) = true := by cases arg <;> rfl
      simpa [DagArg.treeAll, harg] using ih

theorem Clause.isOf_treeAll (clauses : List Clause) :
    ∀ tree ∈ Clause.treeAll layout clauses, tree.isOf (· == .condClause) = true := by
  induction clauses with
  | nil => simp [Clause.treeAll]
  | cons clause clauses ih =>
      have hclause : (clause.tree layout).isOf (· == .condClause) = true := by
        cases clause; rfl
      simpa [Clause.treeAll, hclause] using ih

/-! ## What views show -/

section Views

open Node

variable {node : Node} {left right tree : BareTree} {trees : List BareTree}

theorem kind_ne_of_isOf {member : Kind → Bool} {kind : Kind} (h : tree.isOf member = true)
    (hkind : member kind = false) : tree.kind ≠ kind := by
  obtain ⟨other, children, rfl, hother⟩ := exists_node_of_isOf h
  rintro rfl
  rw [kind_node, hother] at hkind
  cases hkind

theorem sides {mark : Kind} {hmark : mark.isMark = true} (hvalue : mark.isValue = false)
    (hleft : left.isOf Kind.isValue = true) (hright : right.isOf Kind.isValue = true)
    (h : List.Forall₂ Element.Bears node.elements [left, Atom.leaf (.mark mark hmark), right]) :
    ∃ first second, node.firstBefore? mark Kind.isValue = some first ∧
      node.firstAfter? mark Kind.isValue = some second ∧ first.Bears left ∧
      second.Bears right := by
  have hkind := kind_ne_of_isOf hleft hvalue
  obtain ⟨first, hfirst, hone⟩ := found (firstBefore?_bears h mark Kind.isValue)
    (b := left) (by simp [hkind, hleft])
  obtain ⟨second, hsecond, htwo⟩ := found (firstAfter?_bears h mark Kind.isValue)
    (b := right) (by simp [hkind, hright])
  exact ⟨first, second, hfirst, hsecond, hone, htwo⟩

theorem shows_paste (hleft : left.isOf Kind.isValue = true)
    (hright : right.isOf Kind.isValue = true)
    (h : node.Bears (.node .pasteValue [left, Atom.leaf (.mark .hash), right])) :
    ∃ first second, node.Shows (.paste (some first) (some second)) ∧ first.Bears left ∧
      second.Bears right := by
  obtain ⟨first, second, hfirst, hsecond, hboth⟩ := sides rfl hleft hright h.elements
  refine ⟨first, second, ?_, hboth⟩
  simp only [Node.Shows, Node.view, h.kind_eq, hfirst, hsecond]

theorem shows_openPaste (hleft : left.isOf Kind.isValue = true)
    (h : node.Bears (.node .pasteValue [left, Atom.leaf (.mark .hash)])) :
    ∃ first, node.Shows (.paste (some first) none) ∧ first.Bears left := by
  have hkind := kind_ne_of_isOf hleft (rfl : Kind.isValue .hash = false)
  obtain ⟨first, hfirst, hone⟩ := found (firstBefore?_bears h.elements .hash Kind.isValue)
    (b := left) (by simp [hkind, hleft])
  have hnone := notFound (firstAfter?_bears h.elements .hash Kind.isValue)
    (by simp [hkind])
  refine ⟨first, ?_, hone⟩
  simp only [Node.Shows, Node.view, h.kind_eq, hfirst, hnone]

theorem shows_condClause (hleft : left.isOf Kind.isValue = true)
    (hright : right.isOf Kind.isValue = true)
    (h : node.Bears (.node .condClause [left, Atom.leaf (.mark .colon), right])) :
    ∃ first second, node.Shows (.condClause (some first) (some second)) ∧ first.Bears left ∧
      second.Bears right := by
  obtain ⟨first, second, hfirst, hsecond, hboth⟩ := sides rfl hleft hright h.elements
  refine ⟨first, second, ?_, hboth⟩
  simp only [Node.Shows, Node.view, h.kind_eq, hfirst, hsecond]

theorem shows_suffixed {kind : Kind} {children : List BareTree}
    (hleft : left.isOf Kind.isValue = true) (hsuffix : Node.isSuffix kind = true)
    (h : node.Bears (.node .suffixedValue [left, .node kind children])) :
    ∃ inner suffix, node.Shows (.suffixed (some inner) (some suffix)) ∧ inner.Bears left ∧
      suffix.Bears (.node kind children) := by
  have hother : left.isOf Node.isSuffix = false := by
    obtain ⟨kind, children, rfl, hvalue⟩ := exists_node_of_isOf hleft
    cases kind <;> first | rfl | cases hvalue
  obtain ⟨inner, hinner, hone⟩ := found (firstOf?_bears h.elements Kind.isValue)
    (b := left) (by simp [hleft])
  obtain ⟨suffix, hfound, htwo⟩ := found (firstOf?_bears h.elements Node.isSuffix)
    (b := .node kind children) (by simp [hother, hsuffix])
  refine ⟨inner, suffix, ?_, hone, htwo⟩
  simp only [Node.Shows, Node.view, h.kind_eq, Node.value?, hinner, hfound]

theorem shows_rangeList (h : node.Bears (.node .rangeList (commaTrees trees)))
    (hall : ∀ tree ∈ trees, tree.isOf (· == .rangePiece) = true) :
    ∃ pieces, node.Shows (.rangeList pieces) ∧ List.Forall₂ Node.Bears pieces trees := by
  have hpieces := allOf_bears h.elements (· == .rangePiece)
  rw [filter_commaTrees_of_isOf hall] at hpieces
  refine ⟨_, ?_, hpieces⟩
  simp only [Node.Shows, Node.view, h.kind_eq]

theorem shows_bitSlice {children : List BareTree}
    (h : node.Bears (.node .bitSlice [Atom.leaf (.mark .leftBrace), .node .rangeList children,
      Atom.leaf (.mark .rightBrace)])) :
    ∃ list, node.Shows (.bitSlice (some list)) ∧ list.Bears (.node .rangeList children) := by
  obtain ⟨list, hlist, hbears⟩ := found (childOfKind?_bears h.elements .rangeList)
    (b := .node .rangeList children) (by simp)
  refine ⟨list, ?_, hbears⟩
  simp only [Node.Shows, Node.view, h.kind_eq, hlist]

theorem shows_listSlice {children : List BareTree}
    (h : node.Bears (.node .listSlice [Atom.leaf (.mark .leftBracket), .node .rangeList children,
      Atom.leaf (.mark .rightBracket)])) :
    ∃ list, node.Shows (.listSlice (some list)) ∧ list.Bears (.node .rangeList children) := by
  obtain ⟨list, hlist, hbears⟩ := found (childOfKind?_bears h.elements .rangeList)
    (b := .node .rangeList children) (by simp)
  refine ⟨list, ?_, hbears⟩
  simp only [Node.Shows, Node.view, h.kind_eq, hlist]

theorem shows_fieldAccess (name : Name)
    (h : node.Bears (.node .fieldAccess [Atom.leaf (.mark .dot), Atom.leaf (.name name)])) :
    ∃ token, node.Shows (.fieldAccess (some token)) ∧ token.text = .ok name.text := by
  obtain ⟨token, htoken, hbears⟩ := found (tokenOfKind?_bears h.elements .identifier)
    (b := (Atom.name name).word) (by simp)
  refine ⟨token, ?_, hbears.2⟩
  simp only [Node.Shows, Node.view, h.kind_eq, htoken]

theorem shows_integer (number : IntegerText)
    (h : node.Bears (.node .integer [Atom.leaf (.integer number)])) :
    node.Shows (.integer number.text (IntegerLiteral.value? number.text)) := by
  have htext := h.text
  simp only [Node.Shows, Node.view, h.kind_eq, htext]
  rfl

theorem shows_code (content : CodeText)
    (h : node.Bears (.node .code [Atom.leaf (.code content)])) :
    node.Shows (.code content.text) := by
  have htext := h.text
  have hopened : Text.dropWord? ['[', '{'] ('[' :: '{' :: (content.text ++ ['}', ']'])) =
      some (content.text ++ ['}', ']']) := Text.dropWord?_eq_some_iff.2 rfl
  have hclosed : Text.dropWord? [']', '}'] (content.text ++ ['}', ']']).reverse =
      some content.text.reverse := Text.dropWord?_eq_some_iff.2 (by simp)
  have hcode : Node.codeText (Atom.code content).word.text = content.text := by
    simp only [Node.codeText, Atom.word, hopened, Option.getD_some, hclosed, List.reverse_reverse]
  simp only [Node.Shows, Node.view, h.kind_eq, htext, bind, Except.bind, pure, Except.pure, hcode]

theorem shows_boolean (value : Bool)
    (h : node.Bears (.node .boolean [(booleanKeyword value).leaf])) :
    node.Shows (.boolean value) := by
  have hword := tokenOfKind?_bears h.elements .trueKw
  have hvalue : node.hasToken .trueKw = value := by
    cases value with
    | true =>
        obtain ⟨token, htoken, -⟩ := found hword (b := (Atom.mark .trueKw).word) rfl
        rw [Node.hasToken, htoken]
        rfl
    | false =>
        rw [Node.hasToken, notFound hword rfl]
        rfl
  simp only [Node.Shows, Node.view, h.kind_eq, hvalue]

theorem shows_uninitialized {children : List BareTree}
    (h : node.Bears (.node .uninitialized children)) : node.Shows .uninitialized := by
  simp only [Node.Shows, Node.view, h.kind_eq]

theorem shows_identifier (name : Name) (h : node.Bears (.node .ident [Atom.leaf (.name name)])) :
    ∃ token, node.Shows (.identifier (some token) name.text) ∧ token.text = .ok name.text := by
  obtain ⟨token, htoken, hbears⟩ := found (tokenOfKind?_bears h.elements .identifier)
    (b := (Atom.name name).word) (by simp)
  have htext := h.text
  refine ⟨token, ?_, hbears.2⟩
  simp only [Node.Shows, Node.view, h.kind_eq, htoken, htext]
  rfl

theorem shows_sequence (h : node.Bears (.node .sequence (Atom.leaf (.mark .leftBrace) ::
      (commaTrees trees ++ [Atom.leaf (.mark .rightBrace)]))))
    (hall : ∀ tree ∈ trees, tree.isOf Kind.isValue = true) :
    ∃ values, node.Shows (.sequence values) ∧ List.Forall₂ Node.Bears values trees := by
  have hvalues := allOf_bears h.elements Kind.isValue
  simp only [List.filter_cons, List.filter_append, filter_commaTrees_of_isOf hall, isOf_leaf,
    List.filter_nil, List.append_nil, Bool.false_eq_true, if_false] at hvalues
  refine ⟨_, ?_, hvalues⟩
  simp only [Node.Shows, Node.view, h.kind_eq]
  rfl

theorem shows_argList {opening close : Kind} {hopening : opening.isMark = true}
    {hclose : close.isMark = true}
    (h : node.Bears (.node .argList (Atom.leaf (.mark opening hopening) ::
      (commaTrees trees ++ [Atom.leaf (.mark close hclose)]))))
    (hall : ∀ tree ∈ trees, tree.isOf Kind.isValue = true) :
    ∃ values, node.values = values ∧ node.Shows (.argList values) ∧
      List.Forall₂ Node.Bears values trees := by
  have hvalues := allOf_bears h.elements Kind.isValue
  simp only [List.filter_cons, List.filter_append, filter_commaTrees_of_isOf hall, isOf_leaf,
    List.filter_nil, List.append_nil, Bool.false_eq_true, if_false] at hvalues
  refine ⟨_, rfl, ?_, hvalues⟩
  simp only [Node.Shows, Node.view, h.kind_eq]

theorem shows_record (name : Name) {children : List BareTree}
    (h : node.Bears (.node .anonymousRecord [Atom.leaf (.name name), .node .argList children])) :
    ∃ token list, node.Shows (.anonymousRecord (some token) (some list)) ∧
      token.text = .ok name.text ∧ list.Bears (.node .argList children) := by
  obtain ⟨token, htoken, htext⟩ := found (tokenOfKind?_bears h.elements .identifier)
    (b := (Atom.name name).word) (by simp)
  obtain ⟨list, hlist, hbears⟩ := found (childOfKind?_bears h.elements .argList)
    (b := .node .argList children) (by simp)
  refine ⟨token, list, ?_, htext.2, hbears⟩
  simp only [Node.Shows, Node.view, h.kind_eq, htoken, hlist]

theorem shows_condOperation
    (h : node.Bears (.node .condOperation (Atom.leaf .condOperator ::
      Atom.leaf (.mark .leftParen) :: (commaTrees trees ++ [Atom.leaf (.mark .rightParen)]))))
    (hall : ∀ tree ∈ trees, tree.isOf (· == .condClause) = true) :
    ∃ clauses, node.Shows (.condOperation clauses) ∧ List.Forall₂ Node.Bears clauses trees := by
  have hclauses := allOf_bears h.elements (· == .condClause)
  simp only [List.filter_cons, List.filter_append, filter_commaTrees_of_isOf hall, isOf_leaf,
    List.filter_nil, List.append_nil, Bool.false_eq_true, if_false] at hclauses
  refine ⟨_, ?_, hclauses⟩
  simp only [Node.Shows, Node.view, h.kind_eq]

/-! ## Types in angle brackets -/

theorem shows_primitive (type : PrimitiveType)
    (h : node.Bears (.node .primitiveType [(primitiveKeyword type).leaf])) :
    node.Shows (.primitiveType (some type)) := by
  have htype : node.primitiveType? = some type := by
    obtain ⟨token, helements, hkind, -⟩ := h.single
    rw [Node.primitiveType?, helements]
    cases type <;> simp [Element.token?, hkind, primitiveKeyword, Atom.word]
  simp only [Node.Shows, Node.view, h.kind_eq, htype]

theorem TypeName.readFrom (type : TypeName) (h : node.Bears type.tree) : type.ReadFrom node := by
  induction type generalizing node with
  | primitive type => exact shows_primitive type h
  | bits width =>
      obtain ⟨inner, hinner, hbears⟩ := found (childOfKind?_bears h.elements .integer)
        (b := .node .integer [Atom.leaf (.integer width)]) (by simp)
      refine ⟨inner, ?_, shows_integer width hbears⟩
      simp only [Node.Shows, Node.view, h.kind_eq, hinner]
  | list element ih =>
      obtain ⟨inner, hinner, hbears⟩ := found (firstOf?_bears h.elements Kind.isType)
        (b := element.tree) (by simp [element.isOf_tree])
      refine ⟨inner, ?_, ih hbears⟩
      simp only [Node.Shows, Node.view, h.kind_eq, Node.type?, hinner]
  | named name =>
      obtain ⟨token, htoken, htext⟩ := found (tokenOfKind?_bears h.elements .identifier)
        (b := (Atom.name name).word) (by simp)
      refine ⟨token, ?_, htext.2⟩
      simp only [Node.Shows, Node.view, h.kind_eq, htoken]

theorem ascribedType?_readFrom {front behind : List BareTree} (type : Option TypeName)
    (hfront : front.filter (isOf (· == .typeAscription)) = [])
    (hbehind : behind.filter (isOf (· == .typeAscription)) = [])
    (h : List.Forall₂ Element.Bears node.elements (front ++ (ascriptionTrees type ++ behind))) :
    Option.Rel TypeName.ReadFrom type node.ascribedType? := by
  have hskip : front.find? (isOf (· == .typeAscription)) = none := by
    rw [← List.head?_filter, hfront]
    rfl
  have hchild := childOfKind?_bears h .typeAscription
  cases type with
  | none =>
      have hnone : behind.find? (isOf (· == .typeAscription)) = none := by
        rw [← List.head?_filter, hbehind]
        rfl
      have hascribed : node.ascribedType? = none := by
        rw [Node.ascribedType?, notFound hchild (by simp [hskip, hnone, ascriptionTrees])]
        rfl
      rw [hascribed]
      exact .none
  | some type =>
      obtain ⟨inner, hinner, hbears⟩ := found hchild
        (b := .node .typeAscription [Atom.leaf (.mark .leftAngle), type.tree,
          Atom.leaf (.mark .rightAngle)]) (by simp [hskip, ascriptionTrees])
      obtain ⟨found, hfound, htype⟩ := found (firstOf?_bears hbears.elements Kind.isType)
        (b := type.tree) (by simp [type.isOf_tree])
      have hascribed : node.ascribedType? = some found := by
        rw [Node.ascribedType?, hinner, Option.bind_some, hfound]
      rw [hascribed]
      exact .some (type.readFrom htype)

/-! ## Lists, dags and operators -/

theorem shows_listInit (type : Option TypeName)
    (h : node.Bears (.node .listInit (Atom.leaf (.mark .leftBracket) ::
      (commaTrees trees ++ Atom.leaf (.mark .rightBracket) :: ascriptionTrees type))))
    (hall : ∀ tree ∈ trees, tree.isOf Kind.isValue = true) :
    ∃ values ascribed, node.Shows (.listInit values ascribed) ∧
      List.Forall₂ Node.Bears values trees ∧ Option.Rel TypeName.ReadFrom type ascribed := by
  have hvalues := allOf_bears h.elements Kind.isValue
  have hascription : (ascriptionTrees type).filter (isOf Kind.isValue) = [] := by
    cases type <;> rfl
  simp only [List.filter_cons, List.filter_append, filter_commaTrees_of_isOf hall, isOf_leaf,
    hascription, List.append_nil, Bool.false_eq_true, if_false] at hvalues
  have hfront : (Atom.leaf (.mark .leftBracket) :: (commaTrees trees ++
      [Atom.leaf (.mark .rightBracket)])).filter (isOf (· == .typeAscription)) = [] := by
    simpa using filter_of_isOf_ne hall rfl
  have htype := @ascribedType?_readFrom node _ [] type hfront rfl (by simpa using h.elements)
  refine ⟨_, _, ?_, hvalues, htype⟩
  simp only [Node.Shows, Node.view, h.kind_eq]
  rfl

theorem shows_bang (operator : BangOperator) (type : Option TypeName)
    (h : node.Bears (.node .bangOperation (Atom.leaf (.operator operator) ::
      (ascriptionTrees type ++ [.node .argList (Atom.leaf (.mark .leftParen) ::
        (commaTrees trees ++ [Atom.leaf (.mark .rightParen)]))]))))
    (hall : ∀ tree ∈ trees, tree.isOf Kind.isValue = true) :
    ∃ token ascribed values,
      node.Shows (.bangOperation (some token) (some operator) ascribed values) ∧
        Option.Rel TypeName.ReadFrom type ascribed ∧ List.Forall₂ Node.Bears values trees := by
  obtain ⟨token, htoken, htext⟩ := found (tokenOfKind?_bears h.elements .bangOperator)
    (b := (Atom.operator operator).word) (by simp)
  have hoperator : node.operator? = .ok (some operator) := by
    have hspelling : (Atom.operator operator).word.text = '!' :: operator.name.toList := by
      simp [Atom.word, BangOperator.spelling]
    simp only [Node.operator?, htoken, htext.2, hspelling, bind, Except.bind, pure, Except.pure,
      String.ofList_toList, operator.ofName?_name]
  have hskip : (ascriptionTrees type).find? (isOf (· == .argList)) = none := by
    cases type <;> rfl
  obtain ⟨list, hlist, hbears⟩ := found (childOfKind?_bears h.elements .argList)
    (b := .node .argList (Atom.leaf (.mark .leftParen) ::
        (commaTrees trees ++ [Atom.leaf (.mark .rightParen)]))) (by simp [hskip])
  obtain ⟨values, hvalues, -, hall⟩ := shows_argList hbears hall
  have htype := @ascribedType?_readFrom node [Atom.leaf (.operator operator)] _ type
    (by simp) (by simp) h.elements
  refine ⟨token, _, values, ?_, htype, hall⟩
  simp only [Node.Shows, Node.view, h.kind_eq, htoken, hoperator, hlist, bind, Except.bind, pure,
    Except.pure, Option.elim]
  rw [← hvalues]
  rfl

theorem shows_dagInit {comma : List Atom}
    (h : node.Bears (.node .dagInit (Atom.leaf (.mark .leftParen) :: tree ::
      (comma.map Atom.leaf ++ (commaTrees trees ++ [Atom.leaf (.mark .rightParen)])))))
    (htree : tree.isOf (· == .dagArg) = true)
    (hall : ∀ tree ∈ trees, tree.isOf (· == .dagArg) = true) :
    ∃ operator args, node.Shows (.dagInit (some operator) args) ∧ operator.Bears tree ∧
      List.Forall₂ Node.Bears args trees := by
  have hcomma : (comma.map Atom.leaf).filter (isOf (· == .dagArg)) = [] := by
    simp [List.filter_eq_nil_iff]
  have hargs := allOf_bears h.elements (· == .dagArg)
  simp only [List.filter_cons, List.filter_append, filter_commaTrees_of_isOf hall, isOf_leaf,
    hcomma, htree, List.filter_nil, List.append_nil, List.nil_append, Bool.false_eq_true,
    if_false, if_true] at hargs
  obtain ⟨operator, args, hoperator, hrest, heach⟩ := List.forall₂_cons_right_iff.1 hargs
  have hfirst : node.childOfKind? .dagArg = some operator := by
    have hhead : node.childOfKind? .dagArg = (node.allOf (· == .dagArg)).head? :=
      List.head?_filter.symm
    rw [hhead, heach]
    rfl
  refine ⟨operator, args, ?_, hoperator, hrest⟩
  simp only [Node.Shows, Node.view, h.kind_eq, hfirst, heach]
  rfl

theorem shows_plain (htree : tree.isOf Kind.isValue = true)
    (h : node.Bears (.node .dagArg [tree])) :
    ∃ inner, node.Shows (.dagArg (some inner) none) ∧ inner.Bears tree := by
  obtain ⟨kind, children, rfl, hkind⟩ := exists_node_of_isOf htree
  obtain ⟨inner, hinner, hbears⟩ := found (firstOf?_bears h.elements Kind.isValue)
    (b := .node kind children) (by simp [hkind])
  have hnone := notFound (tokenOfKind?_bears h.elements .varName) (by simp)
  refine ⟨inner, ?_, hbears⟩
  simp only [Node.Shows, Node.view, h.kind_eq, Node.value?, hinner, hnone]

theorem shows_bound (name : VarName) (htree : tree.isOf Kind.isValue = true)
    (h : node.Bears (.node .dagArg [tree, Atom.leaf (.mark .colon), Atom.leaf (.varName name)])) :
    ∃ inner token, node.Shows (.dagArg (some inner) (some token)) ∧ inner.Bears tree ∧
      token.text = .ok ('$' :: name.text) := by
  obtain ⟨kind, children, rfl, hkind⟩ := exists_node_of_isOf htree
  obtain ⟨inner, hinner, hbears⟩ := found (firstOf?_bears h.elements Kind.isValue)
    (b := .node kind children) (by simp [hkind])
  obtain ⟨token, htoken, htext⟩ := found (tokenOfKind?_bears h.elements .varName)
    (b := (Atom.varName name).word) rfl
  refine ⟨inner, token, ?_, hbears, htext.2⟩
  simp only [Node.Shows, Node.view, h.kind_eq, Node.value?, hinner, htoken]

theorem shows_named (name : VarName)
    (h : node.Bears (.node .dagArg [Atom.leaf (.varName name)])) :
    ∃ token, node.Shows (.dagArg none (some token)) ∧ token.text = .ok ('$' :: name.text) := by
  have hnone := notFound (firstOf?_bears h.elements Kind.isValue) (by simp)
  obtain ⟨token, htoken, htext⟩ := found (tokenOfKind?_bears h.elements .varName)
    (b := (Atom.varName name).word) (by simp)
  refine ⟨token, ?_, htext.2⟩
  simp only [Node.Shows, Node.view, h.kind_eq, Node.value?, hnone, htoken]

/-! ## Strings -/

def decodeWord (word : Word) : Except Fault Text :=
  match word.kind with
  | .stringContent => .ok word.text
  | .escapeSequence => StringLiteral.decodeEscape word.text
  | _ => .ok []

theorem decodePiece_of_bears {token : NodeToken} {word : Word} (h : token.Bears word) :
    StringLiteral.decodePiece token = decodeWord word := by
  obtain ⟨hkind, htext⟩ := h
  rw [StringLiteral.decodePiece, decodeWord, hkind, htext]
  rfl

theorem mapM_decodePiece {tokens : List NodeToken} {words : List Word}
    (h : List.Forall₂ NodeToken.Bears tokens words) :
    tokens.mapM StringLiteral.decodePiece = words.mapM decodeWord := by
  induction h with
  | nil => rfl
  | cons hfirst _ ih => rw [List.mapM_cons, List.mapM_cons, ih, decodePiece_of_bears hfirst]

theorem decodeEscape_eq {c : Char} {sequence : Text} (h : Quoted.Escapes c sequence) :
    StringLiteral.decodeEscape ('\\' :: sequence) = .ok [c] := by
  rw [StringLiteral.decodeEscape, if_neg (by decide), h.escaped]
  rfl

theorem mapM_decodeWord_spelled (spelled : List Spelled) :
    ∃ texts, (Spelled.pieces spelled).mapM decodeWord = .ok texts ∧
      texts.flatten = Spelled.content spelled := by
  fun_induction Spelled.pieces spelled with
  | case1 => exact ⟨[], rfl, rfl⟩
  | case2 first rest hplain ih =>
      obtain ⟨texts, htexts, hflatten⟩ := ih
      refine ⟨(first.char :: Spelled.content (rest.takeWhile Spelled.isPlain)) :: texts, ?_, ?_⟩
      · rw [List.mapM_cons, htexts]
        rfl
      · rw [List.flatten_cons, hflatten, List.cons_append, Spelled.content_run]
        rfl
  | case3 first rest hplain ih =>
      obtain ⟨texts, htexts, hflatten⟩ := ih
      obtain ⟨sequence, htext, hescapes⟩ := Spelled.escapes_of_not_isPlain hplain
      have hescape : decodeWord ⟨.escapeSequence, first.text⟩ = .ok [first.char] := by
        rw [htext]
        exact decodeEscape_eq hescapes
      refine ⟨[first.char] :: texts, ?_, by simp [hflatten, Spelled.content]⟩
      rw [List.mapM_cons, hescape, htexts]
      rfl

theorem value_of_words {words : List Word} {texts : List Text}
    (h : node.Bears (.node .string ((Quoted.quote :: (words ++ [Quoted.quote])).map .token)))
    (hwords : words.mapM decodeWord = .ok texts) :
    StringLiteral.value node = .ok texts.flatten := by
  have htokens := Element.Bears.tokens_of_words h.elements
  have hall : (Quoted.quote :: (words ++ [Quoted.quote])).mapM decodeWord =
      .ok ([] :: (texts ++ [[]])) := by
    have hquote : decodeWord Quoted.quote = .ok [] := rfl
    simp only [List.mapM_cons, List.mapM_append, List.mapM_nil, hquote, hwords, bind,
      Except.bind, pure, Except.pure]
  simp only [StringLiteral.value, mapM_decodePiece htokens, hall, bind, Except.bind, pure,
    Except.pure, List.flatten_cons, List.flatten_append, List.nil_append, List.flatten_nil,
    List.append_nil]

theorem value_of_spelled {spelled : List Spelled}
    (h : node.Bears (.node .string ((Spelled.words spelled).map .token))) :
    StringLiteral.value node = .ok (Spelled.content spelled) := by
  obtain ⟨texts, htexts, hflatten⟩ := mapM_decodeWord_spelled spelled
  exact hflatten ▸ value_of_words h htexts

theorem value_of_bears (content : Text) (h : node.Bears (stringTree content)) :
    StringLiteral.value node = .ok content := by
  rw [stringTree, ← Spelled.words_printed] at h
  simpa using value_of_spelled h

theorem shows_string (content : Text) (h : node.Bears (stringTree content)) :
    node.Shows (.string content) := by
  have hkind : node.kind = .string := h.kind_eq
  simp only [Node.Shows, Node.view, hkind, value_of_bears content h]
  rfl

theorem mapM_value_of_bears {nodes : List Node} {contents : List Text}
    (h : List.Forall₂ Node.Bears nodes (contents.map stringTree)) :
    nodes.mapM StringLiteral.value = .ok contents := by
  induction contents generalizing nodes with
  | nil =>
      obtain rfl := List.forall₂_nil_right_iff.1 h
      rfl
  | cons content contents ih =>
      obtain ⟨first, rest, hfirst, hrest, rfl⟩ := List.forall₂_cons_right_iff.1 h
      rw [List.mapM_cons, value_of_bears content hfirst, ih hrest]
      rfl

theorem shows_strings (contents : List Text)
    (h : node.Bears (.node .concatenatedString (contents.map stringTree))) :
    ∃ parts, node.Shows (.concatenatedString parts contents.flatten) ∧
      List.Forall₂ (fun content part => part.Shows (.string content)) contents parts := by
  have hparts := allOf_bears h.elements (· == .string)
  have hall : (contents.map stringTree).filter (isOf (· == .string)) = contents.map stringTree := by
    refine List.filter_eq_self.2 fun tree hmem => ?_
    obtain ⟨content, -, rfl⟩ := List.mem_map.1 hmem
    rfl
  rw [hall] at hparts
  refine ⟨node.allOf (· == .string), ?_, ?_⟩
  · simp only [Node.Shows, Node.view, h.kind_eq, mapM_value_of_bears hparts]
    rfl
  · rw [List.forall₂_map_right_iff] at hparts
    exact (hparts.imp fun part content hpart => shows_string content hpart).flip

/-! ## Ranges -/

theorem integerAt?_of_bears (value : Value) (h : node.Bears (value.tree layout)) :
    Node.integerAt? (some node) = .ok value.integer? := by
  have hkind : node.kind = (value.tree layout).kind := Element.Bears.kind_eq h
  cases value with
  | operand base =>
      cases base with
      | simple base =>
          cases base with
          | integer number =>
              have htext : node.text = .ok number.text := h.text
              simp only [Node.integerAt?, hkind, Node.integerValue?, htext]
              rfl
          | _ => simp only [Node.integerAt?, hkind]; rfl
      | _ => simp only [Node.integerAt?, hkind]; rfl
  | _ => simp only [Node.integerAt?, hkind]; rfl

theorem shows_single (value : Value)
    (h : node.Bears (.node .rangePiece [value.tree layout])) :
    ∃ inner, node.Shows (.rangePiece (some inner) none none (Range.single value).bounds?) ∧
      inner.Bears (value.tree layout) := by
  have hvalue := value.isOf_tree layout
  have hvalues := allOf_bears h.elements Kind.isValue
  obtain ⟨kind, children, htree, -⟩ := exists_node_of_isOf hvalue
  rw [List.filter_cons_of_pos hvalue, List.filter_nil] at hvalues
  obtain ⟨inner, rest, hinner, hrest, hall⟩ := List.forall₂_cons_right_iff.1 hvalues
  obtain rfl := List.forall₂_nil_right_iff.1 hrest
  have hellipsis := notFound (tokenOfKind?_bears h.elements .ellipsis) (by simp [htree])
  have hminus := notFound (tokenOfKind?_bears h.elements .minus) (by simp [htree])
  have hseparator : node.rangeSeparator? = none := by
    simp [Node.rangeSeparator?, Node.hasToken, hellipsis, hminus, Node.values, hall]
  have hbounds : node.rangeBounds? = .ok (Range.single value).bounds? := by
    simp only [Node.rangeBounds?, Node.values, hall, List.getElem?_cons_zero,
      integerAt?_of_bears layout value hinner, hseparator, bind, Except.bind, pure, Except.pure,
      Range.bounds?]
    cases value.integer? <;> rfl
  refine ⟨inner, ?_, hinner⟩
  simp only [Node.Shows, Node.view, h.kind_eq, hbounds, hseparator, Node.values, hall, bind,
    Except.bind, pure, Except.pure]
  rfl

theorem shows_span (start : Value) (mark : RangeMark) (stop : Value)
    (h : node.Bears (.node .rangePiece
      [start.tree layout, mark.atom.leaf, stop.tree layout])) :
    ∃ first last, node.Shows (.rangePiece (some first) (some last) (some mark.separator)
        (Range.span start mark stop).bounds?) ∧
      first.Bears (start.tree layout) ∧ last.Bears (stop.tree layout) := by
  have hstart := start.isOf_tree layout
  have hstop := stop.isOf_tree layout
  have hvalues := allOf_bears h.elements Kind.isValue
  obtain ⟨kind, children, htree, -⟩ := exists_node_of_isOf hstart
  obtain ⟨lastKind, lastChildren, hlastTree, -⟩ := exists_node_of_isOf hstop
  simp only [List.filter_cons, hstart, hstop, isOf_leaf, List.filter_nil, if_true,
    Bool.false_eq_true, if_false] at hvalues
  obtain ⟨first, rest, hfirst, hrest, hall⟩ := List.forall₂_cons_right_iff.1 hvalues
  obtain ⟨last, behind, hlast, hbehind, rfl⟩ := List.forall₂_cons_right_iff.1 hrest
  obtain rfl := List.forall₂_nil_right_iff.1 hbehind
  have hseparator : node.rangeSeparator? = some mark.separator := by
    have hellipsis := tokenOfKind?_bears h.elements .ellipsis
    have hminus := tokenOfKind?_bears h.elements .minus
    rw [htree, hlastTree] at hellipsis hminus
    cases mark with
    | ellipsis =>
        obtain ⟨token, htoken, -⟩ := found hellipsis (b := (Atom.mark .ellipsis).word) rfl
        simp [Node.rangeSeparator?, Node.hasToken, htoken, RangeMark.separator]
    | dash =>
        obtain ⟨token, htoken, -⟩ := found hminus (b := (Atom.mark .minus).word) rfl
        simp [Node.rangeSeparator?, Node.hasToken, notFound hellipsis rfl, htoken,
          RangeMark.separator]
  have hbounds : node.rangeBounds? = .ok (Range.span start mark stop).bounds? := by
    simp only [Node.rangeBounds?, Node.values, hall, List.getElem?_cons_zero,
      List.getElem?_cons_succ, integerAt?_of_bears layout start hfirst,
      integerAt?_of_bears layout stop hlast, hseparator, bind, Except.bind, pure, Except.pure,
      Range.bounds?]
    cases start.integer? <;> cases mark <;> rfl
  refine ⟨first, last, ?_, hfirst, hlast⟩
  simp only [Node.Shows, Node.view, h.kind_eq, hbounds, hseparator, Node.values, hall, bind,
    Except.bind, pure, Except.pure]
  rfl

end Views

/-! ## The induction -/

mutual

theorem Value.readFrom_of_bears (value : Value) {node : Node}
    (h : node.Bears (value.tree layout)) : value.ReadFrom node := by
  match value with
  | .operand base => exact base.readFrom_of_bears h
  | .paste left right =>
      obtain ⟨first, second, hnode, hfirst, hsecond⟩ :=
        shows_paste (left.isOf_tree layout) (right.isOf_tree layout) h
      exact ⟨first, second, hnode, left.readFrom_of_bears hfirst,
        right.readFrom_of_bears hsecond⟩
  | .openPaste left =>
      obtain ⟨first, hnode, hfirst⟩ := shows_openPaste (left.isOf_tree layout) h
      exact ⟨first, hnode, left.readFrom_of_bears hfirst⟩

theorem Operand.readFrom_of_bears (operand : Operand) {node : Node}
    (h : node.Bears (operand.tree layout)) : operand.ReadFrom node := by
  match operand with
  | .simple base => exact base.readFrom_of_bears h
  | .bitSlice base first rest =>
      obtain ⟨inner, suffix, hnode, hinner, hsuffix⟩ :=
        shows_suffixed (base.isOf_tree layout) rfl h
      obtain ⟨list, hslice, hlist⟩ := shows_bitSlice hsuffix
      obtain ⟨pieces, hlist, hpieces⟩ :=
        shows_rangeList hlist (Range.isOf_treeAll layout (first :: rest))
      obtain ⟨piece, others, hpiece, hothers, rfl⟩ := List.forall₂_cons_right_iff.1 hpieces
      exact ⟨inner, suffix, list, piece, others, hnode, base.readFrom_of_bears hinner, hslice,
        hlist, first.readFrom_of_bears hpiece, Range.readFromAll_of_bears rest hothers⟩
  | .listSlice base first rest =>
      obtain ⟨inner, suffix, hnode, hinner, hsuffix⟩ :=
        shows_suffixed (base.isOf_tree layout) rfl h
      obtain ⟨list, hslice, hlist⟩ := shows_listSlice hsuffix
      obtain ⟨pieces, hlist, hpieces⟩ :=
        shows_rangeList hlist (Range.isOf_treeAll layout (first :: rest))
      obtain ⟨piece, others, hpiece, hothers, rfl⟩ := List.forall₂_cons_right_iff.1 hpieces
      exact ⟨inner, suffix, list, piece, others, hnode, base.readFrom_of_bears hinner, hslice,
        hlist, first.readFrom_of_bears hpiece, Range.readFromAll_of_bears rest hothers⟩
  | .field base name =>
      obtain ⟨inner, suffix, hnode, hinner, hsuffix⟩ :=
        shows_suffixed (base.isOf_tree layout) rfl h
      obtain ⟨token, hfield, htext⟩ := shows_fieldAccess name hsuffix
      exact ⟨inner, suffix, token, hnode, base.readFrom_of_bears hinner, hfield, htext⟩

theorem Simple.readFrom_of_bears (simple : Simple) {node : Node}
    (h : node.Bears (simple.tree layout)) : simple.ReadFrom node := by
  match simple with
  | .integer number => exact shows_integer number h
  | .string content => exact shows_string content h
  | .strings first second rest => exact shows_strings (first :: second :: rest) h
  | .code content => exact shows_code content h
  | .boolean value => exact shows_boolean value h
  | .uninitialized => exact shows_uninitialized h
  | .sequence first rest =>
      obtain ⟨values, hnode, hvalues⟩ :=
        shows_sequence h (Value.isOf_treeAll layout (first :: rest))
      obtain ⟨inner, others, hinner, hothers, rfl⟩ := List.forall₂_cons_right_iff.1 hvalues
      exact ⟨inner, others, hnode, first.readFrom_of_bears hinner,
        Value.readFromAll_of_bears rest hothers⟩
  | .list values type =>
      obtain ⟨inner, ascribed, hnode, hinner, htype⟩ :=
        shows_listInit type h (Value.isOf_treeAll layout values)
      exact ⟨inner, ascribed, hnode, Value.readFromAll_of_bears values hinner, htype⟩
  | .dag operator args =>
      have hoperator : (operator.tree layout).isOf (· == .dagArg) = true := by
        cases operator <;> rfl
      obtain ⟨inner, others, hnode, hinner, hothers⟩ :=
        shows_dagInit h hoperator (DagArg.isOf_treeAll layout args)
      exact ⟨inner, others, hnode, operator.readFrom_of_bears hinner,
        DagArg.readFromAll_of_bears args hothers⟩
  | .identifier name => exact shows_identifier name h
  | .record name args =>
      obtain ⟨token, list, hnode, htext, hlist⟩ := shows_record name h
      obtain ⟨inner, -, hlist, hinner⟩ := shows_argList hlist (Value.isOf_treeAll layout args)
      exact ⟨token, list, inner, hnode, htext, hlist, Value.readFromAll_of_bears args hinner⟩
  | .bang operator type first rest =>
      obtain ⟨token, ascribed, values, hnode, htype, hvalues⟩ :=
        shows_bang operator type h (Value.isOf_treeAll layout (first :: rest))
      obtain ⟨inner, others, hinner, hothers, rfl⟩ := List.forall₂_cons_right_iff.1 hvalues
      exact ⟨token, ascribed, inner, others, hnode, htype, first.readFrom_of_bears hinner,
        Value.readFromAll_of_bears rest hothers⟩
  | .cond clauses =>
      obtain ⟨inner, hnode, hinner⟩ :=
        shows_condOperation h (Clause.isOf_treeAll layout clauses)
      exact ⟨inner, hnode, Clause.readFromAll_of_bears clauses hinner⟩

theorem Range.readFrom_of_bears (range : Range) {node : Node}
    (h : node.Bears (range.tree layout)) : range.ReadFrom node := by
  match range with
  | .single value =>
      obtain ⟨inner, hnode, hinner⟩ := shows_single layout value h
      exact ⟨inner, hnode, value.readFrom_of_bears hinner⟩
  | .span start mark stop =>
      obtain ⟨first, last, hnode, hfirst, hlast⟩ := shows_span layout start mark stop h
      exact ⟨first, last, hnode, start.readFrom_of_bears hfirst, stop.readFrom_of_bears hlast⟩

theorem DagArg.readFrom_of_bears (arg : DagArg) {node : Node}
    (h : node.Bears (arg.tree layout)) : arg.ReadFrom node := by
  match arg with
  | .plain value =>
      obtain ⟨inner, hnode, hinner⟩ := shows_plain (value.isOf_tree layout) h
      exact ⟨inner, hnode, value.readFrom_of_bears hinner⟩
  | .bound value name =>
      obtain ⟨inner, token, hnode, hinner, htext⟩ := shows_bound name (value.isOf_tree layout) h
      exact ⟨inner, token, hnode, value.readFrom_of_bears hinner, htext⟩
  | .named name => exact shows_named name h

theorem Clause.readFrom_of_bears (clause : Clause) {node : Node}
    (h : node.Bears (clause.tree layout)) : clause.ReadFrom node := by
  match clause with
  | .mk condition value =>
      obtain ⟨first, second, hnode, hfirst, hsecond⟩ :=
        shows_condClause (condition.isOf_tree layout) (value.isOf_tree layout) h
      exact ⟨first, second, hnode, condition.readFrom_of_bears hfirst,
        value.readFrom_of_bears hsecond⟩

theorem Value.readFromAll_of_bears (values : List Value) {nodes : List Node}
    (h : List.Forall₂ Node.Bears nodes (Value.treeAll layout values)) :
    Value.ReadFromAll values nodes := by
  match values with
  | [] => exact List.forall₂_nil_right_iff.1 h
  | value :: values =>
      obtain ⟨node, others, hnode, hothers, heq⟩ := List.forall₂_cons_right_iff.1 h
      exact ⟨node, others, heq, value.readFrom_of_bears hnode,
        Value.readFromAll_of_bears values hothers⟩

theorem Range.readFromAll_of_bears (ranges : List Range) {nodes : List Node}
    (h : List.Forall₂ Node.Bears nodes (Range.treeAll layout ranges)) :
    Range.ReadFromAll ranges nodes := by
  match ranges with
  | [] => exact List.forall₂_nil_right_iff.1 h
  | range :: ranges =>
      obtain ⟨node, others, hnode, hothers, heq⟩ := List.forall₂_cons_right_iff.1 h
      exact ⟨node, others, heq, range.readFrom_of_bears hnode,
        Range.readFromAll_of_bears ranges hothers⟩

theorem DagArg.readFromAll_of_bears (args : List DagArg) {nodes : List Node}
    (h : List.Forall₂ Node.Bears nodes (DagArg.treeAll layout args)) :
    DagArg.ReadFromAll args nodes := by
  match args with
  | [] => exact List.forall₂_nil_right_iff.1 h
  | arg :: args =>
      obtain ⟨node, others, hnode, hothers, heq⟩ := List.forall₂_cons_right_iff.1 h
      exact ⟨node, others, heq, arg.readFrom_of_bears hnode,
        DagArg.readFromAll_of_bears args hothers⟩

theorem Clause.readFromAll_of_bears (clauses : List Clause) {nodes : List Node}
    (h : List.Forall₂ Node.Bears nodes (Clause.treeAll layout clauses)) :
    Clause.ReadFromAll clauses nodes := by
  match clauses with
  | [] => exact List.forall₂_nil_right_iff.1 h
  | clause :: clauses =>
      obtain ⟨node, others, hnode, hothers, heq⟩ := List.forall₂_cons_right_iff.1 h
      exact ⟨node, others, heq, clause.readFrom_of_bears hnode,
        Clause.readFromAll_of_bears clauses hothers⟩

end

end Term

end TdSyntax
