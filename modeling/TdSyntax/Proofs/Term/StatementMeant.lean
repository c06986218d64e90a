import TdSyntax.Proofs.Term.PartsMeant

/-!
# Statements are read back from their trees

By induction over statements and blocks at once.
-/

namespace TdSyntax.Term

open BareTree Node

variable (layout : Layout) {node : Node} {tree second third : BareTree} {trees : List BareTree}

theorem Statement.isOf_tree (statement : Statement) :
    (statement.tree layout).isOf Kind.isStatement = true := by
  cases statement <;> rfl

theorem Block.isOf_tree (block : Block) : (block.tree layout).isOf (· == .block) = true := by
  cases block <;> rfl

theorem Statement.isOf_treeAll (statements : List Statement) :
    ∀ tree ∈ Statement.treeAll layout statements, tree.isOf Kind.isStatement = true := by
  induction statements with
  | nil => simp [Statement.treeAll]
  | cons statement statements ih =>
      simpa [Statement.treeAll, statement.isOf_tree layout] using ih

/-! ## What views show -/

theorem statements_bears {front behind : List BareTree}
    (hfront : front.filter (isOf Kind.isStatement) = [])
    (hbehind : behind.filter (isOf Kind.isStatement) = [])
    (hall : ∀ tree ∈ trees, tree.isOf Kind.isStatement = true)
    (h : List.Forall₂ Element.Bears node.elements (front ++ (trees ++ behind))) :
    List.Forall₂ Node.Bears node.statements trees := by
  have hstatements := allOf_bears h Kind.isStatement
  rw [List.filter_append, hfront, List.nil_append, List.filter_append,
    List.filter_eq_self.2 hall, hbehind, List.append_nil] at hstatements
  exact hstatements

theorem shows_braced
    (h : node.Bears (.node .block (Atom.leaf (.mark .leftBrace) ::
      (trees ++ [Atom.leaf (.mark .rightBrace)]))))
    (hall : ∀ tree ∈ trees, tree.isOf Kind.isStatement = true) :
    ∃ inner, node.Shows (.block true inner) ∧ List.Forall₂ Node.Bears inner trees := by
  obtain ⟨token, htoken, -⟩ := found (tokenOfKind?_bears h.elements .leftBrace)
    (b := (Atom.mark .leftBrace).word) rfl
  have hstatements := @statements_bears node trees [Atom.leaf (.mark .leftBrace)]
    [Atom.leaf (.mark .rightBrace)] rfl rfl hall h.elements
  refine ⟨node.statements, ?_, hstatements⟩
  simp [Node.Shows, Node.view, h.kind_eq, Node.hasToken, htoken]

theorem shows_single_statement (htree : tree.isOf Kind.isStatement = true)
    (h : node.Bears (.node .block [tree])) :
    ∃ inner, node.Shows (.block false [inner]) ∧ inner.Bears tree := by
  have hstatements := allOf_bears h.elements Kind.isStatement
  rw [List.filter_cons_of_pos htree, List.filter_nil] at hstatements
  obtain ⟨inner, rest, hinner, hrest, hall⟩ := List.forall₂_cons_right_iff.1 hstatements
  obtain rfl := List.forall₂_nil_right_iff.1 hrest
  obtain ⟨kind, children, rfl, -⟩ := exists_node_of_isOf htree
  have hnone := notFound (tokenOfKind?_bears h.elements .leftBrace) (by simp)
  refine ⟨inner, ?_, hinner⟩
  simp [Node.Shows, Node.view, h.kind_eq, Node.hasToken, hnone, Node.statements, hall]

theorem shows_multiclassBody (h : node.Bears (multiclassTree trees))
    (hall : ∀ tree ∈ trees, tree.isOf Kind.isStatement = true) :
    ∃ inner, node.Shows (.multiclassBody inner) ∧ List.Forall₂ Node.Bears inner trees := by
  have hkind : node.kind = .multiclassBody := h.kind_eq
  have hstatements : List.Forall₂ Node.Bears node.statements trees := by
    cases trees with
    | nil => exact allOf_bears h.elements Kind.isStatement
    | cons tree trees =>
        exact @statements_bears node (tree :: trees) [Atom.leaf (.mark .leftBrace)]
          [Atom.leaf (.mark .rightBrace)] rfl rfl hall h.elements
  refine ⟨node.statements, ?_, hstatements⟩
  simp only [Node.Shows, Node.view, hkind]

theorem conditional_parts {rest : List BareTree} (htree : tree.isOf Kind.isValue = true)
    (hsecond : second.isOf (· == .block) = true)
    (h : List.Forall₂ Element.Bears node.elements
      (Atom.leaf (.mark .ifKw) :: tree :: Atom.leaf (.mark .thenKw) :: second :: rest)) :
    ∃ condition branch, node.value? = some condition ∧ node.childOfKind? .block = some branch ∧
      condition.Bears tree ∧ branch.Bears second := by
  obtain ⟨condition, hcondition, hone⟩ := found (firstOf?_bears h Kind.isValue)
    (b := tree) (by simp [htree])
  obtain ⟨branch, hbranch, htwo⟩ := found (childOfKind?_bears h .block)
    (b := second) (by simp [isOf_ne htree (rfl : Kind.isValue .block = false), hsecond])
  exact ⟨condition, branch, hcondition, hbranch, hone, htwo⟩

theorem shows_conditional (htree : tree.isOf Kind.isValue = true)
    (hsecond : second.isOf (· == .block) = true)
    (h : node.Bears (.node .ifStmt [Atom.leaf (.mark .ifKw), tree,
      Atom.leaf (.mark .thenKw), second])) :
    ∃ condition branch, node.Shows (.conditional (some condition) (some branch) none) ∧
      condition.Bears tree ∧ branch.Bears second := by
  obtain ⟨condition, branch, hcondition, hbranch, hboth⟩ :=
    conditional_parts htree hsecond h.elements
  obtain ⟨kind, children, rfl, hkind⟩ := exists_node_of_isOf hsecond
  obtain rfl : kind = .block := by simpa using hkind
  have hnone := notFound (childOfKind?_bears h.elements .elseBranch)
    (by simp [isOf_ne htree (rfl : Kind.isValue .elseBranch = false)])
  refine ⟨condition, branch, ?_, hboth⟩
  simp [Node.Shows, Node.view, h.kind_eq, hcondition, hbranch, hnone]

theorem shows_alternative (htree : tree.isOf Kind.isValue = true)
    (hsecond : second.isOf (· == .block) = true) (hthird : third.isOf (· == .block) = true)
    (h : node.Bears (.node .ifStmt [Atom.leaf (.mark .ifKw), tree,
      Atom.leaf (.mark .thenKw), second, .node .elseBranch [Atom.leaf (.mark .elseKw), third]])) :
    ∃ condition branch other,
      node.Shows (.conditional (some condition) (some branch) (some other)) ∧
        condition.Bears tree ∧ branch.Bears second ∧ other.Bears third := by
  obtain ⟨condition, branch, hcondition, hbranch, hone, htwo⟩ :=
    conditional_parts htree hsecond h.elements
  obtain ⟨kind, children, rfl, hkind⟩ := exists_node_of_isOf hsecond
  obtain rfl : kind = .block := by simpa using hkind
  obtain ⟨inner, hinner, hbears⟩ := found (childOfKind?_bears h.elements .elseBranch)
    (b := .node .elseBranch [Atom.leaf (.mark .elseKw), third])
    (by simp [isOf_ne htree (rfl : Kind.isValue .elseBranch = false)])
  obtain ⟨other, hother, hthree⟩ := found (childOfKind?_bears hbears.elements .block)
    (b := third) (by simp [hthird])
  refine ⟨condition, branch, other, ?_, hone, htwo, hthree⟩
  simp [Node.Shows, Node.view, h.kind_eq, hcondition, hbranch, hinner, hother]

/-! ## Records -/

theorem recordName_readFrom {front behind : List BareTree} (name : Option Value)
    (hfront : front.find? (isOf Kind.isValue) = none)
    (hbehind : behind.find? (isOf Kind.isValue) = none)
    (h : List.Forall₂ Element.Bears node.elements
      (front ++ (recordNameTrees layout name ++ behind))) :
    Option.Rel Value.ReadFrom name node.value? := by
  have hvalue := firstOf?_bears h Kind.isValue
  rw [List.find?_append, hfront, Option.none_or] at hvalue
  cases name with
  | none =>
      rw [Node.value?, notFound hvalue hbehind]
      exact .none
  | some value =>
      obtain ⟨inner, hinner, hbears⟩ := found hvalue (b := value.tree layout)
        (by simp [recordNameTrees, value.isOf_tree layout])
      rw [Node.value?, hinner]
      exact .some (value.readFrom_of_bears layout hbears)

theorem find?_recordName {kind : Kind} (name : Option Value) (hkind : kind.isValue = false) :
    (recordNameTrees layout name).find? (isOf (· == kind)) = none := by
  cases name with
  | none => rfl
  | some value => simp [recordNameTrees, isOf_ne (value.isOf_tree layout) hkind]

theorem classDefinition_readFrom (name : Name) (args : Option (List TemplateArg))
    (body : RecordBody) (h : node.Bears ((Statement.classDefinition name args body).tree layout)) :
    (Statement.classDefinition name args body).ReadFrom node := by
  have hkind : node.kind = .classStmt := h.kind_eq
  obtain ⟨nameNode, hname, hbears⟩ := found (childOfKind?_bears h.elements .name)
    (b := nameTree name) rfl
  have hargs := @templateTrees_readFrom layout node [Atom.leaf (.mark .classKw), nameTree name]
    [body.tree layout] args rfl rfl h.elements
  obtain ⟨inner, hinner, hbody⟩ := found (childOfKind?_bears h.elements .recordBody)
    (b := body.tree layout) (by cases args <;> rfl)
  refine ⟨nameNode, _, inner, ?_, readFrom_nameTree name hbears, hargs,
    body.readFrom_of_bears layout hbody⟩
  simp only [Node.Shows, Node.view, hkind, hname, hinner]

theorem recordDefinition_readFrom (name : Option Value) (body : RecordBody)
    (h : node.Bears ((Statement.recordDefinition name body).tree layout)) :
    (Statement.recordDefinition name body).ReadFrom node := by
  have hkind : node.kind = .defStmt := h.kind_eq
  have hname := @recordName_readFrom layout node [Atom.leaf (.mark .defKw)] [body.tree layout]
    name rfl rfl h.elements
  obtain ⟨inner, hinner, hbody⟩ := found (childOfKind?_bears h.elements .recordBody)
    (b := body.tree layout) (by
      rw [List.find?_cons_of_neg (by simp), List.find?_append,
        find?_recordName layout name rfl]
      rfl)
  refine ⟨_, inner, ?_, hname, body.readFrom_of_bears layout hbody⟩
  simp only [Node.Shows, Node.view, hkind, hinner]

theorem recordInstances_readFrom (name : Option Value) (parents : List ParentClass)
    (h : node.Bears ((Statement.recordInstances name parents).tree layout)) :
    (Statement.recordInstances name parents).ReadFrom node := by
  have hkind : node.kind = .defmStmt := h.kind_eq
  have hname := @recordName_readFrom layout node [Atom.leaf (.mark .defmKw)]
    (parentTrees layout parents ++ [Atom.leaf (.mark .semicolon)]) name rfl
    (by cases parents <;> rfl) h.elements
  have hskip : (Atom.leaf (.mark .defmKw) :: recordNameTrees layout name).find?
      (isOf (· == .parentClassList)) = none := by
    rw [List.find?_cons_of_neg (by simp)]
    exact find?_recordName layout name rfl
  have hparents := @parents_readFrom layout node _ [Atom.leaf (.mark .semicolon)] parents hskip
    rfl h.elements
  refine ⟨_, _, ?_, hname, hparents⟩
  simp only [Node.Shows, Node.view, hkind]

/-! ## The induction -/

mutual

theorem Statement.readFrom_of_bears (statement : Statement) {node : Node}
    (h : node.Bears (statement.tree layout)) : statement.ReadFrom node := by
  match statement with
  | .assertion condition message => exact assertion_readFrom layout condition message h
  | .classDefinition name args body => exact classDefinition_readFrom layout name args body h
  | .recordDefinition name body => exact recordDefinition_readFrom layout name body h
  | .recordInstances name parents => exact recordInstances_readFrom layout name parents h
  | .recordSet type name statements =>
      have hkind : node.kind = .defsetStmt := h.kind_eq
      have htype := type.isOf_tree
      obtain ⟨typeNode, hfound, hbears⟩ := found (firstOf?_bears h.elements Kind.isType)
        (b := type.tree) (by simp [htype])
      obtain ⟨nameNode, hname, hdeclared⟩ := found (childOfKind?_bears h.elements .name)
        (b := nameTree name) (by simp [isOf_ne htype (rfl : Kind.isType .name = false), nameTree])
      have hfront : [Atom.leaf (.mark .defsetKw), type.tree, nameTree name,
          Atom.leaf (.mark .eq), Atom.leaf (.mark .leftBrace)].filter
            (isOf Kind.isStatement) = [] := by
        cases type <;> rfl
      have hstatements := @statements_bears node _ _ [Atom.leaf (.mark .rightBrace)] hfront rfl
        (Statement.isOf_treeAll layout statements) h.elements
      refine ⟨typeNode, nameNode, node.statements, ?_, type.readFrom hbears,
        readFrom_nameTree name hdeclared, Statement.readFromAll_of_bears statements hstatements⟩
      simp only [Node.Shows, Node.view, hkind, Node.type?, hfound, hname]
  | .definedVariable name value => exact definition_readFrom layout name value h
  | .iteration name range body =>
      have hkind : node.kind = .foreachStmt := h.kind_eq
      obtain ⟨iterator, hiterator, hbears⟩ := found (childOfKind?_bears h.elements .foreachIterator)
        (b := iteratorTree layout name range) rfl
      obtain ⟨inner, hinner, hbody⟩ := found (childOfKind?_bears h.elements .block)
        (b := body.tree layout) (by simp [iteratorTree, body.isOf_tree layout])
      obtain ⟨nameNode, source, hshows, hname, hrange⟩ := iterator_shows layout name range hbears
      refine ⟨iterator, nameNode, source, inner, ?_, hshows, hname, hrange,
        body.readFrom_of_bears hbody⟩
      simp only [Node.Shows, Node.view, hkind, hiterator, hinner]
  | .conditional condition thenBranch =>
      obtain ⟨first, second, hnode, hfirst, hsecond⟩ :=
        shows_conditional (condition.isOf_tree layout) (thenBranch.isOf_tree layout) h
      exact ⟨first, second, hnode, condition.readFrom_of_bears layout hfirst,
        thenBranch.readFrom_of_bears hsecond⟩
  | .alternative condition thenBranch elseBranch =>
      obtain ⟨first, second, third, hnode, hfirst, hsecond, hthird⟩ :=
        shows_alternative (condition.isOf_tree layout) (thenBranch.isOf_tree layout)
          (elseBranch.isOf_tree layout) h
      exact ⟨first, second, third, hnode, condition.readFrom_of_bears layout hfirst,
        thenBranch.readFrom_of_bears hsecond, elseBranch.readFrom_of_bears hthird⟩
  | .inclusion path =>
      have hkind : node.kind = .includeStmt := h.kind_eq
      obtain ⟨inner, hinner, hbears⟩ := found (childOfKind?_bears h.elements .string)
        (b := stringTree path) rfl
      refine ⟨inner, ?_, shows_string path hbears⟩
      simp only [Node.Shows, Node.view, hkind, hinner]
  | .letBlock items body =>
      have hkind : node.kind = .letStmt := h.kind_eq
      obtain ⟨list, hlist, hbears⟩ := found (childOfKind?_bears h.elements .letList)
        (b := .node .letList (commaTrees (items.map (LetItem.tree layout)))) rfl
      have hitems := allOf_bears hbears.elements (· == .letItem)
      rw [filter_commaTrees, filter_map_tree items fun _ => rfl] at hitems
      obtain ⟨inner, hinner, hbody⟩ := found (childOfKind?_bears h.elements .block)
        (b := body.tree layout) (by simp [body.isOf_tree layout])
      refine ⟨_, inner, ?_, readFrom_map hitems fun item => item.readFrom_of_bears layout,
        body.readFrom_of_bears hbody⟩
      simp only [Node.Shows, Node.view, hkind, hlist, hinner]
      rfl
  | .multiclass name args parents statements =>
      have hkind : node.kind = .multiclassStmt := h.kind_eq
      obtain ⟨nameNode, hname, hbears⟩ := found (childOfKind?_bears h.elements .name)
        (b := nameTree name) rfl
      have hargs := @templateTrees_readFrom layout node
        [Atom.leaf (.mark .multiclassKw), nameTree name]
        (parentTrees layout parents ++ [multiclassTree (Statement.treeAll layout statements)]) args
        rfl (by cases parents <;> rfl) h.elements
      have hskip : (Atom.leaf (.mark .multiclassKw) :: nameTree name ::
          templateTrees layout args).find? (isOf (· == .parentClassList)) = none := by
        cases args <;> rfl
      have hparents := @parents_readFrom layout node _
        [multiclassTree (Statement.treeAll layout statements)] parents hskip rfl h.elements
      obtain ⟨inner, hinner, hbody⟩ := found (childOfKind?_bears h.elements .multiclassBody)
        (b := multiclassTree (Statement.treeAll layout statements))
        (by cases args <;> cases parents <;> rfl)
      obtain ⟨nodes, hshows, hnodes⟩ :=
        shows_multiclassBody hbody (Statement.isOf_treeAll layout statements)
      refine ⟨nameNode, _, _, inner, nodes, ?_, readFrom_nameTree name hbears, hargs, hparents,
        hshows, Statement.readFromAll_of_bears statements hnodes⟩
      simp only [Node.Shows, Node.view, hkind, hname, hinner]

theorem Block.readFrom_of_bears (block : Block) {node : Node}
    (h : node.Bears (block.tree layout)) : block.ReadFrom node := by
  match block with
  | .single statement =>
      obtain ⟨inner, hnode, hinner⟩ := shows_single_statement (statement.isOf_tree layout) h
      exact ⟨inner, hnode, statement.readFrom_of_bears hinner⟩
  | .braced statements =>
      obtain ⟨inner, hnode, hinner⟩ := shows_braced h (Statement.isOf_treeAll layout statements)
      exact ⟨inner, hnode, Statement.readFromAll_of_bears statements hinner⟩

theorem Statement.readFromAll_of_bears (statements : List Statement) {nodes : List Node}
    (h : List.Forall₂ Node.Bears nodes (Statement.treeAll layout statements)) :
    Statement.ReadFromAll statements nodes := by
  match statements with
  | [] => exact List.forall₂_nil_right_iff.1 h
  | statement :: statements =>
      obtain ⟨node, others, hnode, hothers, heq⟩ := List.forall₂_cons_right_iff.1 h
      exact ⟨node, others, heq, statement.readFrom_of_bears hnode,
        Statement.readFromAll_of_bears statements hothers⟩

end

end TdSyntax.Term
