import TdSyntax.Proofs.Term.StatementMeaning
import TdSyntax.Proofs.Term.StatementTree
import TdSyntax.Proofs.Term.ValueMeant

/-!
# The parts of statements are read back from their trees

Each view finds its parts among the children, the optional ones where they are
written.
-/

namespace TdSyntax

namespace Term

open BareTree Node

variable (layout : Layout) {node : Node} {tree : BareTree} {trees front behind : List BareTree}

theorem isOf_ne {member : Kind → Bool} {kind : Kind} (h : tree.isOf member = true)
    (hkind : member kind = false) : tree.isOf (· == kind) = false := by
  obtain ⟨other, children, rfl, hother⟩ := exists_node_of_isOf h
  rw [isOf_node, beq_eq_false_iff_ne]
  rintro rfl
  rw [hkind] at hother
  cases hother

theorem readFrom_map {α : Type} {items : List α} {nodes : List Node} {tree : α → BareTree}
    {read : α → Node → Prop} (h : List.Forall₂ Node.Bears nodes (items.map tree))
    (hread : ∀ item node, Node.Bears node (tree item) → read item node) :
    List.Forall₂ read items nodes := by
  rw [List.forall₂_map_right_iff] at h
  exact (h.imp fun node item hbears => hread item node hbears).flip

theorem filter_map_tree {α : Type} {member : Kind → Bool} {tree : α → BareTree} (items : List α)
    (h : ∀ item, (tree item).isOf member = true) :
    (items.map tree).filter (isOf member) = items.map tree := by
  refine List.filter_eq_self.2 fun found hmem => ?_
  obtain ⟨item, -, rfl⟩ := List.mem_map.1 hmem
  exact h item

/-! ## Names, initializers and ranges -/

theorem readFrom_nameTree (name : Name) (h : node.Bears (nameTree name)) :
    name.ReadFrom node := by
  obtain ⟨token, htoken, hbears⟩ := found (tokenOfKind?_bears h.elements .identifier)
    (b := (Atom.name name).word) rfl
  have hkind : node.kind = .name := h.kind_eq
  have htext : node.text = .ok name.text := h.text
  refine ⟨token, ?_, hbears.2⟩
  simp only [Node.Shows, Node.view, hkind, htoken, htext]
  rfl

theorem initial?_readFrom (initial : Option Value) (hfront : ∀ tree ∈ front, tree.kind ≠ .eq)
    (hbehind : ∀ tree ∈ behind, tree.kind ≠ .eq)
    (h : List.Forall₂ Element.Bears node.elements
      (front ++ (initializerTrees layout initial ++ behind))) :
    Option.Rel Value.ReadFrom initial node.initial? := by
  have hinitial := firstAfter?_bears h .eq Kind.isValue
  rw [List.dropWhile_append_of_pos (by simpa using hfront)] at hinitial
  cases initial with
  | none =>
      have hnone : node.initial? = none := by
        refine notFound hinitial ?_
        rw [initializerTrees, List.nil_append, List.dropWhile_eq_nil_iff.2 (by simpa using hbehind)]
        rfl
      rw [hnone]
      exact .none
  | some value =>
      obtain ⟨inner, hinner, hbears⟩ := found hinitial (b := value.tree layout)
        (by simp [initializerTrees, value.isOf_tree layout])
      rw [Node.initial?, hinner]
      exact .some (value.readFrom_of_bears layout hbears)

theorem initial?_some (value : Value) (hfront : ∀ tree ∈ front, tree.kind ≠ .eq)
    (hbehind : ∀ tree ∈ behind, tree.kind ≠ .eq)
    (h : List.Forall₂ Element.Bears node.elements
      (front ++ (Atom.leaf (.mark .eq) :: value.tree layout :: behind))) :
    ∃ inner, node.initial? = some inner ∧ value.ReadFrom inner := by
  have hinitial := initial?_readFrom layout (some value) hfront hbehind h
  cases hvalue : node.initial? with
  | none => rw [hvalue] at hinitial; cases hinitial
  | some inner =>
      rw [hvalue] at hinitial
      cases hinitial with
      | some hread => exact ⟨inner, rfl, hread⟩

theorem Ranges.readFrom_of_bears (ranges : Ranges) (h : node.Bears (ranges.tree layout)) :
    ranges.ReadFrom node := by
  obtain ⟨pieces, hnode, hpieces⟩ :=
    shows_rangeList h (Range.isOf_treeAll layout (ranges.first :: ranges.rest))
  obtain ⟨piece, others, hpiece, hothers, rfl⟩ := List.forall₂_cons_right_iff.1 hpieces
  exact ⟨piece, others, hnode, ranges.first.readFrom_of_bears layout hpiece,
    Range.readFromAll_of_bears layout ranges.rest hothers⟩

theorem bits_readFrom {opening close : Atom} (bits : Option Ranges)
    (hfront : front.find? (isOf (· == .rangeList)) = none)
    (hbehind : behind.find? (isOf (· == .rangeList)) = none)
    (h : List.Forall₂ Element.Bears node.elements
      (front ++ (bracketedTrees layout opening close bits ++ behind))) :
    Option.Rel Ranges.ReadFrom bits (node.childOfKind? .rangeList) := by
  have hchild := childOfKind?_bears h .rangeList
  rw [List.find?_append, hfront, Option.none_or] at hchild
  cases bits with
  | none =>
      rw [notFound hchild hbehind]
      exact .none
  | some ranges =>
      obtain ⟨list, hlist, hbears⟩ := found hchild (b := ranges.tree layout) rfl
      rw [hlist]
      exact .some (ranges.readFrom_of_bears layout hbears)

/-! ## Arguments and parents -/

theorem TemplateArg.readFrom_of_bears (arg : TemplateArg) (node : Node)
    (h : node.Bears (arg.tree layout)) : arg.ReadFrom node := by
  have htype := arg.type.isOf_tree
  obtain ⟨type, hfound, hbears⟩ := found (firstOf?_bears h.elements Kind.isType)
    (b := arg.type.tree) (by simp [htype])
  obtain ⟨name, hname, hname'⟩ := found (childOfKind?_bears h.elements .name)
    (b := nameTree arg.name)
    (by simp [isOf_ne htype (rfl : Kind.isType .name = false), nameTree])
  have hfront : ∀ tree ∈ [arg.type.tree, nameTree arg.name], tree.kind ≠ .eq := by
    simp [kind_ne_of_isOf htype (rfl : Kind.isType .eq = false), nameTree]
  have hinitial := @initial?_readFrom layout node _ [] arg.initial hfront (by simp)
    (by simpa using h.elements)
  refine ⟨type, name, node.initial?, ?_, arg.type.readFrom hbears,
    readFrom_nameTree arg.name hname', hinitial⟩
  have hkind : node.kind = .templateArg := h.kind_eq
  simp only [Node.Shows, Node.view, hkind, Node.type?, hfound, hname]

theorem templateArgs_readFrom (args : List TemplateArg)
    (h : node.Bears (.node .templateArgs (Atom.leaf (.mark .leftAngle) ::
      (commaTrees (args.map (TemplateArg.tree layout)) ++ [Atom.leaf (.mark .rightAngle)])))) :
    TemplateArgsReadFrom args node := by
  have hall : (args.map (TemplateArg.tree layout)).filter (isOf (· == .templateArg)) =
      args.map (TemplateArg.tree layout) := filter_map_tree args fun _ => rfl
  have hargs := allOf_bears h.elements (· == .templateArg)
  simp only [List.filter_cons, List.filter_append, filter_commaTrees, isOf_leaf, hall,
    List.filter_nil, List.append_nil, Bool.false_eq_true, if_false] at hargs
  refine ⟨_, ?_, readFrom_map hargs fun arg => arg.readFrom_of_bears layout⟩
  simp only [Node.Shows, Node.view, h.kind_eq]

theorem templateTrees_readFrom (args : Option (List TemplateArg))
    (hfront : front.find? (isOf (· == .templateArgs)) = none)
    (hbehind : behind.find? (isOf (· == .templateArgs)) = none)
    (h : List.Forall₂ Element.Bears node.elements
      (front ++ (templateTrees layout args ++ behind))) :
    Option.Rel TemplateArgsReadFrom args (node.childOfKind? .templateArgs) := by
  have hchild := childOfKind?_bears h .templateArgs
  rw [List.find?_append, hfront, Option.none_or] at hchild
  cases args with
  | none =>
      rw [notFound hchild hbehind]
      exact .none
  | some args =>
      obtain ⟨list, hlist, hbears⟩ := found hchild rfl
      rw [hlist]
      exact .some (templateArgs_readFrom layout args hbears)

theorem ParentClass.readFrom_of_bears (parent : ParentClass) (node : Node)
    (h : node.Bears (parent.tree layout)) : parent.ReadFrom node := by
  obtain ⟨token, htoken, htext⟩ := found (tokenOfKind?_bears h.elements .identifier)
    (b := (Atom.name parent.name).word) rfl
  have hargs : Option.Rel ArgListReadFrom parent.args (node.childOfKind? .argList) := by
    have hchild := childOfKind?_bears h.elements .argList
    cases hlist : parent.args with
    | none =>
        rw [hlist] at hchild
        rw [notFound hchild rfl]
        exact .none
    | some values =>
        rw [hlist] at hchild
        obtain ⟨list, hlist, hbears⟩ := found hchild rfl
        obtain ⟨inner, -, hshows, hinner⟩ :=
          shows_argList hbears (Value.isOf_treeAll layout values)
        rw [hlist]
        exact .some ⟨inner, hshows, Value.readFromAll_of_bears layout values hinner⟩
  refine ⟨token, _, ?_, htext.2, hargs⟩
  have hkind : node.kind = .parentClass := h.kind_eq
  simp only [Node.Shows, Node.view, hkind, htoken]

theorem parents_readFrom (parents : List ParentClass)
    (hfront : front.find? (isOf (· == .parentClassList)) = none)
    (hbehind : behind.find? (isOf (· == .parentClassList)) = none)
    (h : List.Forall₂ Element.Bears node.elements
      (front ++ (parentTrees layout parents ++ behind))) :
    ParentsReadFrom parents (node.childOfKind? .parentClassList) := by
  have hchild := childOfKind?_bears h .parentClassList
  rw [List.find?_append, hfront, Option.none_or] at hchild
  cases parents with
  | nil => exact notFound hchild hbehind
  | cons parent parents =>
      obtain ⟨list, hlist, hbears⟩ := found hchild rfl
      have hall : ((parent :: parents).map (ParentClass.tree layout)).filter
          (isOf (· == .parentClass)) = (parent :: parents).map (ParentClass.tree layout) :=
        filter_map_tree (parent :: parents) fun _ => rfl
      have hclasses := allOf_bears hbears.elements (· == .parentClass)
      rw [List.filter_cons_of_neg (by simp), filter_commaTrees, hall] at hclasses
      refine ⟨list, _, hlist, ?_, readFrom_map hclasses fun parent =>
        parent.readFrom_of_bears layout⟩
      simp only [Node.Shows, Node.view, hbears.kind_eq]

/-! ## Record bodies -/

theorem definition_readFrom (name : Name) (value : Value)
    (h : node.Bears (definitionTree layout name value)) : DefinitionReadFrom name value node := by
  obtain ⟨nameNode, hname, hbears⟩ := found (childOfKind?_bears h.elements .name)
    (b := nameTree name) rfl
  have hfront : ∀ tree ∈ [Atom.leaf (.mark .defvarKw), nameTree name], tree.kind ≠ .eq := by
    simp [nameTree]
  have hbehind : ∀ tree ∈ [Atom.leaf (.mark .semicolon)], tree.kind ≠ .eq := by simp
  obtain ⟨inner, hinner, hvalue⟩ := initial?_some layout value hfront hbehind h.elements
  refine ⟨nameNode, inner, ?_, readFrom_nameTree name hbears, hvalue⟩
  have hkind : node.kind = .defvarStmt := h.kind_eq
  simp only [Node.Shows, Node.view, hkind, hname, hinner]

theorem assertion_readFrom (condition message : Value)
    (h : node.Bears (assertionTree layout condition message)) :
    AssertionReadFrom condition message node := by
  have hcondition := condition.isOf_tree layout
  have hmessage := message.isOf_tree layout
  have hcomma := kind_ne_of_isOf hcondition (rfl : Kind.isValue .comma = false)
  obtain ⟨first, hfirst, hone⟩ := found (firstBefore?_bears h.elements .comma Kind.isValue)
    (b := condition.tree layout) (by simp [hcomma, hcondition])
  obtain ⟨second, hsecond, htwo⟩ := found (firstAfter?_bears h.elements .comma Kind.isValue)
    (b := message.tree layout) (by simp [hcomma, hmessage])
  refine ⟨first, second, ?_, condition.readFrom_of_bears layout hone,
    message.readFrom_of_bears layout htwo⟩
  have hkind : node.kind = .assertStmt := h.kind_eq
  simp only [Node.Shows, Node.view, hkind, hfirst, hsecond]

theorem field_readFrom (hasKeyword : Bool) (type : TypeName) (name : Name)
    (initial : Option Value)
    (h : node.Bears ((BodyItem.field hasKeyword type name initial).tree layout)) :
    (BodyItem.field hasKeyword type name initial).ReadFrom node := by
  have htype := type.isOf_tree
  have hname := isOf_ne htype (rfl : Kind.isType .name = false)
  have heq := kind_ne_of_isOf htype (rfl : Kind.isType .eq = false)
  obtain ⟨typeNode, hfound, hbears⟩ := found (firstOf?_bears h.elements Kind.isType)
    (b := type.tree) (by cases hasKeyword <;> simp [htype])
  obtain ⟨nameNode, hdeclared, hname⟩ := found (childOfKind?_bears h.elements .name)
    (b := nameTree name) (by cases hasKeyword <;> simp [hname, nameTree])
  have hkeyword : node.hasToken .fieldKw = hasKeyword := by
    have htoken := tokenOfKind?_bears h.elements .fieldKw
    cases hasKeyword with
    | true =>
        obtain ⟨token, htoken, -⟩ := found htoken (b := (Atom.mark .fieldKw).word) rfl
        rw [Node.hasToken, htoken]
        rfl
    | false =>
        obtain ⟨kind, children, htree, -⟩ := exists_node_of_isOf htype
        have hnone : node.tokenOfKind? .fieldKw = none := by
          refine notFound htoken ?_
          cases initial with
          | none => simp [htree, nameTree, initializerTrees]
          | some value =>
              obtain ⟨kind, children, hvalue, -⟩ := exists_node_of_isOf (value.isOf_tree layout)
              simp [htree, nameTree, initializerTrees, hvalue]
        rw [Node.hasToken, hnone]
        rfl
  have hfront : ∀ tree ∈ (if hasKeyword then [Atom.leaf (.mark .fieldKw)] else []) ++
      [type.tree, nameTree name], tree.kind ≠ .eq := by
    cases hasKeyword <;> simp [heq, nameTree]
  have hbehind : ∀ tree ∈ [Atom.leaf (.mark .semicolon)], tree.kind ≠ .eq := by simp
  have hinitial := initial?_readFrom layout initial hfront hbehind
    (by simpa [BodyItem.tree] using h.elements)
  refine ⟨typeNode, nameNode, node.initial?, ?_, type.readFrom hbears,
    readFrom_nameTree name hname, hinitial⟩
  have hkind : node.kind = .field := h.kind_eq
  simp only [Node.Shows, Node.view, hkind, Node.type?, hfound, hdeclared, hkeyword]

theorem letInstruction_readFrom (name : Name) (bits : Option Ranges) (value : Value)
    (h : node.Bears ((BodyItem.letInstruction name bits value).tree layout)) :
    (BodyItem.letInstruction name bits value).ReadFrom node := by
  obtain ⟨nameNode, hname, hbears⟩ := found (childOfKind?_bears h.elements .name)
    (b := nameTree name) rfl
  have hvalue := isOf_ne (value.isOf_tree layout) (rfl : Kind.isValue .rangeList = false)
  have hbits := @bits_readFrom layout node [Atom.leaf (.mark .letKw), nameTree name]
    [Atom.leaf (.mark .eq), value.tree layout, Atom.leaf (.mark .semicolon)]
    (.mark .leftBrace) (.mark .rightBrace) bits rfl (by simp [hvalue]) h.elements
  have hfront : ∀ tree ∈ [Atom.leaf (.mark .letKw), nameTree name] ++
      bracketedTrees layout (.mark .leftBrace) (.mark .rightBrace) bits, tree.kind ≠ .eq := by
    cases bits <;> simp [nameTree, bracketedTrees, Ranges.tree]
  have hbehind : ∀ tree ∈ [Atom.leaf (.mark .semicolon)], tree.kind ≠ .eq := by simp
  obtain ⟨inner, hinner, hvalue⟩ := initial?_some layout value hfront hbehind
    (by simpa [BodyItem.tree] using h.elements)
  refine ⟨nameNode, _, inner, ?_, readFrom_nameTree name hbears, hbits, hvalue⟩
  have hkind : node.kind = .letInstruction := h.kind_eq
  simp only [Node.Shows, Node.view, hkind, hname, hinner]

theorem BodyItem.readFrom_of_bears (item : BodyItem) (node : Node)
    (h : node.Bears (item.tree layout)) : item.ReadFrom node := by
  cases item with
  | field hasKeyword type name initial => exact field_readFrom layout hasKeyword type name initial h
  | letInstruction name bits value => exact letInstruction_readFrom layout name bits value h
  | definedVariable name value => exact definition_readFrom layout name value h
  | assertion condition message => exact assertion_readFrom layout condition message h

theorem body_shows (items : Option (List BodyItem)) (h : node.Bears (bodyTree layout items)) :
    ∃ inner, node.Shows (.body items.isNone inner) ∧
      List.Forall₂ BodyItem.ReadFrom (items.getD []) inner := by
  have hkind : node.kind = .body := by cases items <;> exact h.kind_eq
  cases items with
  | none =>
      obtain ⟨token, helements, hword⟩ := h.single
      refine ⟨[], ?_, .nil⟩
      have hkind' : token.kind = .semicolon := hword.1
      simp [Node.Shows, Node.view, hkind, Node.hasToken, Node.tokenOfKind?, helements, hkind',
        Node.allOf, Node.nodes, Element.token?, Element.node?]
  | some items =>
      have hall : (items.map (BodyItem.tree layout)).filter (isOf Kind.isBodyItem) =
          items.map (BodyItem.tree layout) :=
        filter_map_tree items fun item => by cases item <;> rfl
      have hitems := allOf_bears h.elements Kind.isBodyItem
      rw [List.filter_cons_of_neg (by simp), List.filter_append, hall,
        List.filter_cons_of_neg (by simp), List.filter_nil, List.append_nil] at hitems
      obtain ⟨token, htoken, -⟩ := found (tokenOfKind?_bears h.elements .leftBrace)
        (b := (Atom.mark .leftBrace).word) rfl
      refine ⟨_, ?_, readFrom_map hitems fun item => item.readFrom_of_bears layout⟩
      simp [Node.Shows, Node.view, hkind, Node.hasToken, htoken]

theorem RecordBody.readFrom_of_bears (body : RecordBody) (h : node.Bears (body.tree layout)) :
    body.ReadFrom node := by
  have hparents := @parents_readFrom layout node [] [bodyTree layout body.items] body.parents rfl
    (by cases body.items <;> rfl) h.elements
  have hskip : (parentTrees layout body.parents).find? (isOf (· == .body)) = none := by
    cases body.parents <;> rfl
  obtain ⟨inner, hinner, hbears⟩ := found (childOfKind?_bears h.elements .body)
    (b := bodyTree layout body.items) (by rw [List.find?_append, hskip]; cases body.items <;> rfl)
  obtain ⟨items, hbody, hitems⟩ := body_shows layout body.items hbears
  refine ⟨_, inner, items, ?_, hparents, hbody, hitems⟩
  have hkind : node.kind = .recordBody := h.kind_eq
  simp only [Node.Shows, Node.view, hkind, hinner]

/-! ## Loops and the items of a `let` -/

theorem LetItem.readFrom_of_bears (item : LetItem) (node : Node)
    (h : node.Bears (item.tree layout)) : item.ReadFrom node := by
  obtain ⟨nameNode, hname, hbears⟩ := found (childOfKind?_bears h.elements .name)
    (b := nameTree item.name) rfl
  have hvalue := isOf_ne (item.value.isOf_tree layout) (rfl : Kind.isValue .rangeList = false)
  have hbits := @bits_readFrom layout node [nameTree item.name]
    [Atom.leaf (.mark .eq), item.value.tree layout]
    (.mark .leftAngle) (.mark .rightAngle) item.bits rfl (by simp [hvalue]) h.elements
  have hfront : ∀ tree ∈ [nameTree item.name] ++
      bracketedTrees layout (.mark .leftAngle) (.mark .rightAngle) item.bits, tree.kind ≠ .eq := by
    cases item.bits <;> simp [nameTree, bracketedTrees, Ranges.tree]
  obtain ⟨inner, hinner, hvalue⟩ := @initial?_some layout node _ [] item.value hfront (by simp)
    (by simpa [LetItem.tree] using h.elements)
  refine ⟨nameNode, _, inner, ?_, readFrom_nameTree item.name hbears, hbits, hvalue⟩
  have hkind : node.kind = .letItem := h.kind_eq
  simp only [Node.Shows, Node.view, hkind, hname, hinner]

theorem nodes_of_iterator {range : BareTree} (name : Name)
    (hrange : trees.filter (isOf fun _ => true) = [range])
    (h : List.Forall₂ Element.Bears node.elements
      (nameTree name :: Atom.leaf (.mark .eq) :: trees)) :
    ∃ first second, node.nodes = [first, second] ∧ first.Bears (nameTree name) ∧
      second.Bears range := by
  have hnodes := Element.Bears.filter_nodes h fun _ => true
  have hpair : (nameTree name :: Atom.leaf (.mark .eq) :: trees).filter (isOf fun _ => true) =
      [nameTree name, range] := by
    rw [List.filter_cons_of_pos rfl, List.filter_cons_of_neg (by simp), hrange]
  rw [List.filter_true, hpair] at hnodes
  obtain ⟨first, rest, hfirst, hrest, hall⟩ := List.forall₂_cons_right_iff.1 hnodes
  obtain ⟨second, others, hsecond, hothers, rfl⟩ := List.forall₂_cons_right_iff.1 hrest
  obtain rfl := List.forall₂_nil_right_iff.1 hothers
  exact ⟨first, second, hall, hfirst, hsecond⟩

theorem foreachRange?_readFrom (name : Name) (range : LoopRange)
    (h : List.Forall₂ Element.Bears node.elements
      (nameTree name :: Atom.leaf (.mark .eq) :: range.trees layout)) :
    ∃ source, node.foreachRange? = some source ∧ range.ReadFrom source := by
  cases range with
  | list ranges =>
      obtain ⟨first, second, hnodes, hfirst, hsecond⟩ := nodes_of_iterator name rfl h
      have hname : first.kind = .name := hfirst.kind_eq
      have hlist : second.kind = .rangeList := hsecond.kind_eq
      refine ⟨.list second, ?_, ranges.readFrom_of_bears layout hsecond⟩
      simp only [Node.foreachRange?, hnodes, List.findSome?_cons, hname, hlist]
  | piece range =>
      have htree : (LoopRange.trees layout (.piece range)).filter (isOf fun _ => true) =
          [range.tree layout] := by
        cases range <;> rfl
      obtain ⟨first, second, hnodes, hfirst, hsecond⟩ := nodes_of_iterator name htree h
      have hname : first.kind = .name := hfirst.kind_eq
      have hpiece : second.kind = .rangePiece := by cases range <;> exact hsecond.kind_eq
      refine ⟨.piece second, ?_, range.readFrom_of_bears layout hsecond⟩
      simp only [Node.foreachRange?, hnodes, List.findSome?_cons, hname, hpiece]

theorem iterator_shows (name : Name) (range : LoopRange)
    (h : node.Bears (iteratorTree layout name range)) :
    ∃ nameNode source, node.Shows (.foreachIterator (some nameNode) (some source)) ∧
      name.ReadFrom nameNode ∧ range.ReadFrom source := by
  have hkind : node.kind = .foreachIterator := h.kind_eq
  obtain ⟨nameNode, hname, hbears⟩ := found (childOfKind?_bears h.elements .name)
    (b := nameTree name) rfl
  obtain ⟨source, hsource, hrange⟩ := foreachRange?_readFrom layout name range h.elements
  refine ⟨nameNode, source, ?_, readFrom_nameTree name hbears, hrange⟩
  simp only [Node.Shows, Node.view, hkind, hname, hsource]

end Term

end TdSyntax
