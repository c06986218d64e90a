import TdSyntax.Proofs.Tree.Regular

/-!
# Complete views

A view is complete if it has all parts that its production asks for.  What a production
demands of the children is found by the accessor that looks for it, so the views of
nodes that fit their productions are complete.
-/

namespace TdSyntax

namespace View

def isComplete : View → Bool
  | .assertion condition message => condition.isSome && message.isSome
  | .classDefinition title _ record => title.isSome && record.isSome
  | .recordDefinition _ record => record.isSome
  | .recordSet type title _ => type.isSome && title.isSome
  | .definedVariable title value => title.isSome && value.isSome
  | .iteration iterator content => iterator.isSome && content.isSome
  | .conditional condition thenBranch _ => condition.isSome && thenBranch.isSome
  | .inclusion path => path.isSome
  | .letBlock _ content => content.isSome
  | .multiclass title _ _ content => title.isSome && content.isSome
  | .primitiveType type => type.isSome
  | .bitsType width => width.isSome
  | .listType element => element.isSome
  | .classType title => title.isSome
  | .dagInit operator _ => operator.isSome
  | .identifier token _ => token.isSome
  | .anonymousRecord className args => className.isSome && args.isSome
  | .bangOperation token operator _ _ => token.isSome && operator.isSome
  | .paste left _ => left.isSome
  | .suffixed value suffix => value.isSome && suffix.isSome
  | .name token _ => token.isSome
  | .templateArg type title _ => type.isSome && title.isSome
  | .recordBody _ content => content.isSome
  | .parentClass title _ => title.isSome
  | .field _ type title _ => type.isSome && title.isSome
  | .letInstruction title _ value | .letItem title _ value => title.isSome && value.isSome
  | .foreachIterator title range => title.isSome && range.isSome
  | .rangePiece start stop separator _ => start.isSome && stop.isSome == separator.isSome
  | .bitSlice ranges | .listSlice ranges => ranges.isSome
  | .fieldAccess token => token.isSome
  | .dagArg value binding => value.isSome || binding.isSome
  | .condClause condition value => condition.isSome && value.isSome
  | .typeAscription type => type.isSome
  | _ => true

end View

namespace Kind

theorem isValue_of_values {kind : Kind} (h : Set.values.contains kind = true) :
    kind.isToken = false ∧ kind.isValue = true := by
  cases kind <;> first | exact ⟨rfl, rfl⟩ | cases h

theorem isType_of_types {kind : Kind} (h : Set.types.contains kind = true) :
    kind.isToken = false ∧ kind.isType = true := by
  cases kind <;> first | exact ⟨rfl, rfl⟩ | cases h

end Kind

theorem Except.mapM_eq_ok {Item Result : Type} {step : Item → Except Fault Result}
    {items : List Item} (h : ∀ item ∈ items, ∃ result, step item = .ok result) :
    ∃ results, items.mapM step = .ok results := by
  induction items with
  | nil => exact ⟨[], rfl⟩
  | cons first rest ih =>
      obtain ⟨result, hresult⟩ := h first List.mem_cons_self
      obtain ⟨results, hresults⟩ := ih fun item hmem => h item (List.mem_cons_of_mem _ hmem)
      exact ⟨result :: results, by simp [List.mapM_cons, hresult, hresults, bind, Except.bind]; rfl⟩

theorem StringLiteral.value_eq_ok {node : Node}
    (h : ∀ token ∈ node.elements.filterMap Element.token?,
      ∃ content, token.Shows content ∧ content.Sound) :
    ∃ text, StringLiteral.value node = .ok text := by
  have hpieces : ∀ token ∈ node.elements.filterMap Element.token?,
      ∃ text, StringLiteral.decodePiece token = .ok text := by
    intro token hmem
    obtain ⟨content, hshows, hsound⟩ := h token hmem
    unfold StringLiteral.decodePiece
    split
    case h_1 => exact ⟨content.text, hshows.text⟩
    case h_2 hkind =>
      rw [NodeToken.kind, hshows.leaf] at hkind
      obtain ⟨rest, htext⟩ := hsound.escape hkind
      rw [hshows.text, htext]
      exact ⟨_, rfl⟩
    case h_3 => exact ⟨[], rfl⟩
  obtain ⟨texts, htexts⟩ := Except.mapM_eq_ok hpieces
  exact ⟨texts.flatten, by simp [StringLiteral.value, htexts, bind, Except.bind]; rfl⟩

namespace Node

variable {node : Node}

/-- The node has a complete view.  The nodes that only hold a part of another production
have none; the parts of such a node are found all the same. -/
def IsComplete (node : Node) : Prop :=
  match node.kind with
  | .elseBranch => (node.childOfKind? .block).isSome = true
  | .letList => True
  | _ => ∃ view, node.view = .ok (some view) ∧ view.isComplete = true

namespace Sound

variable (h : node.Sound)
include h

theorem exists_element {set : Kind.Set}
    (hdemands : (Production.ofKind node.kind).demands set = true) :
    ∃ element ∈ node.elements, set.contains element.kind = true := by
  obtain ⟨kind, hmem, hkind⟩ := Production.exists_of_demands h.regular.fits hdemands
  obtain ⟨element, helement, rfl⟩ := List.mem_map.1 hmem
  exact ⟨element, helement, hkind⟩

theorem find_isSome {elements : List Element} (hsubset : elements ⊆ node.elements)
    {set : Kind.Set} {member : Kind → Bool}
    (hset : ∀ kind, set.contains kind = true → kind.isToken = false ∧ member kind = true)
    (hfound : ∃ kind ∈ elements.map Element.kind, set.contains kind = true) :
    ((elements.filterMap Element.node?).find? fun child => member child.kind).isSome = true := by
  obtain ⟨kind, hmem, hkind⟩ := hfound
  obtain ⟨element, helement, rfl⟩ := List.mem_map.1 hmem
  obtain ⟨hnode, hmember⟩ := hset _ hkind
  rw [List.find?_isSome]
  rcases h.element_cases (hsubset helement) with ⟨token, rfl, htoken⟩ | ⟨child, rfl, -⟩
  · cases htoken.symm.trans hnode
  · exact ⟨child, List.mem_filterMap.2 ⟨_, helement, rfl⟩, hmember⟩

theorem firstOf?_isSome {set : Kind.Set} {member : Kind → Bool}
    (hdemands : (Production.ofKind node.kind).demands set = true)
    (hset : ∀ kind, set.contains kind = true → kind.isToken = false ∧ member kind = true) :
    (node.firstOf? member).isSome = true :=
  h.find_isSome (List.Subset.refl _) hset (Production.exists_of_demands h.regular.fits hdemands)

theorem childOfKind?_isSome {kind : Kind}
    (hdemands : (Production.ofKind node.kind).demands (.singleton kind) = true)
    (hkind : kind.isToken = false) : (node.childOfKind? kind).isSome = true := by
  have hmember : ∀ found, (Kind.Set.singleton kind).contains found = true →
      found.isToken = false ∧ (found == kind) = true := by
    intro found hfound
    simp only [Kind.Set.contains_singleton, decide_eq_true_eq] at hfound
    subst hfound
    exact ⟨hkind, beq_self_eq_true _⟩
  exact h.firstOf?_isSome hdemands hmember

theorem tokenOfKind?_of_mem {kind : Kind} (hfound : kind ∈ node.elements.map Element.kind)
    (hkind : kind.isToken = true) : (node.tokenOfKind? kind).isSome = true := by
  obtain ⟨element, hmem, rfl⟩ := List.mem_map.1 hfound
  rw [tokenOfKind?, List.find?_isSome]
  rcases h.element_cases hmem with ⟨token, rfl, -⟩ | ⟨child, rfl, hchild⟩
  · exact ⟨token, List.mem_filterMap.2 ⟨_, hmem, rfl⟩, beq_self_eq_true _⟩
  · cases hchild.symm.trans hkind

theorem tokenOfKind?_isSome {kind : Kind}
    (hdemands : (Production.ofKind node.kind).demands (.singleton kind) = true)
    (hkind : kind.isToken = true) : (node.tokenOfKind? kind).isSome = true := by
  obtain ⟨found, hmem, hfound⟩ := Production.exists_of_demands h.regular.fits hdemands
  simp only [Kind.Set.contains_singleton, decide_eq_true_eq] at hfound
  exact h.tokenOfKind?_of_mem (hfound ▸ hmem) hkind

theorem firstBefore?_isSome {separator : Kind} {set : Kind.Set} {member : Kind → Bool}
    (hdemands : (Production.ofKind node.kind).demandsBefore separator set = true)
    (hset : ∀ kind, set.contains kind = true → kind.isToken = false ∧ member kind = true) :
    (node.firstBefore? separator member).isSome = true := by
  refine h.find_isSome (List.takeWhile_prefix _).subset hset ?_
  have hfound := Production.exists_before h.regular.fits hdemands
  rw [List.takeWhile_map] at hfound
  exact hfound

theorem firstAfter?_isSome {separator : Kind} {set : Kind.Set} {member : Kind → Bool}
    (hdemands : (Production.ofKind node.kind).demandsAfter separator set = true)
    (hset : ∀ kind, set.contains kind = true → kind.isToken = false ∧ member kind = true) :
    (node.firstAfter? separator member).isSome = true := by
  refine h.find_isSome (List.dropWhile_suffix _).subset hset ?_
  have hfound := Production.exists_after h.regular.fits hdemands
  rw [List.dropWhile_map] at hfound
  exact hfound

/-! ## Classes of nodes -/

theorem value?_isSome (hdemands : (Production.ofKind node.kind).demands .values = true) :
    node.value?.isSome = true :=
  h.firstOf?_isSome hdemands fun _ => Kind.isValue_of_values

theorem type?_isSome (hdemands : (Production.ofKind node.kind).demands .types = true) :
    node.type?.isSome = true :=
  h.firstOf?_isSome hdemands fun _ => Kind.isType_of_types

theorem valueBefore_isSome {separator : Kind}
    (hdemands : (Production.ofKind node.kind).demandsBefore separator .values = true) :
    (node.firstBefore? separator Kind.isValue).isSome = true :=
  h.firstBefore?_isSome hdemands fun _ => Kind.isValue_of_values

theorem valueAfter_isSome {separator : Kind}
    (hdemands : (Production.ofKind node.kind).demandsAfter separator .values = true) :
    (node.firstAfter? separator Kind.isValue).isSome = true :=
  h.firstAfter?_isSome hdemands fun _ => Kind.isValue_of_values

/-! ## Texts -/

theorem text_eq_ok (kind : Kind) (hproduction : Production.ofKind node.kind = .kind kind)
    (hkind : kind.isToken = true) : ∃ text, node.text = .ok text := by
  have hfits := h.regular.fits
  rw [hproduction] at hfits
  generalize hkinds : node.elements.map Element.kind = kinds at hfits
  cases hfits with
  | one hfound =>
      simp only [Kind.Set.contains_singleton, decide_eq_true_eq] at hfound
      subst hfound
      obtain ⟨element, helements, helement⟩ := List.map_eq_singleton_iff.1 hkinds
      rcases h.element_cases (helements ▸ List.mem_singleton.2 rfl) with
        ⟨token, rfl, -⟩ | ⟨child, rfl, hchild⟩
      · exact h.regular.text token helements
      · rw [← helement] at hkind
        cases hchild.symm.trans hkind

theorem integerValue?_eq_ok (hkind : node.kind = .integer) :
    ∃ value, node.integerValue? = .ok value := by
  obtain ⟨text, htext⟩ := h.text_eq_ok .integerLiteral (by rw [hkind]; rfl) rfl
  exact ⟨IntegerLiteral.value? text, by simp [integerValue?, htext, bind, Except.bind]; rfl⟩

theorem exists_content {token : NodeToken} (hmem : token ∈ node.elements.filterMap Element.token?) :
    ∃ content, token.Shows content ∧ content.Sound := by
  obtain ⟨element, helement, htoken⟩ := List.mem_filterMap.1 hmem
  cases element with
  | node child => cases htoken
  | token token =>
      cases htoken
      exact h.regular.tokens token (mem_tokens_of_mem_elements helement)

theorem stringValue_eq_ok : ∃ text, StringLiteral.value node = .ok text :=
  StringLiteral.value_eq_ok fun _ => h.exists_content

theorem partValues_eq_ok :
    ∃ texts, (node.allOf (· == .string)).mapM StringLiteral.value = .ok texts :=
  Except.mapM_eq_ok fun _ hpart =>
    (h.of_mem_nodes (List.mem_filter.1 hpart).1).stringValue_eq_ok

theorem operator?_eq_ok (hkind : node.kind = .bangOperation) :
    ∃ operator, node.operator? = .ok (some operator) := by
  have hfound : (node.tokenOfKind? .bangOperator).isSome = true :=
    h.tokenOfKind?_isSome (by rw [hkind]; rfl) rfl
  obtain ⟨token, htoken⟩ := Option.isSome_iff_exists.1 hfound
  obtain ⟨content, hshows, hsound⟩ := h.exists_content (List.mem_of_find?_eq_some htoken)
  have hcontent : content.kind = .bangOperator := by
    have hfoundKind := List.find?_some htoken
    rw [beq_iff_eq, NodeToken.kind, hshows.leaf] at hfoundKind
    exact hfoundKind
  obtain ⟨name, operator, htext, hname⟩ := hsound.operator hcontent
  refine ⟨operator, ?_⟩
  simp only [operator?, htoken, hshows.text, htext, bind, Except.bind, hname]
  rfl

theorem directives_eq_ok : ∃ texts, node.directives = .ok texts := by
  have htrivia : ∀ token ∈ node.tokens, ∃ trivia, (do
      let leading ← token.leadingTrivia
      let trailing ← token.trailingTrivia
      pure (leading ++ trailing)) = Except.ok trivia := by
    intro token hmem
    obtain ⟨content, hshows, -⟩ := h.regular.tokens token hmem
    obtain ⟨leading, hleading, -⟩ := hshows.leading
    obtain ⟨trailing, htrailing, -⟩ := hshows.trailing
    exact ⟨leading ++ trailing, by simp [hleading, htrailing, bind, Except.bind]; rfl⟩
  obtain ⟨trivia, hall⟩ := Except.mapM_eq_ok htrivia
  exact ⟨_, by rw [directives, hall]; rfl⟩

/-! ## Parts with a form of their own -/

theorem primitiveType?_isSome (hkind : node.kind = .primitiveType) :
    node.primitiveType?.isSome = true := by
  have hdemands : (Production.ofKind node.kind).demands
      (.ofList [.bitKw, .intKw, .stringKw, .dagKw, .codeKw]) = true := by
    rw [hkind]
    rfl
  obtain ⟨element, hmem, hfound⟩ := h.exists_element hdemands
  simp only [Kind.Set.contains_ofList, decide_eq_true_eq, List.mem_cons, List.not_mem_nil,
    or_false] at hfound
  rw [primitiveType?, List.findSome?_isSome_iff]
  rcases h.element_cases hmem with ⟨token, rfl, -⟩ | ⟨child, rfl, hchild⟩
  · refine ⟨token, List.mem_filterMap.2 ⟨_, hmem, rfl⟩, ?_⟩
    simp only [Element.kind] at hfound
    rcases hfound with hfound | hfound | hfound | hfound | hfound <;> rw [hfound] <;> rfl
  · simp only [Element.kind] at hfound
    rcases hfound with hfound | hfound | hfound | hfound | hfound <;>
      · rw [hfound] at hchild
        cases hchild

theorem foreachRange?_isSome (hkind : node.kind = .foreachIterator) :
    node.foreachRange?.isSome = true := by
  have hdemands : (Production.ofKind node.kind).demands (.ofList [.rangeList, .rangePiece]) =
      true := by
    rw [hkind]
    rfl
  obtain ⟨element, hmem, hfound⟩ := h.exists_element hdemands
  simp only [Kind.Set.contains_ofList, decide_eq_true_eq, List.mem_cons, List.not_mem_nil,
    or_false] at hfound
  rw [foreachRange?, List.findSome?_isSome_iff]
  rcases h.element_cases hmem with ⟨token, rfl, htoken⟩ | ⟨child, rfl, -⟩
  · simp only [Element.kind] at hfound
    rcases hfound with hfound | hfound <;>
      · rw [hfound] at htoken
        cases htoken
  · refine ⟨child, mem_nodes_iff.2 hmem, ?_⟩
    simp only [Element.kind] at hfound
    rcases hfound with hfound | hfound <;> rw [hfound] <;> rfl

theorem dagArg_isSome (hkind : node.kind = .dagArg) :
    node.value?.isSome = true ∨ (node.tokenOfKind? .varName).isSome = true := by
  have hfits := h.regular.fits
  rw [hkind] at hfits
  cases hfits with
  | left hvalue =>
      exact .inl (h.find_isSome (List.Subset.refl _) (fun _ => Kind.isValue_of_values)
        (Production.exists_of_demands hvalue rfl))
  | right hvariable =>
      have hdemands : (Production.kind .varName).demands (.singleton .varName) = true := rfl
      obtain ⟨found, hmem, hfound⟩ := Production.exists_of_demands hvariable hdemands
      simp only [Kind.Set.contains_singleton, decide_eq_true_eq] at hfound
      exact .inr (h.tokenOfKind?_of_mem (hfound ▸ hmem) rfl)

theorem rangePiece_elements (hkind : node.kind = .rangePiece) :
    ∃ start, start.kind.isValue = true ∧
      (node.elements = [.node start] ∨
        ∃ stop, stop.kind.isValue = true ∧ (node.elements = [.node start, .node stop] ∨
          ∃ separator, (separator.kind = .ellipsis ∨ separator.kind = .minus) ∧
            node.elements = [.node start, .token separator, .node stop])) := by
  have hvalue {element : Element} (hmem : element ∈ node.elements)
      (hfound : Kind.Set.values.contains element.kind = true) :
      ∃ child, element = .node child ∧ child.kind.isValue = true := by
    obtain ⟨hnotToken, hvalue⟩ := Kind.isValue_of_values hfound
    rcases h.element_cases hmem with ⟨token, rfl, htoken⟩ | ⟨child, rfl, -⟩
    · cases htoken.symm.trans hnotToken
    · exact ⟨child, rfl, hvalue⟩
  have hcases {element : Element} (hmem : element ∈ node.elements) := h.element_cases hmem
  have hfits := h.regular.fits
  rw [hkind] at hfits
  obtain ⟨startKind, hstart, hforms⟩ := Production.fits_rangePiece hfits
  rcases hforms with hkinds | ⟨stopKind, hstop, hkinds | ⟨separatorKind, hseparator, hkinds⟩⟩
  · obtain ⟨first, helements, rfl⟩ := List.map_eq_singleton_iff.1 hkinds
    rw [helements] at hvalue ⊢
    obtain ⟨start, rfl, hstartValue⟩ := hvalue List.mem_cons_self hstart
    exact ⟨start, hstartValue, .inl rfl⟩
  · obtain ⟨first, rest, helements, rfl, hrest⟩ := List.map_eq_cons_iff.1 hkinds
    obtain ⟨last, rfl, rfl⟩ := List.map_eq_singleton_iff.1 hrest
    rw [helements] at hvalue ⊢
    obtain ⟨start, rfl, hstartValue⟩ := hvalue List.mem_cons_self hstart
    obtain ⟨stop, rfl, hstopValue⟩ := hvalue (List.mem_cons_of_mem _ List.mem_cons_self) hstop
    exact ⟨start, hstartValue, .inr ⟨stop, hstopValue, .inl rfl⟩⟩
  · obtain ⟨first, rest, helements, rfl, hrest⟩ := List.map_eq_cons_iff.1 hkinds
    obtain ⟨middle, others, rfl, rfl, hothers⟩ := List.map_eq_cons_iff.1 hrest
    obtain ⟨last, rfl, rfl⟩ := List.map_eq_singleton_iff.1 hothers
    rw [helements] at hvalue hcases ⊢
    obtain ⟨start, rfl, hstartValue⟩ := hvalue List.mem_cons_self hstart
    obtain ⟨stop, rfl, hstopValue⟩ := hvalue (by simp) hstop
    refine ⟨start, hstartValue, .inr ⟨stop, hstopValue, .inr ?_⟩⟩
    rcases hcases (List.mem_cons_of_mem _ List.mem_cons_self) with
      ⟨separator, rfl, -⟩ | ⟨child, rfl, hchild⟩
    · exact ⟨separator, hseparator, rfl⟩
    · rcases hseparator with heq | heq
      · cases hchild.symm.trans (congrArg Kind.isToken heq)
      · cases hchild.symm.trans (congrArg Kind.isToken heq)

omit h in
theorem integerAt?_eq_ok {child : Option Node} (hchild : ∀ inner, child = some inner → inner.Sound) :
    ∃ value, integerAt? child = .ok value := by
  cases child with
  | none => exact ⟨none, rfl⟩
  | some inner =>
      by_cases hkind : inner.kind = .integer
      · obtain ⟨value, hvalue⟩ := (hchild inner rfl).integerValue?_eq_ok hkind
        exact ⟨value, by simp [integerAt?, hkind, hvalue]⟩
      · exact ⟨none, by simp [integerAt?, hkind]⟩

theorem rangeBounds?_eq_ok : ∃ bounds, node.rangeBounds? = .ok bounds := by
  have hvalues (index : Nat) : ∀ inner, node.values[index]? = some inner → inner.Sound := by
    intro inner hinner
    exact h.of_mem_nodes (List.mem_filter.1 (List.mem_of_getElem? hinner)).1
  obtain ⟨start, hstart⟩ := integerAt?_eq_ok (hvalues 0)
  obtain ⟨stop, hstop⟩ := integerAt?_eq_ok (hvalues 1)
  unfold rangeBounds?
  simp only [hstart, hstop, bind, Except.bind]
  cases start with
  | none => exact ⟨none, rfl⟩
  | some start =>
      dsimp only
      split <;> exact ⟨_, rfl⟩

theorem rangePiece_isSome (hkind : node.kind = .rangePiece) :
    node.values[0]?.isSome = true ∧
      node.values[1]?.isSome = node.rangeSeparator?.isSome := by
  obtain ⟨start, hstart, hforms⟩ := h.rangePiece_elements hkind
  rcases hforms with helements | ⟨stop, hstop, helements | ⟨separator, hseparator, helements⟩⟩
  · simp [rangeSeparator?, hasToken, tokenOfKind?, values, allOf, nodes, helements, Element.node?,
      Element.token?, hstart]
  · simp [rangeSeparator?, hasToken, tokenOfKind?, values, allOf, nodes, helements, Element.node?,
      Element.token?, hstart, hstop]
  · rcases hseparator with hseparator | hseparator <;>
      simp [rangeSeparator?, hasToken, tokenOfKind?, values, allOf, nodes, helements,
        Element.node?, Element.token?, hstart, hstop, hseparator]

theorem isComplete : node.IsComplete := by
  have hfits := h.regular.fits
  unfold IsComplete view
  cases hkind : node.kind
  case elseBranch => exact h.childOfKind?_isSome (by rw [hkind]; rfl) rfl
  case letList => trivial
  case sourceFile =>
    obtain ⟨texts, htexts⟩ := h.directives_eq_ok
    exact ⟨_, by simp only [htexts]; rfl, rfl⟩
  case integer | code =>
    obtain ⟨text, htext⟩ := h.text_eq_ok _ (by rw [hkind]; rfl) rfl
    exact ⟨_, by simp only [htext]; rfl, rfl⟩
  case ident | name =>
    obtain ⟨text, htext⟩ := h.text_eq_ok .identifier (by rw [hkind]; rfl) rfl
    refine ⟨_, by simp only [htext]; rfl, ?_⟩
    exact h.tokenOfKind?_isSome (by rw [hkind]; rfl) rfl
  case string =>
    obtain ⟨text, htext⟩ := h.stringValue_eq_ok
    exact ⟨_, by simp only [htext]; rfl, rfl⟩
  case concatenatedString =>
    obtain ⟨texts, htexts⟩ := h.partValues_eq_ok
    exact ⟨_, by simp only [htexts]; rfl, rfl⟩
  case bangOperation =>
    obtain ⟨operator, hoperator⟩ := h.operator?_eq_ok hkind
    refine ⟨_, by simp only [hoperator]; rfl, ?_⟩
    simp only [View.isComplete, Option.isSome_some, Bool.and_true]
    exact h.tokenOfKind?_isSome (by rw [hkind]; rfl) rfl
  case primitiveType => exact ⟨_, rfl, h.primitiveType?_isSome hkind⟩
  case foreachIterator =>
    refine ⟨_, rfl, ?_⟩
    simp only [View.isComplete, h.foreachRange?_isSome hkind, Bool.and_true]
    exact h.childOfKind?_isSome (by rw [hkind]; rfl) rfl
  case dagArg =>
    refine ⟨_, rfl, ?_⟩
    simpa only [View.isComplete, Bool.or_eq_true] using h.dagArg_isSome hkind
  case suffixedValue =>
    have hsuffix : ∀ kind, (Kind.Set.ofList [.bitSlice, .listSlice, .fieldAccess]).contains kind =
        true → kind.isToken = false ∧ isSuffix kind = true := by
      intro kind hfound
      simp only [Kind.Set.contains_ofList, decide_eq_true_eq, List.mem_cons, List.not_mem_nil,
        or_false] at hfound
      rcases hfound with rfl | rfl | rfl <;> exact ⟨rfl, rfl⟩
    refine ⟨_, rfl, ?_⟩
    simp only [View.isComplete, Bool.and_eq_true]
    exact ⟨h.value?_isSome (by rw [hkind]; rfl), h.firstOf?_isSome (by rw [hkind]; rfl) hsuffix⟩
  case rangePiece =>
    obtain ⟨bounds, hbounds⟩ := h.rangeBounds?_eq_ok
    obtain ⟨hstart, hstop⟩ := h.rangePiece_isSome hkind
    exact ⟨_, by simp only [hbounds]; rfl, by simp [View.isComplete, hstart, hstop]⟩
  case sequence | listInit | uninitialized | boolean | condOperation | argList | body | block |
      templateArgs | parentClassList | multiclassBody | rangeList | defmStmt =>
    exact ⟨_, rfl, rfl⟩
  case assertStmt | classStmt | defStmt | defsetStmt | defvarStmt | foreachStmt | ifStmt |
      includeStmt | letStmt | multiclassStmt | bitsType | listType | classType | dagInit |
      anonymousRecord | pasteValue | templateArg | recordBody | parentClass | field |
      letInstruction | letItem | bitSlice | listSlice | fieldAccess | condClause |
      typeAscription =>
    refine ⟨_, rfl, ?_⟩
    simp only [View.isComplete, Bool.and_eq_true]
    repeat' apply And.intro
    all_goals first
      | exact h.childOfKind?_isSome (by rw [hkind]; rfl) rfl
      | exact h.tokenOfKind?_isSome (by rw [hkind]; rfl) rfl
      | exact h.value?_isSome (by rw [hkind]; rfl)
      | exact h.type?_isSome (by rw [hkind]; rfl)
      | exact h.valueBefore_isSome (by rw [hkind]; rfl)
      | exact h.valueAfter_isSome (by rw [hkind]; rfl)
  all_goals
    rw [hkind] at hfits
    cases hfits

end Sound

end Node

end TdSyntax
