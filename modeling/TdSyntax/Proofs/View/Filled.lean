import TdSyntax.Proofs.View.Complete
import TdSyntax.Proofs.View.Shown

/-!
# Lists that are not empty

A production tells how many children of a class a node has at least.  So where the
grammar asks for the items of a list, the view of the node has them.  The arguments of an
operator are left out only if nothing stands between the delimiters of their list.
-/

namespace TdSyntax

namespace Production

def least (set : Kind.Set) : Production → Nat
  | .void | .done | .many _ => 0
  | .one kinds => if (kinds.diff set).isEmpty then 1 else 0
  | .seq first second => least set first + least set second
  | .either first second => min (least set first) (least set second)
  | .enclosed _ inner => least set inner

variable {production : Production} {kinds : List Kind}

theorem least_le_countP (h : production.Fits kinds) (set : Kind.Set) :
    production.least set ≤ kinds.countP set.contains := by
  induction h with
  | done | stop | more => exact Nat.zero_le _
  | @one among kind hkind =>
      simp only [least]
      split
      case isTrue hempty =>
        rw [List.countP_cons_of_pos (contains_of_diff_isEmpty hempty hkind)]
        exact Nat.le_add_left 1 _
      case isFalse => exact Nat.zero_le _
  | seq _ _ ihFirst ihSecond =>
      rw [List.countP_append]
      exact Nat.add_le_add ihFirst ihSecond
  | left _ ih => exact Nat.le_trans (Nat.min_le_left _ _) ih
  | right _ ih => exact Nat.le_trans (Nat.min_le_right _ _) ih
  | enclosed _ ih =>
      rw [List.countP_cons, List.countP_append, Nat.add_assoc]
      exact Nat.le_trans ih (Nat.le_add_right _ _)

theorem fits_argList (h : (ofKind .argList).Fits kinds) :
    (∃ delimiter : Delimiter, kinds = [delimiter.opening, delimiter.closing]) ∨
      1 ≤ kinds.countP Kind.Set.values.contains := by
  have henclosed {delimiter : Delimiter}
      (h : (Production.enclosed delimiter (maybe (listed value))).Fits kinds) :
      kinds = [delimiter.opening, delimiter.closing] ∨
        1 ≤ kinds.countP Kind.Set.values.contains := by
    cases h with
    | enclosed hinner =>
        cases hinner with
        | left hdone =>
            cases hdone
            exact .inl rfl
        | right hlisted => exact .inr (least_le_countP (.enclosed hlisted) .values)
  cases h with
  | left h => exact (henclosed h).imp_left fun heq => ⟨_, heq⟩
  | right h => exact (henclosed h).imp_left fun heq => ⟨_, heq⟩

theorem fits_multiclassBody (h : (ofKind .multiclassBody).Fits kinds)
    (hbrace : .leftBrace ∈ kinds) :
    1 ≤ kinds.countP Kind.Set.multiclassStatements.contains := by
  cases h with
  | left hsemicolon =>
      have havoids := not_contains_of_avoids hsemicolon
        (show (kind .semicolon).avoids (.singleton .leftBrace) = true from rfl) _ hbrace
      cases havoids
  | right henclosed => exact least_le_countP henclosed .multiclassStatements

end Production

theorem Kind.isStatement_of_multiclassStatements {kind : Kind}
    (h : Set.multiclassStatements.contains kind = true) :
    kind.isToken = false ∧ kind.isStatement = true := by
  cases kind <;> first | exact ⟨rfl, rfl⟩ | cases h

namespace Node

variable {node : Node}

theorem mem_kinds_of_hasToken {kind : Kind} (h : node.hasToken kind = true) :
    kind ∈ node.elements.map Element.kind := by
  obtain ⟨token, htoken⟩ := Option.isSome_iff_exists.1 h
  have hkind : token.kind = kind := by simpa using List.find?_some htoken
  obtain ⟨element, helement, hsome⟩ := List.mem_filterMap.1 (List.mem_of_find?_eq_some htoken)
  cases element with
  | node child => cases hsome
  | token inner =>
      cases hsome
      exact List.mem_map.2 ⟨_, helement, hkind⟩

/-- The view of a node has the items that the grammar asks for: both parts of a string that
is put together, an operator in front of the arguments of a dag, and an item of each other
list that may not be empty. -/
def IsFilled (node : Node) : Prop :=
  match node.kind with
  | .bangOperation => ∃ token operator type args,
      node.Shows (.bangOperation (some token) (some operator) type args) ∧
        (args ≠ [] ∨ ∃ list ∈ node.childOfKind? .argList, ∃ delimiter : Delimiter,
          list.elements.map Element.kind = [delimiter.opening, delimiter.closing])
  | .sequence => ∃ values, node.Shows (.sequence values) ∧ values ≠ []
  | .concatenatedString => ∃ parts value,
      node.Shows (.concatenatedString parts value) ∧ 2 ≤ parts.length
  | .rangeList => ∃ pieces, node.Shows (.rangeList pieces) ∧ pieces ≠ []
  | .parentClassList => ∃ classes, node.Shows (.parentClassList classes) ∧ classes ≠ []
  | .dagInit => ∃ operator args, node.Shows (.dagInit (some operator) args)
  | .multiclassBody => ∃ statements, node.Shows (.multiclassBody statements) ∧
      (node.hasToken .leftBrace = true → statements ≠ [])
  | _ => True

namespace Sound

variable (h : node.Sound)
include h

theorem countP_le_length {set : Kind.Set} {member : Kind → Bool}
    (hset : ∀ kind, set.contains kind = true → kind.isToken = false ∧ member kind = true) :
    (node.elements.map Element.kind).countP set.contains ≤ (node.allOf member).length := by
  rw [allOf, nodes, ← List.countP_eq_length_filter, List.countP_filterMap, List.countP_map]
  refine List.countP_mono_left fun element hmem hcontains => ?_
  obtain ⟨hnode, hmember⟩ := hset _ hcontains
  rcases h.element_cases hmem with ⟨token, rfl, htoken⟩ | ⟨child, rfl, -⟩
  · cases htoken.symm.trans hnode
  · exact hmember

theorem allOf_ne_nil {set : Kind.Set} {member : Kind → Bool}
    (hset : ∀ kind, set.contains kind = true → kind.isToken = false ∧ member kind = true)
    (hcount : 1 ≤ (node.elements.map Element.kind).countP set.contains) :
    node.allOf member ≠ [] :=
  List.length_pos_iff.1 (Nat.le_trans hcount (h.countP_le_length hset))

theorem least_le_length_of_kind (kind : Kind) (hkind : kind.isToken = false) :
    (Production.ofKind node.kind).least (.singleton kind) ≤ (node.allOf (· == kind)).length := by
  refine Nat.le_trans (Production.least_le_countP h.regular.fits _) (h.countP_le_length ?_)
  intro found hfound
  simp only [Kind.Set.contains_singleton, decide_eq_true_eq] at hfound
  subst hfound
  exact ⟨hkind, beq_self_eq_true _⟩

theorem args_filled (hkind : node.kind = .argList) :
    node.values ≠ [] ∨ ∃ delimiter : Delimiter,
      node.elements.map Element.kind = [delimiter.opening, delimiter.closing] := by
  have hfits := h.regular.fits
  rw [hkind] at hfits
  rcases Production.fits_argList hfits with hbare | hcount
  · exact .inr hbare
  · exact .inl (h.allOf_ne_nil (fun _ => Kind.isValue_of_values) hcount)

theorem isFilled : node.IsFilled := by
  unfold IsFilled Shows view
  cases hkind : node.kind
  case bangOperation =>
    obtain ⟨operator, hoperator⟩ := h.operator?_eq_ok hkind
    have htoken : (node.tokenOfKind? .bangOperator).isSome = true :=
      h.tokenOfKind?_isSome (by rw [hkind]; rfl) rfl
    have hargs : (node.childOfKind? .argList).isSome = true :=
      h.childOfKind?_isSome (by rw [hkind]; rfl) rfl
    obtain ⟨token, htoken⟩ := Option.isSome_iff_exists.1 htoken
    obtain ⟨args, hargs⟩ := Option.isSome_iff_exists.1 hargs
    have hchild : args ∈ node.nodes := List.mem_of_find?_eq_some hargs
    have hargsKind : args.kind = .argList := by simpa using List.find?_some hargs
    refine ⟨token, operator, node.ascribedType?, args.values, ?_, ?_⟩
    · simp only [hoperator, htoken, hargs]
      rfl
    · exact ((h.of_mem_nodes hchild).args_filled hargsKind).imp_right fun hbare =>
        ⟨args, hargs, hbare⟩
  case sequence =>
    have hleast := Production.least_le_countP h.regular.fits .values
    rw [hkind] at hleast
    exact ⟨_, rfl, h.allOf_ne_nil (fun _ => Kind.isValue_of_values) hleast⟩
  case concatenatedString =>
    obtain ⟨texts, htexts⟩ := h.partValues_eq_ok
    have hleast := h.least_le_length_of_kind .string rfl
    rw [hkind] at hleast
    exact ⟨_, _, by simp only [htexts]; rfl, hleast⟩
  case rangeList =>
    have hleast := h.least_le_length_of_kind .rangePiece rfl
    rw [hkind] at hleast
    exact ⟨_, rfl, List.length_pos_iff.1 hleast⟩
  case parentClassList =>
    have hleast := h.least_le_length_of_kind .parentClass rfl
    rw [hkind] at hleast
    exact ⟨_, rfl, List.length_pos_iff.1 hleast⟩
  case dagInit =>
    have hoperator : (node.childOfKind? .dagArg).isSome = true :=
      h.childOfKind?_isSome (by rw [hkind]; rfl) rfl
    obtain ⟨operator, hoperator⟩ := Option.isSome_iff_exists.1 hoperator
    exact ⟨operator, _, by simp only [hoperator]; rfl⟩
  case multiclassBody =>
    refine ⟨_, rfl, fun hbrace => ?_⟩
    have hfits := h.regular.fits
    rw [hkind] at hfits
    have hcount := Production.fits_multiclassBody hfits (mem_kinds_of_hasToken hbrace)
    exact h.allOf_ne_nil (fun _ => Kind.isStatement_of_multiclassStatements) hcount
  all_goals trivial

end Sound

end Node

end TdSyntax
