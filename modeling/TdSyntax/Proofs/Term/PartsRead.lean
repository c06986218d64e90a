import TdSyntax.Grammar.Statements
import TdSyntax.Proofs.Term.StatementTree
import TdSyntax.Proofs.Term.ValueRead

/-!
# The parts of statements are read as their trees

Names, initializers, ranges between brackets, arguments and parents of records, record
bodies and the items of a `let`.  Each is read to its end in front of a token that it
does not take up.
-/

namespace TdSyntax.Term

open Grammar

variable (layout : Layout) {next close : Kind}

theorem Value.closed (value : Value) (h : closesValue .anywhere next = true) :
    anyValue.Yields (value.atoms layout) next [value.tree layout] true :=
  value.yields layout value.fits_anywhere (value.takesUp_of_closes h)

theorem Value.before {kind : Kind} {hmark : kind.isMark = true} (value : Value)
    (rest : List Atom) (h : closesValue .anywhere kind = true) :
    anyValue.Yields (value.atoms layout) (Atom.headKind (.mark kind hmark :: rest) next)
      [value.tree layout] true := value.closed layout h

theorem declaredName_yields (name : Name) (next : Kind) :
    declaredName.Yields [.name name] next [nameTree name] true :=
  ifKind_pos rfl (node_yields (bump_leaf rfl next))

theorem initializer_yields (initial : Option Value) (h : closesValue .anywhere next = true)
    (hne : next ≠ .eq) :
    Grammar.initializer.Yields (initializer layout initial) next (initializerTrees layout initial)
      true := by
  cases initial with
  | none => exact ifOk_eat_none hne (accept_yields next)
  | some value => exact ifOk_eat rfl (value.closed layout h)

theorem Ranges.yields (ranges : Ranges) (hcloses : closesValue .anywhere close = true)
    (hjoin : joinsRange close = false) (hne : close ≠ .comma) :
    rangeList.Yields (ranges.atoms layout) close [ranges.tree layout] true := by
  have helements := List.Forall₂.cons
    (ranges.first.element close (fun _ => ranges.first.yields layout) hcloses hjoin)
    (Range.elements layout close ranges.rest hcloses hjoin)
  exact rangeList_yields (by simp) hne helements

theorem bracketed_yields {opening : Kind} (hopening : opening.isMark = true)
    (hmark : close.isMark = true) (bits : Option Ranges)
    (hcloses : closesValue .anywhere close = true) (hjoin : joinsRange close = false)
    (hcomma : close ≠ .comma) (hne : next ≠ opening) :
    (Grammar.ifOk (eat opening) (all [rangeList, expect close]) .accept).Yields
      (bracketed layout (.mark opening hopening) (.mark close hmark) bits) next
      (bracketedTrees layout (.mark opening hopening) (.mark close hmark) bits) true := by
  cases bits with
  | none => exact ifOk_eat_none hne (accept_yields next)
  | some ranges =>
      exact ifOk_eat hopening (seq_tree (ranges.yields layout hcloses hjoin hcomma)
        (expect_mark hmark next))

/-! ## Arguments and parents -/

theorem TypeName.headKind_atoms (type : TypeName) (next : Kind) :
    Atom.headKind type.atoms next = type.firstKind := by
  cases type <;> rfl

theorem TypeName.starts (type : TypeName) (next : Kind) :
    typeFirst.contains (Atom.headKind type.atoms next) = true := by
  rw [type.headKind_atoms]
  cases type with
  | primitive type => cases type <;> rfl
  | _ => simp only [TypeName.firstKind]; rfl

abbrev TemplateElement : List Atom → BareTree → Prop :=
  Grammar.Element templateArg typeFirst .rightAngle

theorem TemplateArg.element (arg : TemplateArg) :
    TemplateElement (arg.atoms layout) (arg.tree layout) := by
  have hstarts : ∀ next, typeFirst.contains (Atom.headKind (arg.atoms layout) next) = true := by
    intro next
    rw [TemplateArg.atoms, Atom.headKind_append]
    exact arg.type.starts _
  refine ⟨hstarts, fun next hnext => ifAt_pos (hstarts next) (node_yields ?_)⟩
  refine seq_tree (type_yields arg.type _) (seq_atom (declaredName_yields arg.name _) ?_)
  rcases hnext with rfl | rfl
  · exact initializer_yields layout arg.initial rfl (by decide)
  · exact initializer_yields layout arg.initial rfl (by decide)

theorem templateArgs_yields (args : Option (List TemplateArg)) (h : next ≠ .leftAngle) :
    Grammar.templateArgs.Yields (templateArgs layout args) next (templateTrees layout args)
      true := by
  cases args with
  | none => exact optional_none h
  | some args =>
      have helements : List.Forall₂ TemplateElement
          (args.map (TemplateArg.atoms layout)) (args.map (TemplateArg.tree layout)) := by
        rw [List.forall₂_map_left_iff, List.forall₂_map_right_iff]
        exact List.forall₂_same.2 fun arg _ => arg.element layout
      have hnone : templateArg.Yields [] .rightAngle [] false :=
        ifAt_neg rfl (reject_yields _)
      exact ifKind_pos rfl
        (node_yields (delimited_yields rfl rfl rfl rfl (by decide) hnone helements next))

theorem ParentClass.yields (parent : ParentClass) (h : next ≠ .leftAngle) :
    parentClass.Yields (parent.atoms layout) next [parent.tree layout] true := by
  refine ifKind_pos rfl (node_yields (seq_atom (bump_leaf rfl _) ?_))
  cases parent with
  | mk name args =>
      cases args with
      | none => exact optional_none h
      | some args =>
          exact ifKind_pos rfl (argList_yields rfl rfl rfl (by decide)
            (Value.elements layout .rightAngle args rfl) next)

theorem parentList_yields (parents : List ParentClass)
    (h : next = .semicolon ∨ next = .leftBrace) :
    (optional .colon parentClassList).Yields (parentList layout parents) next
      (parentTrees layout parents) true := by
  have hne : next ≠ .colon ∧ next ≠ .comma ∧ next ≠ .leftAngle := by
    rcases h with rfl | rfl <;> decide
  cases parents with
  | nil => exact optional_none hne.1
  | cons parent parents =>
      have hrounds : List.Forall₂
          (Round (.ifOk parentClass (eat .comma) (.seq (missing .className) .reject)) next)
          ((parent :: parents).map (ParentClass.atoms layout))
          ((parent :: parents).map (ParentClass.tree layout)) := by
        rw [List.forall₂_map_left_iff, List.forall₂_map_right_iff]
        exact List.forall₂_same.2 fun parent _ =>
          round_of_eat hne.2.1 (parent.yields layout (by decide)) (parent.yields layout hne.2.2)
      exact ifKind_pos rfl (node_yields (seq_atom (take_mark rfl _)
        (loop_yields (loop_commas (by simp) hrounds))))

/-! ## Record bodies -/

theorem definition_yields (name : Name) (value : Value) (next : Kind) :
    Grammar.definedVariable.Yields (definitionAtoms layout name value) next
      [definitionTree layout name value] true := by
  refine node_yields (seq_atom (bump_leaf rfl _) (seq_atom (declaredName_yields name _) ?_))
  exact seq_atom (expect_mark rfl _)
    (seq_tree (value.before layout [] rfl) (expect_mark rfl next))

theorem assertion_yields (condition message : Value) (next : Kind) :
    Grammar.assertion.Yields (assertionAtoms layout condition message) next
      [assertionTree layout condition message] true := by
  refine node_yields (seq_atom (bump_leaf rfl _) (seq_tree (condition.before layout _ rfl) ?_))
  exact seq_atom (expect_mark rfl _)
    (seq_tree (message.before layout [] rfl) (expect_mark rfl next))

theorem field_starts (type : TypeName) (name : Name) (initial : Option Value) (next : Kind) :
    typeFirst.contains (Atom.headKind ((BodyItem.field false type name initial).atoms layout)
      next) = true := by
  have hhead : Atom.headKind ((BodyItem.field false type name initial).atoms layout) next =
      Atom.headKind type.atoms .eof := by
    simp [BodyItem.atoms, type.headKind_atoms]
  rw [hhead]
  exact type.starts .eof

theorem field_yields (hasKeyword : Bool) (type : TypeName) (name : Name)
    (initial : Option Value) (next : Kind) :
    Grammar.field.Yields ((BodyItem.field hasKeyword type name initial).atoms layout) next
      [(BodyItem.field hasKeyword type name initial).tree layout] true := by
  have hinitial := seq_yields
    (@initializer_yields layout .semicolon initial rfl (by decide))
    (@expect_mark .semicolon rfl next)
  have hdeclared := seq_tree (type_yields type _) (seq_atom (declaredName_yields name _) hinitial)
  cases hasKeyword with
  | true => exact node_yields (seq_atom (eat_mark rfl _) hdeclared)
  | false =>
      have hhead := headKind_ne_of_starts (field_starts layout type name initial)
        (rfl : typeFirst.contains .fieldKw = false) next
      exact node_yields (seq_none (eat_rejects hhead) hdeclared)

theorem letInstruction_yields (name : Name) (bits : Option Ranges) (value : Value) (next : Kind) :
    Grammar.letInstruction.Yields ((BodyItem.letInstruction name bits value).atoms layout) next
      [(BodyItem.letInstruction name bits value).tree layout] true := by
  refine node_yields (seq_atom (bump_leaf rfl _) (seq_atom (declaredName_yields name _) ?_))
  refine seq_yields (bracketed_yields layout rfl rfl bits rfl rfl (by decide) ?_)
    (seq_atom (expect_mark rfl _)
      (seq_tree (value.before layout [] rfl) (expect_mark rfl next)))
  simp

theorem BodyItem.yields (item : BodyItem) (next : Kind) :
    bodyItem.Yields (item.atoms layout) next [item.tree layout] true := by
  cases item with
  | field hasKeyword type name initial =>
      have hfield := field_yields layout hasKeyword type name initial next
      cases hasKeyword with
      | true => exact choose .fieldKw rfl hfield
      | false =>
          have hstarts := field_starts layout type name initial
          have hne := fun kind hkind => @headKind_ne_of_starts typeFirst kind _ hstarts hkind next
          refine ifKind_neg (hne _ rfl) (ifKind_neg (hne _ rfl) (ifKind_neg (hne _ rfl) ?_))
          exact ifAt_pos (by simp [hstarts next]) hfield
  | letInstruction name bits value =>
      exact choose .letKw rfl (letInstruction_yields layout name bits value next)
  | definedVariable name value =>
      exact choose .defvarKw rfl (definition_yields layout name value next)
  | assertion condition message =>
      exact choose .assertKw rfl (assertion_yields layout condition message next)

def bodyEnd : Kind.Set := statementOnly.union (.ofList [.rightBrace, .eof])

def BodyItem.firstKind : BodyItem → Kind
  | .field true _ _ _ => .fieldKw
  | .field false type _ _ => type.firstKind
  | .letInstruction _ _ _ => .letKw
  | .definedVariable _ _ => .defvarKw
  | .assertion _ _ => .assertKw

theorem BodyItem.headKind_atoms (item : BodyItem) (next : Kind) :
    Atom.headKind (item.atoms layout) next = item.firstKind := by
  cases item with
  | field hasKeyword type name initial =>
      cases hasKeyword with
      | true => rfl
      | false => simp [BodyItem.atoms, BodyItem.firstKind, type.headKind_atoms]
  | _ => rfl

theorem BodyItem.goesOn (item : BodyItem) : bodyEnd.contains item.firstKind = false := by
  cases item with
  | field hasKeyword type name initial =>
      cases hasKeyword with
      | true => simp only [BodyItem.firstKind]; rfl
      | false =>
          cases type with
          | primitive type =>
              simp only [BodyItem.firstKind, TypeName.firstKind]
              cases type <;> simp only [primitiveKeyword, Atom.kind_mark] <;> rfl
          | _ => simp only [BodyItem.firstKind, TypeName.firstKind]; rfl
  | _ => simp only [BodyItem.firstKind]; rfl

theorem BodyItem.round (item : BodyItem) (next : Kind) :
    (Grammar.ifAt bodyEnd .reject (.ifOk bodyItem .accept recoverBodyItem)).Yields
      (item.atoms layout) next [item.tree layout] true := by
  have hitem : bodyEnd.contains (Atom.headKind (item.atoms layout) next) = false := by
    rw [item.headKind_atoms]
    exact item.goesOn
  exact ifAt_neg hitem (ifOk_accept (item.yields layout next))

theorem body_yields (items : Option (List BodyItem)) (next : Kind) :
    Grammar.body.Yields (bodyItems layout items) next [bodyTree layout items] true := by
  cases items with
  | none => exact choose .semicolon rfl (node_yields (bump_leaf rfl next))
  | some items =>
      have hrounds : List.Forall₂ (fun part tree => ∀ next,
          (Grammar.ifAt bodyEnd .reject (.ifOk bodyItem .accept recoverBodyItem)).Yields part next
            [tree] true)
          (items.map (BodyItem.atoms layout)) (items.map (BodyItem.tree layout)) := by
        rw [List.forall₂_map_left_iff, List.forall₂_map_right_iff]
        exact List.forall₂_same.2 fun item _ => item.round layout
      have hloop := loop_yields (@loop_each _ _ .rightBrace _ (ifAt_pos rfl (reject_yields _))
        hrounds)
      rw [← List.flatMap_def] at hloop
      exact choose .leftBrace rfl (node_yields (seq_atom (bump_leaf rfl _)
        (seq_yields hloop (expect_mark rfl next))))

theorem headKind_bodyItems (items : Option (List BodyItem)) (next : Kind) :
    Atom.headKind (bodyItems layout items) next = .semicolon ∨
      Atom.headKind (bodyItems layout items) next = .leftBrace := by
  cases items with
  | none => exact .inl rfl
  | some items => exact .inr rfl

theorem headKind_parentList (parents : List ParentClass) (rest : List Atom) (next : Kind) :
    Atom.headKind (parentList layout parents ++ rest) next = .colon ∨
      Atom.headKind (parentList layout parents ++ rest) next = Atom.headKind rest next := by
  cases parents with
  | nil => exact .inr rfl
  | cons parent parents => exact .inl rfl

theorem headKind_recordBody (body : RecordBody) (next : Kind) :
    Atom.headKind (body.atoms layout) next = .colon ∨
      Atom.headKind (body.atoms layout) next = .semicolon ∨
      Atom.headKind (body.atoms layout) next = .leftBrace := by
  rcases headKind_parentList layout body.parents (bodyItems layout body.items) next with h | h
  · exact .inl h
  · rw [RecordBody.atoms, h]
    exact .inr (headKind_bodyItems layout body.items next)

theorem RecordBody.yields (body : RecordBody) (next : Kind) :
    recordBody.Yields (body.atoms layout) next [body.tree layout] true := by
  have hhead : (Kind.Set.ofList [.colon, .semicolon, .leftBrace]).contains
      (Atom.headKind (body.atoms layout) next) = true := by
    rcases headKind_recordBody layout body next with h | h | h <;> simp [h]
  have hparents := parentList_yields layout body.parents
    (headKind_bodyItems layout body.items next)
  exact ifAt_pos hhead (node_yields (seq_yields hparents (body_yields layout body.items next)))

theorem recordName_yields (name : Option Value) (hfits : name.all (Value.fits .recordName) = true)
    (h : closesValue .recordName next = true) :
    Grammar.recordName.Yields (recordName layout name) next (recordNameTrees layout name)
      true := by
  cases name with
  | none =>
      simp only [closesValue, Bool.and_eq_true, Bool.not_eq_true'] at h
      exact ifAt_neg h.1.1.1 (accept_yields next)
  | some value =>
      exact ifAt_pos (value.starts layout hfits next)
        (value.yields layout hfits (value.takesUp_of_closes h))

/-! ## Loops and the items of a `let` -/

theorem LetItem.yields (item : LetItem) (h : closesValue .anywhere next = true) :
    letItem.Yields (item.atoms layout) next [item.tree layout] true := by
  refine node_yields (seq_atom (declaredName_yields item.name _) ?_)
  refine seq_yields (bracketed_yields layout rfl rfl item.bits rfl rfl (by decide) ?_)
    (seq_atom (expect_mark rfl _) (item.value.closed layout h))
  simp

theorem letItems_yields (items : List LetItem) :
    (Grammar.loop (ifKind .inKw .reject (.seq letItem (eat .comma)))).Yields
      (commas (items.map (LetItem.atoms layout))) .inKw
      (commaTrees (items.map (LetItem.tree layout))) true := by
  have hrounds : List.Forall₂ (Round (ifKind .inKw .reject (.seq letItem (eat .comma))) .inKw)
      (items.map (LetItem.atoms layout)) (items.map (LetItem.tree layout)) := by
    rw [List.forall₂_map_left_iff, List.forall₂_map_right_iff]
    refine List.forall₂_same.2 fun item _ => ⟨fun behind => ?_, ?_⟩
    · exact ifKind_neg (by simp [LetItem.atoms])
        (seq_tree (@LetItem.yields layout .comma item rfl) (eat_mark rfl behind))
    · exact ifKind_neg (by simp [LetItem.atoms])
        (seq_last (item.yields layout rfl) (eat_rejects (by decide)))
  cases items with
  | nil => exact loop_yields (loop_last (ifKind_pos rfl (reject_yields _)))
  | cons item items => exact loop_yields (loop_commas (by simp) hrounds)

theorem iterator_yields (name : Name) (range : LoopRange) (hfits : range.fits = true) :
    foreachIterator.Yields (.name name :: .mark .eq :: range.atoms layout) .inKw
      [iteratorTree layout name range] true := by
  refine node_yields (seq_atom (declaredName_yields name _) (seq_atom (expect_mark rfl _) ?_))
  cases range with
  | list ranges =>
      exact ifOk_eat rfl (seq_tree (ranges.yields layout rfl rfl (by decide)) (expect_mark rfl _))
  | piece range =>
      have hhead : Atom.headKind (range.atoms layout) .inKw ≠ .leftBrace := by
        rw [range.headKind_atoms]
        simpa [LoopRange.fits] using hfits
      exact ifOk_eat_none hhead (range.yields layout rfl rfl)

end TdSyntax.Term
