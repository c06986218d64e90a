import TdSyntax.Proofs.Term.ValueYields

/-!
# Every printed value is read as its tree

By induction over all forms of values at once: each form is read as its tree because
its parts are, and each part because the token behind it is none that it takes up.
-/

namespace TdSyntax.Term

open Grammar

variable (layout : Layout)

theorem Operand.fits_anywhere : ∀ operand : Operand, operand.fits .anywhere = true
  | .simple base => by cases base <;> rfl
  | .bitSlice base _ _ => by simp [Operand.fits, base.fits_anywhere]
  | .listSlice base _ _ => base.fits_anywhere
  | .field base _ => base.fits_anywhere

theorem Value.fits_anywhere : ∀ value : Value, value.fits .anywhere = true
  | .operand base => base.fits_anywhere
  | .paste left right => by simp [Value.fits, left.fits_anywhere, right.fits_anywhere]
  | .openPaste left => left.fits_anywhere

/-! ## How values start -/

theorem Simple.headKind_atoms (simple : Simple) (next : Kind) :
    Atom.headKind (simple.atoms layout) next = simple.firstKind := by
  cases simple <;> rfl

theorem Operand.headKind_atoms : ∀ (operand : Operand) (next : Kind),
    Atom.headKind (operand.atoms layout) next = operand.firstKind
  | .simple base, next => base.headKind_atoms layout next
  | .bitSlice base _ _, next => by
      rw [Operand.atoms, Atom.headKind_append]
      exact base.headKind_atoms _
  | .listSlice base _ _, next => by
      rw [Operand.atoms, Atom.headKind_append]
      exact base.headKind_atoms _
  | .field base _, next => by
      rw [Operand.atoms, Atom.headKind_append]
      exact base.headKind_atoms _

theorem Value.headKind_atoms (value : Value) (next : Kind) :
    Atom.headKind (value.atoms layout) next = value.firstKind := by
  cases value with
  | operand base => exact base.headKind_atoms layout next
  | paste left right =>
      rw [Value.atoms, Atom.headKind_append]
      exact left.headKind_atoms layout _
  | openPaste left =>
      rw [Value.atoms, Atom.headKind_append]
      exact left.headKind_atoms layout _

theorem Range.headKind_atoms (range : Range) (next : Kind) :
    Atom.headKind (range.atoms layout) next = range.firstKind := by
  cases range with
  | single value => exact value.headKind_atoms layout next
  | span start mark stop =>
      rw [Range.atoms, Atom.headKind_append]
      exact start.headKind_atoms layout _

theorem Simple.starts_firstKind {place : ValuePlace} (simple : Simple)
    (hfits : (Operand.simple simple).fits place = true) :
    (valueStart place).contains simple.firstKind = true := by
  cases place with
  | anywhere =>
      cases simple with
      | boolean value => cases value <;> rfl
      | _ => simp only [Simple.firstKind]; rfl
  | recordName =>
      cases simple with
      | boolean value => cases value <;> rfl
      | sequence first rest => cases hfits
      | _ => simp only [Simple.firstKind]; rfl

theorem Operand.starts_firstKind {place : ValuePlace} : ∀ operand : Operand,
    operand.fits place = true → (valueStart place).contains operand.firstKind = true
  | .simple base, hfits => base.starts_firstKind hfits
  | .bitSlice base _ _, hfits => by
      simp only [Operand.fits, Bool.and_eq_true] at hfits
      exact base.starts_firstKind hfits.2
  | .listSlice base _ _, hfits => base.starts_firstKind hfits
  | .field base _, hfits => base.starts_firstKind hfits

theorem Value.starts {place : ValuePlace} (value : Value) (hfits : value.fits place = true)
    (next : Kind) :
    (valueStart place).contains (Atom.headKind (value.atoms layout) next) = true := by
  rw [value.headKind_atoms]
  cases value with
  | operand base => exact base.starts_firstKind hfits
  | paste left right =>
      simp only [Value.fits, Bool.and_eq_true] at hfits
      exact left.starts_firstKind hfits.1
  | openPaste left => exact left.starts_firstKind hfits

theorem Value.starts_anywhere (value : Value) (next : Kind) :
    valueFirst.contains (Atom.headKind (value.atoms layout) next) = true := by
  have hstarts := value.starts layout value.fits_anywhere next
  rwa [valueStart] at hstarts

theorem Range.starts (range : Range) (next : Kind) :
    valueFirst.contains (Atom.headKind (range.atoms layout) next) = true := by
  cases range with
  | single value => exact value.starts_anywhere layout next
  | span start mark stop =>
      rw [Range.atoms, Atom.headKind_append]
      exact start.starts_anywhere layout _

theorem DagArg.starts (arg : DagArg) (next : Kind) :
    dagFirst.contains (Atom.headKind (arg.atoms layout) next) = true := by
  rw [dagFirst, Kind.Set.contains_union, Bool.or_eq_true]
  cases arg with
  | plain value => exact .inl (value.starts_anywhere layout next)
  | bound value name =>
      rw [DagArg.atoms, Atom.headKind_append]
      exact .inl (value.starts_anywhere layout _)
  | named name => exact .inr (Kind.Set.contains_singleton .varName .varName)

theorem Clause.starts (clause : Clause) (next : Kind) :
    valueFirst.contains (Atom.headKind (clause.atoms layout) next) = true := by
  cases clause with
  | mk condition value =>
      rw [Clause.atoms, Atom.headKind_append]
      exact condition.starts_anywhere layout _

/-! ## How values end -/

def closesValue (place : ValuePlace) (next : Kind) : Bool :=
  !(valueStart place).contains next && next != .hash && next != .dot && next != .leftAngle

theorem Simple.takesUp_of_closes {place : ValuePlace} {next : Kind}
    (h : closesValue place next = true) (simple : Simple) : simple.takesUp next = false := by
  simp only [closesValue, Bool.and_eq_true, Bool.not_eq_true', bne_iff_ne] at h
  have hquote : next ≠ .doubleQuote := by
    rintro rfl
    cases place <;> exact absurd h.1.1.1 (by decide)
  cases simple with
  | list values type => cases type <;> simp [Simple.takesUp, h.2]
  | _ => simp [Simple.takesUp, h.2, hquote]

theorem startsSuffix_of_closes {place : ValuePlace} {next : Kind}
    (h : closesValue place next = true) : startsSuffix place next = false := by
  simp only [closesValue, Bool.and_eq_true, Bool.not_eq_true', bne_iff_ne] at h
  have hbracket : next ≠ .leftBracket := by
    rintro rfl
    cases place <;> exact absurd h.1.1.1 (by decide)
  have hbrace : place = .anywhere → next ≠ .leftBrace := by
    rintro rfl rfl
    exact absurd h.1.1.1 (by decide)
  cases place with
  | anywhere => simp [startsSuffix, hbracket, h.1.2, hbrace rfl]
  | recordName => simp [startsSuffix, hbracket, h.1.2]

theorem Operand.joins_of_closes {place : ValuePlace} {next : Kind}
    (h : closesValue place next = true) (operand : Operand) : operand.joins next = false := by
  cases operand with
  | simple base => exact base.takesUp_of_closes h
  | _ => rfl

theorem Value.takesUp_of_closes {place : ValuePlace} {next : Kind}
    (h : closesValue place next = true) : ∀ value : Value, value.takesUp place next = false
  | .operand base => by
      have hsuffix := startsSuffix_of_closes h
      have hjoins := base.joins_of_closes h
      have hhash : next ≠ .hash := by
        rintro rfl
        cases place <;> exact absurd h (by decide)
      simp [Value.takesUp, Operand.takesUp, hsuffix, hjoins, hhash]
  | .paste _ right => right.takesUp_of_closes h
  | .openPaste _ => by
      simp only [closesValue, Bool.and_eq_true, Bool.not_eq_true'] at h
      exact h.1.1.1

theorem Operand.joins_suffix {next : Kind}
    (h : startsSuffix .anywhere next = true) (operand : Operand) : operand.joins next = false := by
  simp only [startsSuffix, Bool.or_eq_true, Bool.and_eq_true, beq_iff_eq] at h
  have hnext : next ≠ .doubleQuote ∧ next ≠ .leftAngle := by
    rcases h with (rfl | rfl) | ⟨-, rfl⟩ <;> decide
  cases operand with
  | simple base =>
      cases base with
      | list values type => cases type <;> simp [Operand.joins, Simple.takesUp, hnext]
      | _ => simp [Operand.joins, Simple.takesUp, hnext]
  | _ => rfl

theorem Operand.takesUp_hash (place : ValuePlace) (operand : Operand) :
    operand.takesUp place .hash = false := by
  have hjoins : operand.joins .hash = false := by
    cases operand with
    | simple base =>
        cases base with
        | list values type => cases type <;> rfl
        | _ => rfl
    | _ => rfl
  cases place <;> simp [Operand.takesUp, startsSuffix, hjoins]

theorem DagArg.takesUp_of_closes {next : Kind} (h : closesValue .anywhere next = true)
    (arg : DagArg) : arg.takesUp next = false := by
  cases arg with
  | plain value => exact value.takesUp_of_closes h
  | _ => rfl

/-! ## How the parts are put together -/

section Parts

variable {atoms more : List Atom} {parts : List (List Atom)} {place : ValuePlace}
  {next close : Kind} {tree other : BareTree} {trees : List BareTree}

def pasteRest (place : ValuePlace) : Grammar :=
  ifKind .hash (all [.bump, .ifAt (valueStart place) (.call (.value place)) .accept, .accept])
    .reject

theorem paste_yields (hstarts : (valueStart place).contains (Atom.headKind more next) = true)
    (hleft : (suffixedValue place).Yields atoms .hash [tree] true)
    (hright : (Grammar.call (.value place)).Yields more next [other] true) :
    (Grammar.grow (suffixedValue place) .pasteValue (pasteRest place)).Yields
      (atoms ++ .mark .hash :: more) next
      [.node .pasteValue [tree, Atom.leaf (.mark .hash), other]] true := by
  have hrest : (pasteRest place).Yields (.mark .hash :: more) next
      [Atom.leaf (.mark .hash), other] true :=
    ifKind_pos rfl (seq_atom (bump_leaf rfl _)
      (seq_last (ifAt_pos hstarts hright) (accept_yields next)))
  exact grow_yields hleft hrest

theorem openPaste_yields (hend : (valueStart place).contains next = false)
    (hleft : (suffixedValue place).Yields atoms .hash [tree] true) :
    (Grammar.grow (suffixedValue place) .pasteValue (pasteRest place)).Yields
      (atoms ++ [.mark .hash]) next
      [.node .pasteValue [tree, Atom.leaf (.mark .hash)]] true := by
  have hrest : (pasteRest place).Yields [.mark .hash] next [Atom.leaf (.mark .hash)] true :=
    ifKind_pos rfl (seq_atom (bump_leaf rfl _)
      (seq_last (ifAt_neg (by simpa using hend) (accept_yields next)) (accept_yields next)))
  exact grow_yields hleft hrest

theorem ne_nil_of_starts {starts : Kind.Set} (heof : starts.contains .eof = false)
    (h : ∀ next, starts.contains (Atom.headKind atoms next) = true) : atoms ≠ [] := by
  rintro rfl
  exact absurd (h .eof) (by simp [heof])

theorem behindOperator_ends (operator : DagArg) {args : List DagArg}
    (hargs : args = [] ↔ parts = []) (h : List.Forall₂ DagElement parts trees) :
    let comma := behindOperator layout operator args parts
    let kind := Atom.headKind (comma ++ commas parts) .rightParen
    (comma = [] ∨ comma = [.mark .comma]) ∧ (parts = [] → comma = []) ∧
      operator.takesUp kind = false ∧ kind ≠ .colon := by
  intro comma kind
  cases h with
  | nil =>
      have hcomma : comma = [] := by simp [comma, behindOperator, hargs.2 rfl]
      have hkind : kind = .rightParen := by simp [kind, hcomma]
      rw [hkind]
      exact ⟨.inl hcomma, fun _ => hcomma, operator.takesUp_of_closes rfl, by decide⟩
  | cons hfirst hrest =>
      rename_i part tree parts trees
      have hne : args.isEmpty = false := by simpa using fun heq => absurd (hargs.1 heq) (by simp)
      obtain ⟨atom, rest, rfl⟩ := List.exists_cons_of_ne_nil (ne_nil_of_starts rfl hfirst.starts)
      have hcolon := headKind_ne_of_starts hfirst.starts (rfl : dagFirst.contains .colon = false)
        .eof
      have hhead : Atom.headKind (commas ((atom :: rest) :: parts)) .rightParen = atom.kind := by
        cases parts with
        | nil => simp
        | cons second parts => rw [commas_cons _ _ (by simp)]; rfl
      by_cases hlayout : (layout operator args || operator.takesUp atom.kind) = true
      · have hcomma : comma = [.mark .comma] := by simp [comma, behindOperator, hne, hlayout]
        have hkind : kind = .comma := by simp [kind, hcomma]
        rw [hkind]
        exact ⟨.inr hcomma, fun heq => absurd heq (by simp), operator.takesUp_of_closes rfl,
          by decide⟩
      · have hcomma : comma = [] := by simp [comma, behindOperator, hne, hlayout]
        have hkind : kind = atom.kind := by simp [kind, hcomma, hhead]
        simp only [Bool.or_eq_true, not_or, Bool.not_eq_true] at hlayout
        rw [hkind]
        exact ⟨.inl hcomma, fun _ => hcomma, hlayout.2, hcolon⟩

theorem DagArg.atomsAll_eq_nil (args : List DagArg) :
    args = [] ↔ DagArg.atomsAll layout args = [] := by
  cases args <;> simp [DagArg.atomsAll]

variable {layout}

theorem Operand.suffixed (operand : Operand) (hend : operand.takesUp place next = false)
    (hgrown : operand.joins (Atom.headKind [] next) = false →
      (suffix place).GrowYields .suffixedValue [operand.tree layout] [] next
        [operand.tree layout] →
      (suffixedValue place).Yields (operand.atoms layout ++ []) next [operand.tree layout] true) :
    (suffixedValue place).Yields (operand.atoms layout) next [operand.tree layout] true := by
  simp only [Operand.takesUp, Bool.or_eq_false_iff] at hend
  have hall := hgrown hend.2 (growAll_nil (suffix_rejects hend.1))
  rwa [List.append_nil] at hall

theorem Value.element (close : Kind) (value : Value)
    (hyields : ∀ next, value.takesUp .anywhere next = false →
      anyValue.Yields (value.atoms layout) next [value.tree layout] true)
    (hclose : closesValue .anywhere close = true) :
    ValueElement close (value.atoms layout) (value.tree layout) := by
  have hstarts := value.starts_anywhere layout
  refine ⟨hstarts, fun next hnext => ifAt_pos (hstarts next) (hyields next ?_)⟩
  rcases hnext with rfl | rfl
  · exact value.takesUp_of_closes rfl
  · exact value.takesUp_of_closes hclose

theorem Range.element (close : Kind) (range : Range)
    (hyields : ∀ next, closesValue .anywhere next = true → joinsRange next = false →
      rangePiece.Yields (range.atoms layout) next [range.tree layout] true)
    (hclose : closesValue .anywhere close = true) (hjoin : joinsRange close = false) :
    RangeElement close (range.atoms layout) (range.tree layout) := by
  refine ⟨range.starts layout, fun next hnext => ?_⟩
  rcases hnext with rfl | rfl
  · exact hyields .comma rfl rfl
  · exact hyields next hclose hjoin

theorem DagArg.element (arg : DagArg)
    (hyields : ∀ next, arg.takesUp next = false → next ≠ .colon →
      dagArg.Yields (arg.atoms layout) next [arg.tree layout] true) :
    DagElement (arg.atoms layout) (arg.tree layout) := by
  refine ⟨arg.starts layout, fun next hnext => ?_⟩
  rcases hnext with rfl | rfl
  · exact hyields .comma (arg.takesUp_of_closes rfl) (by decide)
  · exact hyields .rightParen (arg.takesUp_of_closes rfl) (by decide)

theorem Clause.element (clause : Clause)
    (hyields : ∀ next, closesValue .anywhere next = true →
      condClause.Yields (clause.atoms layout) next [clause.tree layout] true) :
    ClauseElement (clause.atoms layout) (clause.tree layout) := by
  refine ⟨clause.starts layout, fun next hnext => ?_⟩
  rcases hnext with rfl | rfl
  · exact hyields .comma rfl
  · exact hyields .rightParen rfl

end Parts

/-! ## The induction

Of an operand it is shown what becomes of it together with the suffixes behind it, as
the grammar reads the innermost simple value first. -/

mutual

theorem Value.yields {place : ValuePlace} {next : Kind} (value : Value)
    (hfits : value.fits place = true) (hend : value.takesUp place next = false) :
    (Grammar.call (.value place)).Yields (value.atoms layout) next [value.tree layout] true := by
  refine call_yields (ifAt_pos (value.starts layout hfits next) ?_)
  match value with
  | .operand base =>
      simp only [Value.takesUp, Bool.or_eq_false_iff, beq_eq_false_iff_ne] at hend
      exact grow_alone (base.suffixed hend.2 (base.grown [] hfits))
        (ifKind_neg hend.1 (reject_yields next))
  | .paste left right =>
      simp only [Value.fits, Bool.and_eq_true] at hfits
      exact paste_yields (right.starts layout hfits.2 next)
        (left.suffixed (left.takesUp_hash place) (left.grown [] hfits.1))
        (right.yields hfits.2 hend)
  | .openPaste left =>
      exact openPaste_yields hend (left.suffixed (left.takesUp_hash place) (left.grown [] hfits))

theorem Operand.grown {place : ValuePlace} {next : Kind} {trees : List BareTree}
    (operand : Operand) (more : List Atom) (hfits : operand.fits place = true)
    (hend : operand.joins (Atom.headKind more next) = false)
    (hmore : (suffix place).GrowYields .suffixedValue [operand.tree layout] more next trees) :
    (suffixedValue place).Yields (operand.atoms layout ++ more) next trees true := by
  match operand with
  | .simple base => exact growAll_yields (base.yields hend) hmore
  | .bitSlice base first rest =>
      simp only [Operand.fits, Bool.and_eq_true, beq_iff_eq] at hfits
      obtain ⟨rfl, hfits⟩ := hfits
      have hranges := List.Forall₂.cons (first.element .rightBrace (fun _ => first.yields) rfl rfl)
        (Range.elements .rightBrace rest rfl rfl)
      have hslice := growAll_pair (bitSlice_yields (by simp) hranges _) hmore
      have hgrown := base.grown _ hfits (base.joins_suffix rfl) hslice
      simpa [Operand.atoms] using hgrown
  | .listSlice base first rest =>
      have hranges := List.Forall₂.cons
        (first.element .rightBracket (fun _ => first.yields) rfl rfl)
        (Range.elements .rightBracket rest rfl rfl)
      have hslice := growAll_pair (listSlice_yields place (by simp) hranges _) hmore
      have hgrown := base.grown _ hfits (base.joins_suffix rfl) hslice
      simpa [Operand.atoms] using hgrown
  | .field base name =>
      have hfield := growAll_pair (fieldAccess_yields place name _) hmore
      have hgrown := base.grown _ hfits (base.joins_suffix rfl) hfield
      simpa [Operand.atoms] using hgrown

theorem Simple.yields {next : Kind} (simple : Simple) (hend : simple.takesUp next = false) :
    simpleValue.Yields (simple.atoms layout) next [simple.tree layout] true := by
  match simple with
  | .integer number => exact choose .integerLiteral rfl (integer_yields number next)
  | .string content =>
      simp only [Simple.takesUp, beq_eq_false_iff_ne] at hend
      exact choose .doubleQuote rfl (strings_single content hend)
  | .strings first second rest =>
      simp only [Simple.takesUp, beq_eq_false_iff_ne] at hend
      exact choose .doubleQuote rfl (strings_yields first second rest hend)
  | .code content => exact choose .codeBlock rfl (node_yields (bump_leaf rfl next))
  | .boolean true => exact choose .trueKw rfl (node_yields (bump_leaf rfl next))
  | .boolean false => exact choose .falseKw rfl (node_yields (bump_leaf rfl next))
  | .uninitialized => exact choose .question rfl (node_yields (bump_leaf rfl next))
  | .sequence first rest =>
      have helements := List.Forall₂.cons
        (first.element .rightBrace (fun _ => first.yields first.fits_anywhere) rfl)
        (Value.elements .rightBrace rest rfl)
      exact choose .leftBrace rfl (sequence_yields (by simp) helements next)
  | .list values type =>
      have hnext : type = none → next ≠ .leftAngle := by
        rintro rfl
        simpa [Simple.takesUp] using hend
      exact choose .leftBracket rfl
        (listInit_yields type hnext (Value.elements .rightBracket values rfl))
  | .dag operator args =>
      have hargs := DagArg.elements args
      obtain ⟨hcomma, hnone, hends, hcolon⟩ :=
        behindOperator_ends layout operator (DagArg.atomsAll_eq_nil layout args) hargs
      exact choose .leftParen rfl
        (dagInit_yields hcomma hnone (operator.yields hends hcolon) hargs next)
  | .identifier name =>
      simp only [Simple.takesUp, beq_eq_false_iff_ne] at hend
      exact choose .identifier rfl (identifier_yields name hend)
  | .record name args =>
      exact choose .identifier rfl (record_yields name (Value.elements .rightAngle args rfl) next)
  | .bang operator type first rest =>
      have helements := List.Forall₂.cons
        (first.element .rightParen (fun _ => first.yields first.fits_anywhere) rfl)
        (Value.elements .rightParen rest rfl)
      exact choose .bangOperator rfl (bang_yields operator type helements next)
  | .cond clauses => exact choose .condOperator rfl (cond_yields (Clause.elements clauses) next)

theorem Range.yields {next : Kind} (range : Range) (hclose : closesValue .anywhere next = true)
    (hjoin : joinsRange next = false) :
    rangePiece.Yields (range.atoms layout) next [range.tree layout] true := by
  match range with
  | .single value =>
      exact range_single (value.starts_anywhere layout)
        (value.yields value.fits_anywhere (value.takesUp_of_closes hclose)) hjoin
  | .span start mark stop =>
      have hmark : closesValue .anywhere mark.atom.kind = true := by cases mark <;> rfl
      exact range_span mark (start.starts_anywhere layout)
        (start.yields start.fits_anywhere (start.takesUp_of_closes hmark))
        (stop.yields stop.fits_anywhere (stop.takesUp_of_closes hclose))

theorem DagArg.yields {next : Kind} (arg : DagArg) (hend : arg.takesUp next = false)
    (hcolon : next ≠ .colon) : dagArg.Yields (arg.atoms layout) next [arg.tree layout] true := by
  match arg with
  | .plain value =>
      exact dagArg_plain (value.starts_anywhere layout)
        (value.yields value.fits_anywhere hend) hcolon
  | .bound value name =>
      exact dagArg_bound name (value.starts_anywhere layout)
        (value.yields value.fits_anywhere (value.takesUp_of_closes rfl)) next
  | .named name => exact dagArg_named name next

theorem Clause.yields {next : Kind} (clause : Clause)
    (hclose : closesValue .anywhere next = true) :
    condClause.Yields (clause.atoms layout) next [clause.tree layout] true := by
  match clause with
  | .mk condition value =>
      exact clause_yields (condition.starts_anywhere layout)
        (condition.yields condition.fits_anywhere (condition.takesUp_of_closes rfl))
        (value.yields value.fits_anywhere (value.takesUp_of_closes hclose))

theorem Value.elements (close : Kind) (values : List Value)
    (hclose : closesValue .anywhere close = true) :
    List.Forall₂ (ValueElement close) (Value.atomsAll layout values)
      (Value.treeAll layout values) := by
  match values with
  | [] => exact .nil
  | value :: values =>
      exact .cons (value.element close (fun _ => value.yields value.fits_anywhere) hclose)
        (Value.elements close values hclose)

theorem Range.elements (close : Kind) (ranges : List Range)
    (hclose : closesValue .anywhere close = true) (hjoin : joinsRange close = false) :
    List.Forall₂ (RangeElement close) (Range.atomsAll layout ranges)
      (Range.treeAll layout ranges) := by
  match ranges with
  | [] => exact .nil
  | range :: ranges =>
      exact .cons (range.element close (fun _ => range.yields) hclose hjoin)
        (Range.elements close ranges hclose hjoin)

theorem DagArg.elements (args : List DagArg) :
    List.Forall₂ DagElement (DagArg.atomsAll layout args) (DagArg.treeAll layout args) := by
  match args with
  | [] => exact .nil
  | arg :: args => exact .cons (arg.element fun _ => arg.yields) (DagArg.elements args)

theorem Clause.elements (clauses : List Clause) :
    List.Forall₂ ClauseElement (Clause.atomsAll layout clauses)
      (Clause.treeAll layout clauses) := by
  match clauses with
  | [] => exact .nil
  | clause :: clauses =>
      exact .cons (clause.element fun _ => clause.yields) (Clause.elements clauses)

end

end TdSyntax.Term
