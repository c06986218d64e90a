import TdSyntax.Proofs.Parse.Ranges

/-!
# The views of ranges

A range whose first operand is a value is viewed as it is built: its start is this
operand, its end is the value behind what parts the two, and they are glued if and only if
the parser has reported this.  The view goes by the order of the values only, so an error
node in front of a value makes it take the end of the range for its start.
-/

namespace TdSyntax

def Diagnostic.WarnsOf (warning : Diagnostic) (piece : Node) : Prop :=
  warning.problem = .gluedRangeEnd ∧ piece.nodes[1]?.map Node.span = some warning.span

instance (warning : Diagnostic) (piece : Node) : Decidable (warning.WarnsOf piece) :=
  inferInstanceAs (Decidable (_ ∧ _))

theorem IntegerLiteral.checked?_neg_eq_some_iff {value last : Int} :
    checked? (-value) = some last ↔ last = -value ∧ -signedBound ≤ last ∧ last < signedBound := by
  rw [checked?, Option.ite_none_right_eq_some, Option.some_inj]
  constructor
  · rintro ⟨hfits, rfl⟩
    exact ⟨rfl, hfits⟩
  · rintro ⟨rfl, hfits⟩
    exact ⟨hfits, rfl⟩

namespace Node

def HasInteger (node : Node) (value : Int) : Prop :=
  node.kind = .integer ∧ node.integerValue? = .ok (some value)

/-- The first and the last integer of a range.  A glued end is negated, which has to fit in
64 bits. -/
def Bounds (start : Node) (separator : Option RangeSeparator) (stop : Option Node)
    (first last : Int) : Prop :=
  start.HasInteger first ∧
    match separator with
    | none => last = first
    | some .gluedDash => ∃ node ∈ stop, ∃ value, node.HasInteger value ∧ last = -value ∧
        -IntegerLiteral.signedBound ≤ last ∧ last < IntegerLiteral.signedBound
    | some _ => ∃ node ∈ stop, node.HasInteger last

variable {piece start : Node} {separator : Option RangeSeparator} {stop : Option Node}

theorem HasInteger.isValue {node : Node} {value : Int} (h : node.HasInteger value) :
    node.kind.isValue = true := by
  rw [h.1]
  rfl

theorem integerAt?_eq_ok (hoperand : ∀ node ∈ stop, node.IsOperand) :
    ∃ found, integerAt? (stop.filter fun node => node.kind.isValue) = .ok found ∧
      ∀ value, found = some value ↔ ∃ node ∈ stop, node.HasInteger value := by
  cases stop with
  | none => exact ⟨none, rfl, by simp⟩
  | some node =>
      rw [Option.filter_some]
      by_cases hkind : node.kind = .integer
      · obtain ⟨text, htext⟩ := (hoperand node rfl).text hkind
        have hvalue : node.integerValue? = .ok (IntegerLiteral.value? text) := by
          rw [integerValue?, htext]
          rfl
        have hisValue : node.kind.isValue = true := by rw [hkind]; rfl
        refine ⟨IntegerLiteral.value? text, ?_, by simp [HasInteger, hkind, hvalue]⟩
        rw [if_pos hisValue]
        simp [integerAt?, hkind, hvalue]
      · refine ⟨none, ?_, by simp [HasInteger, hkind]⟩
        split <;> simp [integerAt?, hkind]

namespace Ranges

variable (h : piece.Ranges start separator stop)
include h

theorem nodes_eq : piece.nodes = start :: stop.toList := by
  cases h with
  | alone helements => simp [nodes, helements, Element.node?]
  | parted helements _ =>
      rw [nodes, helements]
      cases stop <;> rfl
  | glued helements => simp [nodes, helements, Element.node?]

theorem values_eq :
    piece.values = (start :: stop.toList).filter fun node => node.kind.isValue := by
  rw [values, allOf, h.nodes_eq]

theorem values_zero (hstart : start.kind.isValue = true) :
    piece.values[0]? = (some start).filter fun node => node.kind.isValue := by
  simp [h.values_eq, hstart, Option.filter_some]

theorem values_one (hstart : start.kind.isValue = true) :
    piece.values[1]? = stop.filter fun node => node.kind.isValue := by
  cases stop with
  | none => simp [h.values_eq, hstart]
  | some node =>
      cases hvalue : node.kind.isValue <;> simp [h.values_eq, hstart, hvalue, Option.filter_some]

theorem rangeSeparator?_eq (hstart : separator = some .gluedDash → start.kind.isValue = true) :
    piece.rangeSeparator? = separator := by
  have hvalues := h.values_eq
  cases h with
  | alone helements =>
      have hnone : piece.values[1]? = none := by
        rw [hvalues, List.getElem?_eq_none]
        exact List.length_filter_le _ _
      simp [rangeSeparator?, hasToken, tokenOfKind?, helements, Element.token?, hnone]
  | parted helements hseparator =>
      rcases hseparator with ⟨hkind, rfl⟩ | ⟨hkind, rfl⟩ <;>
        cases stop <;>
          simp [rangeSeparator?, hasToken, tokenOfKind?, helements, Element.token?, hkind]
  | @glued last _ _ helements hstop =>
      have hlast : last.kind.isValue = true := by rw [hstop]; rfl
      simp [rangeSeparator?, hasToken, tokenOfKind?, helements, Element.token?, hvalues, hstart rfl,
        hlast]

end Ranges

theorem Ranges.rangeBounds?_eq (h : piece.Ranges start separator stop) (hoperand : start.IsOperand)
    (hstop : ∀ node ∈ stop, node.IsOperand) (hstart : start.kind.isValue = true) :
    ∃ bounds, piece.rangeBounds? = .ok bounds ∧
      ∀ first last, bounds = some (first, last) ↔ Bounds start separator stop first last := by
  obtain ⟨one, hone, hones⟩ := @integerAt?_eq_ok (some start) fun node hmem => by
    cases hmem
    exact hoperand
  obtain ⟨two, htwo, htwos⟩ := integerAt?_eq_ok hstop
  unfold rangeBounds?
  simp only [h.values_zero hstart, h.values_one hstart, hone, htwo,
    h.rangeSeparator?_eq fun _ => hstart, bind, Except.bind, pure, Except.pure]
  simp only [Option.mem_some_iff, exists_eq_left'] at hones
  cases one with
  | none =>
      refine ⟨none, rfl, fun first last => ⟨nofun, fun hbounds => ?_⟩⟩
      cases (hones first).2 hbounds.1
  | some one =>
      simp only [Bounds, ← hones, Option.some_inj]
      cases h with
      | alone =>
          refine ⟨_, rfl, fun first last => ?_⟩
          rw [Option.some_inj, Prod.mk.injEq]
          exact and_congr_right fun heq => by rw [heq, eq_comm]
      | parted _ hseparator =>
          simp only [← htwos]
          rcases hseparator with ⟨-, rfl⟩ | ⟨-, rfl⟩ <;>
            exact ⟨_, rfl, fun first last => by simp [and_comm]⟩
      | glued =>
          refine ⟨_, rfl, fun first last => ?_⟩
          simp only [Option.map_eq_some_iff, Option.bind_eq_some_iff, htwos, Prod.mk.injEq,
            Option.mem_some_iff, exists_eq_left', IntegerLiteral.checked?_neg_eq_some_iff]
          constructor
          · rintro ⟨_, ⟨value, hvalue, hends⟩, heq, rfl⟩
            exact ⟨heq, value, hvalue, hends⟩
          · rintro ⟨heq, value, hvalue, hends⟩
            exact ⟨last, ⟨value, hvalue, hends⟩, heq, rfl⟩

theorem Ranges.view_eq (h : piece.Ranges start separator stop) (hkind : piece.kind = .rangePiece)
    (hoperand : start.IsOperand) (hstop : ∀ node ∈ stop, node.IsOperand)
    (hplaces : start.kind.isValue = true ∨ ∀ node ∈ stop, node.kind.isValue = false) :
    ∃ bounds, piece.view = .ok (some (.rangePiece
        ((some start).filter fun node => node.kind.isValue)
        (stop.filter fun node => node.kind.isValue) separator bounds)) ∧
      ∀ first last, bounds = some (first, last) ↔ Bounds start separator stop first last := by
  have hview {bounds : Option (Int × Int)} (hbounds : piece.rangeBounds? = .ok bounds) :
      piece.view = .ok (some (.rangePiece piece.values[0]? piece.values[1]? piece.rangeSeparator?
        bounds)) := by
    simp only [view, hkind, hbounds]
    rfl
  -- A first operand that is no value shifts the second into its place, unless neither is one.
  cases hstart : start.kind.isValue with
  | true =>
      obtain ⟨bounds, hbounds, hiff⟩ := h.rangeBounds?_eq hoperand hstop hstart
      refine ⟨bounds, ?_, hiff⟩
      rw [hview hbounds, h.values_zero hstart, h.values_one hstart,
        h.rangeSeparator?_eq fun _ => hstart]
  | false =>
      have hlast := hplaces.resolve_left (by simp [hstart])
      have hvalues : piece.values = [] := by
        rw [h.values_eq]
        cases stop <;> simp [hstart, hlast]
      have hbounds : piece.rangeBounds? = .ok none := by
        rw [rangeBounds?, hvalues]
        rfl
      have hglued : separator ≠ some .gluedDash := by
        rintro rfl
        cases h with
        | parted _ hseparator => simp at hseparator
        | @glued last _ _ _ hinteger =>
            have hfalse := hlast last rfl
            rw [hinteger] at hfalse
            cases hfalse
      refine ⟨none, ?_, fun first last => ⟨nofun, fun hend => ?_⟩⟩
      · have hnone : (stop.filter fun node => node.kind.isValue) = none := by
          cases stop with
          | none => rfl
          | some node => simp [Option.filter_some, hlast node rfl]
        rw [hview hbounds, hvalues, h.rangeSeparator?_eq fun heq => absurd heq hglued, hnone,
          Option.filter_some, hstart]
        rfl
      · cases hstart.symm.trans hend.1.isValue

end Node

namespace Parse

/-- Every range of a text has an operand, alone or with another one, and the second one is
glued to the first one if and only if this is reported.  The view of the range shows its
operands, what parts them and their integers, unless an error node stands in front of a
value.  In any case it shows the values among the operands in their order. -/
theorem ofText_ranges (text : Text) :
    ∃ parse, Parse.ofText text = .ok parse ∧
      ∀ piece ∈ parse.root.descendants, piece.kind = .rangePiece →
        ∃ start separator stop, piece.Ranges start separator stop ∧
          start.kind.isOperand = true ∧ (∀ node ∈ stop, node.kind.isOperand = true) ∧
          (separator = some .gluedDash ↔ ∃ warning ∈ parse.diagnostics, warning.WarnsOf piece) ∧
          piece.values = (start :: stop.toList).filter (fun node => node.kind.isValue) ∧
          ((start.kind.isValue = true ∨ ∀ node ∈ stop, node.kind.isValue = false) →
            ∃ bounds, piece.view = .ok (some (.rangePiece
                ((some start).filter fun node => node.kind.isValue)
                (stop.filter fun node => node.kind.isValue) separator bounds)) ∧
              ∀ first last, bounds = some (first, last) ↔
                start.Bounds separator stop first last) := by
  obtain ⟨parse, draft, hparse, hdraft⟩ := ofText_ranged text
  refine ⟨parse, hparse, fun piece hpiece hkind => ?_⟩
  obtain ⟨start, separator, stop, hranges, hstart, hstop, hglued⟩ := hdraft.tells hpiece hkind
  refine ⟨start, separator, stop, hranges, hstart.kind, fun node hmem => (hstop node hmem).kind,
    hglued.trans ?_, hranges.values_eq, hranges.view_eq hkind hstart hstop⟩
  constructor
  · rintro ⟨literal, hliteral, node, hnode, hspan⟩
    obtain ⟨hmem, hproblem⟩ := hdraft.mem_iff.2 ⟨literal, hliteral, rfl⟩
    exact ⟨literal.gluedEnd, hmem, hproblem, by rw [hnode, Option.map_some, hspan]; rfl⟩
  · rintro ⟨warning, hmem, hproblem, hspan⟩
    obtain ⟨literal, hliteral, rfl⟩ := hdraft.mem_iff.1 ⟨hmem, hproblem⟩
    obtain ⟨node, hnode, heq⟩ := Option.map_eq_some_iff.1 hspan
    exact ⟨literal, hliteral, node, hnode, heq⟩

def unknownStart : Text := "defvar x = y\x7b!foo -5\x7d;".toList

/-- Behind an error node, the end of a range is taken for its start, and for both of its
bounds, although the parser has reported that it is an end. -/
theorem ofText_ranges_shifted :
    ∃ parse, Parse.ofText unknownStart = .ok parse ∧
      ∃ piece ∈ parse.root.descendants, piece.kind = .rangePiece ∧
        piece.nodes.map Node.kind = [.error, .integer] ∧
        (∃ warning ∈ parse.diagnostics, warning.WarnsOf piece) ∧
        piece.values[0]? = piece.nodes[1]? ∧ piece.values[1]? = none ∧
        piece.rangeSeparator? = none ∧ piece.rangeBounds? = .ok (some (-5, -5)) := by
  obtain ⟨reading, hread, -, hparse⟩ := ofText_eq unknownStart
  -- sorting by well-founded recursion does not evaluate, so the reading is looked at
  have hfound : (Grammar.file.run
      ⟨(TokenList.ofText unknownStart).tokens, (TokenList.ofText unknownStart).eof, none⟩).any
        (fun reading : Reading => decide (∃ piece ∈ (SourceTree.root ⟨.sourceFile,
            Draft.treeAll (reading.drafts ++ [Draft.token (TokenList.ofText unknownStart).eof]),
            unknownStart⟩).descendants, piece.kind = .rangePiece ∧
          piece.nodes.map Node.kind = [.error, .integer] ∧
          (∃ warning ∈ reading.diagnostics, warning.WarnsOf piece) ∧
          piece.values[0]? = piece.nodes[1]? ∧ piece.values[1]? = none ∧
          piece.rangeSeparator? = none ∧ piece.rangeBounds? = .ok (some (-5, -5)))) = true := by
    decide +kernel
  rw [hread] at hfound
  obtain ⟨piece, hpiece, hkind, hnodes, ⟨warning, hwarning, hwarns⟩, hviews⟩ :=
    of_decide_eq_true hfound
  refine ⟨_, hparse, piece, hpiece, hkind, hnodes, ⟨warning, ?_, hwarns⟩, hviews⟩
  exact List.mem_mergeSort.2 (List.mem_append_right _ hwarning)

end Parse

end TdSyntax
