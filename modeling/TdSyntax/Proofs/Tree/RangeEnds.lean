import Mathlib.Data.List.Nodup
import TdSyntax.Proofs.Reading.Operands
import TdSyntax.Proofs.Tree.Explained
import TdSyntax.View.Views

/-!
# The ranges of a tree

A node for a range has an operand as its first child, alone, or with a separator and
perhaps an operand behind it, or with a negative integer directly behind it.  In a draft
no token is there twice, so a glued end belongs to a single range, and no range around it
or inside of it has an operand that starts there.
-/

namespace TdSyntax

theorem Token.eq_of_start_eq {tokens : List Token} (h : tokens.Pairwise Token.Precedes)
    {first second : Token} (hfirst : first ∈ tokens) (hsecond : second ∈ tokens)
    (hstart : first.start = second.start) : first = second := by
  induction tokens with
  | nil => cases hfirst
  | cons token tokens ih =>
      obtain ⟨hprecedes, hrest⟩ := List.pairwise_cons.1 h
      have hlater : ∀ other ∈ tokens, token.start < other.start := fun other hmem =>
        Nat.lt_of_lt_of_le (hprecedes other hmem).start_lt_stop (hprecedes other hmem).stop_le_start
      rcases List.mem_cons.1 hfirst with heq | hone
      · rcases List.mem_cons.1 hsecond with heq' | htwo
        · exact heq.trans heq'.symm
        · exact absurd (heq ▸ hstart) (Nat.ne_of_lt (hlater _ htwo))
      · rcases List.mem_cons.1 hsecond with heq' | htwo
        · exact absurd (heq' ▸ hstart.symm) (Nat.ne_of_lt (hlater _ hone))
        · exact ih hrest hone htwo

theorem Token.nodup_of_precedes {tokens : List Token} (h : tokens.Pairwise Token.Precedes) :
    tokens.Nodup := by
  refine h.imp ?_
  rintro first second hprecedes rfl
  exact Nat.not_lt.2 hprecedes.stop_le_start hprecedes.start_lt_stop

namespace Draft

variable {whole draft : Draft} {kind : Kind} {pieces : List Draft}

theorem eq_of_mem_tokens (h : (tokensAll pieces).Nodup) {first second : Draft}
    (hfirst : first ∈ pieces) (hsecond : second ∈ pieces) {token : Token}
    (htoken : token ∈ first.tokens) (htoken' : token ∈ second.tokens) : first = second := by
  induction pieces with
  | nil => cases hfirst
  | cons part pieces ih =>
      rw [tokensAll, List.nodup_append'] at h
      obtain ⟨-, hrest, hdisjoint⟩ := h
      rcases List.mem_cons.1 hfirst with heq | hone
      · rcases List.mem_cons.1 hsecond with heq' | htwo
        · exact heq.trans heq'.symm
        · exact absurd (mem_tokensAll_iff.2 ⟨second, htwo, htoken'⟩) (hdisjoint (heq ▸ htoken))
      · rcases List.mem_cons.1 hsecond with heq' | htwo
        · exact absurd (mem_tokensAll_iff.2 ⟨first, hone, htoken⟩) (hdisjoint (heq' ▸ htoken'))
        · exact ih hrest hone htwo

theorem tokens_sublist_tokensAll {part : Draft} (h : part ∈ pieces) :
    part.tokens.Sublist (tokensAll pieces) := by
  obtain ⟨before, after, rfl⟩ := List.append_of_mem h
  rw [tokensAll_append, tokensAll]
  exact (List.sublist_append_left _ _).trans (List.sublist_append_right _ _)

/-- A draft inside of another one.  A glued end of the whole that is a token of the part
is a glued end of it too, unless the part is no more than this end. -/
structure Lies (whole part : Draft) : Prop where
  outer : whole.Ranged
  ranged : part.Ranged
  tokens : part.tokens.Sublist whole.tokens
  glued : part.glued ⊆ whole.glued
  owned : ∀ literal ∈ whole.glued, literal ∈ part.tokens → literal ∈ part.glued ∨
    part = .node .integer [.token literal] ∨ part = .token literal

theorem Ranged.lies (h : whole.Ranged) : whole.Lies whole :=
  ⟨h, h, List.Sublist.refl _, List.Subset.refl _, fun _ hmem _ => .inl hmem⟩

theorem Lies.parts (hnodup : whole.tokens.Nodup) (h : whole.Lies draft)
    (hshape : draft.shape? = some (kind, pieces)) : ∀ part ∈ pieces, whole.Lies part := by
  intro part hpart
  have hsublist : part.tokens.Sublist draft.tokens :=
    tokens_of_shape hshape ▸ tokens_sublist_tokensAll hpart
  have hparts : (tokensAll pieces).Nodup := tokens_of_shape hshape ▸ hnodup.sublist h.tokens
  have hranged := h.ranged.parts hshape
  refine ⟨h.outer, hranged part hpart, hsublist.trans h.tokens, ?_, ?_⟩
  · intro literal hmem
    refine h.glued ?_
    rw [glued_of_shape hshape]
    exact List.mem_append_left _ (mem_gluedAll_iff.2 ⟨part, hpart, hmem⟩)
  · intro literal hmem htoken
    -- a glued end that the part has a token of is one of the part, since tokens occur once
    rcases h.owned literal hmem (hsublist.subset htoken) with hglued | rfl | rfl
    · rw [glued_of_shape hshape, List.mem_append, mem_gluedAll_iff] at hglued
      rcases hglued with ⟨owner, howner, hglued⟩ | hend
      · have hsame := eq_of_mem_tokens hparts hpart howner htoken
          ((hranged owner howner).mem_tokens_of_mem_glued hglued)
        exact .inl (hsame ▸ hglued)
      · obtain ⟨-, start, rfl⟩ := gluedEnd?_eq_some_iff.1 (Option.mem_toList.1 hend)
        exact .inr (.inl (eq_of_mem_tokens hparts hpart (by simp) htoken
          (by simp [Draft.tokens, tokensAll])))
    · cases hshape
      exact .inr (.inr (List.mem_singleton.1 hpart))
    · cases hshape

theorem Lies.not_glued_of_parted (hnodup : whole.tokens.Nodup) {start stop : Draft}
    {separator : Token} (h : whole.Lies draft)
    (hshape : draft.shape? = some (.rangePiece, [start, .token separator, stop])) {literal : Token}
    (hfirst : stop.tokens.head? = some literal) : literal ∉ whole.glued := by
  intro hmem
  obtain ⟨rest, htokens⟩ := List.head?_eq_some_iff.1 hfirst
  have hparts : (tokensAll [start, .token separator, stop]).Nodup :=
    tokens_of_shape hshape ▸ hnodup.sublist h.tokens
  have hstop : literal ∈ stop.tokens := by simp [htokens]
  have hwithin : literal ∈ draft.tokens := by simp [tokens_of_shape hshape, tokensAll, hstop]
  have hglued : literal ∈ draft.glued := by
    rcases h.owned literal hmem hwithin with hglued | rfl | rfl
    · exact hglued
    · cases hshape
    · cases hshape
  rw [glued_of_shape hshape, List.mem_append, mem_gluedAll_iff] at hglued
  rcases hglued with ⟨owner, howner, hglued⟩ | hend
  · have hranged := h.ranged.parts hshape owner howner
    obtain rfl : owner = stop := eq_of_mem_tokens hparts howner (by simp)
      (hranged.mem_tokens_of_mem_glued hglued) hstop
    have htail := hranged.mem_tail_of_mem_glued hglued
    have hown := hnodup.sublist (h.parts hnodup hshape owner howner).tokens
    rw [htokens] at htail hown
    exact (List.nodup_cons.1 hown).1 htail
  · cases hend

end Draft

/-! ## Nodes -/

namespace Node

structure IsOperand (node : Node) : Prop where
  kind : node.kind.isOperand = true
  text : node.kind = .integer → ∃ text, node.text = .ok text

/-- The operands of a range and what parts them. -/
inductive Ranges (piece : Node) : Node → Option RangeSeparator → Option Node → Prop
  | alone {start : Node} (helements : piece.elements = [.node start]) : Ranges piece start none none
  | parted {start : Node} {token : NodeToken} {separator : RangeSeparator} {stop : Option Node}
      (helements : piece.elements = .node start :: .token token :: stop.toList.map .node)
      (hseparator : (token.kind = .ellipsis ∧ separator = .ellipsis) ∨
        (token.kind = .minus ∧ separator = .dash)) :
      Ranges piece start (some separator) stop
  | glued {start stop : Node} {literal : NodeToken} {digits : Text}
      (helements : piece.elements = [.node start, .node stop]) (hstop : stop.kind = .integer)
      (hinteger : stop.elements = [.token literal]) (hkind : literal.kind = .integerLiteral)
      (htext : literal.text = .ok ('-' :: digits)) :
      Ranges piece start (some .gluedDash) (some stop)

theorem span_of_token {node : Node} {token : NodeToken} (h : node.elements = [.token token]) :
    node.span = token.span := by
  obtain ⟨path, kind, children, offset, source⟩ := node
  match children with
  | [] => cases h
  | .branch _ _ :: _ => cases h
  | .leaf _ :: _ :: _ => simp [elements, Element.ofSiblings] at h
  | [.leaf leaf] =>
      cases h
      simp [span, NodeToken.span, fullSpan, tree, Tree.firstLeaf?, Tree.firstLeafAll?,
        Tree.lastLeaf?, Tree.lastLeafAll?, Tree.size, Tree.sizeAll]

end Node

namespace Draft

variable {whole draft : Draft} {element : Element} {node piece : Node}

theorem Operand.outlined (h : draft.Operand) (houtlines : draft.Outlines element) :
    ∃ node, element = .node node ∧ node.IsOperand ∧ draft.Outlines (.node node) := by
  obtain ⟨hshape, hkind, -, hinteger⟩ := h
  cases houtlines with
  | token => cases hshape
  | @node _ _ _ node hown hnode hparts htext =>
      cases hown.symm.trans hshape
      refine ⟨node, rfl, ⟨?_, ?_⟩, .node hown hnode hparts htext⟩
      · rw [hnode]
        simpa [Kind.isOperand] using hkind
      · intro heq
        obtain ⟨literal, hliteral⟩ := hinteger (hnode.symm.trans heq)
        exact ⟨_, htext literal hliteral⟩

theorem Operand.span_start (h : draft.Operand) (houtlines : draft.Outlines (.node node)) :
    ∃ first ∈ draft.tokens.head?, node.span.start = first.start := by
  obtain ⟨-, -, htokens, -⟩ := h
  obtain ⟨first, rest, hdraft⟩ := List.exists_cons_of_ne_nil htokens
  have hshown := houtlines.tokens
  rw [hdraft] at hshown
  obtain ⟨placed, others, hshows, -, hplaced⟩ := List.forall₂_cons_right_iff.1 hshown
  refine ⟨first, by simp [hdraft], ?_⟩
  rw [Node.span_start (by rw [Node.firstToken?, hplaced, List.head?_cons]), hshows.span]
  rfl

/-- A node for a range has an operand, alone or with another one, and the two are glued if
and only if the second one stands where a glued end does. -/
def Tells (whole : Draft) (piece : Node) : Prop :=
  ∃ start separator stop, piece.Ranges start separator stop ∧ start.IsOperand ∧
    (∀ node ∈ stop, node.IsOperand) ∧
    (separator = some .gluedDash ↔
      ∃ literal ∈ whole.glued, ∃ node, piece.nodes[1]? = some node ∧ node.span = literal.span)

theorem tells_of_alone {start : Draft} (hstart : start.Operand)
    (hparts : List.Forall₂ Outlines [start] piece.elements) : whole.Tells piece := by
  obtain ⟨first, _, hfirst, hnil, helements⟩ := List.forall₂_cons_left_iff.1 hparts
  cases hnil
  obtain ⟨node, rfl, hoperand, -⟩ := hstart.outlined hfirst
  refine ⟨node, none, none, .alone helements, hoperand, nofun, ?_⟩
  simp [Node.nodes, helements, Element.node?]

section

variable {start : Draft} (hstart : start.Operand) (h : whole.Lies draft)
include hstart h

theorem Lies.tells_of_parted (hprecedes : whole.tokens.Pairwise Token.Precedes) {between : Token}
    (hbetween : between.kind = .ellipsis ∨ between.kind = .minus) {stop : Option Draft}
    (hstop : ∀ draft ∈ stop, draft.Operand)
    (hshape : draft.shape? = some (.rangePiece, start :: .token between :: stop.toList))
    (hparts : List.Forall₂ Outlines (start :: .token between :: stop.toList) piece.elements) :
    whole.Tells piece := by
  obtain ⟨first, _, hfirst, hrest, helements⟩ := List.forall₂_cons_left_iff.1 hparts
  obtain ⟨second, others, hsecond, hothers, rfl⟩ := List.forall₂_cons_left_iff.1 hrest
  obtain ⟨node, rfl, hoperand, -⟩ := hstart.outlined hfirst
  obtain ⟨placed, rfl, hshows⟩ := outlines_token hsecond
  obtain ⟨separator, hseparator, hne⟩ : ∃ separator : RangeSeparator,
      ((placed.kind = .ellipsis ∧ separator = .ellipsis) ∨
        (placed.kind = .minus ∧ separator = .dash)) ∧
          some separator ≠ some RangeSeparator.gluedDash := by
    rw [shows_kind hshows]
    rcases hbetween with hkind | hkind
    · exact ⟨.ellipsis, .inl ⟨hkind, rfl⟩, nofun⟩
    · exact ⟨.dash, .inr ⟨hkind, rfl⟩, nofun⟩
  cases stop with
  | none =>
      cases hothers
      refine ⟨node, some separator, none, .parted helements hseparator, hoperand, nofun, ?_⟩
      simpa [Node.nodes, helements, Element.node?] using hne
  | some stop =>
      obtain ⟨third, _, hthird, hnil, rfl⟩ := List.forall₂_cons_left_iff.1 hothers
      cases hnil
      have hstop := hstop stop rfl
      obtain ⟨last, rfl, hlast, houtlines⟩ := hstop.outlined hthird
      refine ⟨node, some separator, some last, .parted helements hseparator, hoperand, ?_, ?_⟩
      · rintro _ ⟨rfl⟩
        exact hlast
      · refine iff_of_false hne ?_
        rintro ⟨literal, hliteral, other, hother, hspan⟩
        have hnode : piece.nodes[1]? = some last := by
          rw [Node.nodes, helements]
          rfl
        obtain rfl := Option.some.inj (hnode.symm.trans hother)
        obtain ⟨token, htoken, hbegins⟩ := hstop.span_start houtlines
        have hwithin : token ∈ whole.tokens := h.tokens.subset (by
          simp [tokens_of_shape hshape, tokensAll, List.mem_of_mem_head? htoken])
        have hsame : literal = token := by
          refine Token.eq_of_start_eq hprecedes ?_ hwithin ?_
          · exact h.outer.mem_tokens_of_mem_glued hliteral
          · rw [← hbegins, hspan]
            rfl
        exact h.not_glued_of_parted (Token.nodup_of_precedes hprecedes) hshape htoken
          (hsame ▸ hliteral)

omit h in
theorem Operand.outlines_glued {literal : Token}
    (hparts : List.Forall₂ Outlines [start, .node .integer [.token literal]] piece.elements) :
    ∃ node stop placed, piece.elements = [.node node, .node stop] ∧ node.IsOperand ∧
      stop.kind = .integer ∧ stop.text = .ok literal.text ∧
      stop.elements = [.token placed] ∧ placed.Shows literal := by
  obtain ⟨first, _, hfirst, hrest, helements⟩ := List.forall₂_cons_left_iff.1 hparts
  obtain ⟨second, _, hsecond, hnil, rfl⟩ := List.forall₂_cons_left_iff.1 hrest
  cases hnil
  obtain ⟨node, rfl, hoperand, -⟩ := hstart.outlined hfirst
  cases hsecond with
  | @node _ _ _ stop hshape hkind hparts htext =>
  cases hshape
  obtain ⟨inner, _, hinner, hnil, hinteger⟩ := List.forall₂_cons_left_iff.1 hparts
  cases hnil
  obtain ⟨placed, rfl, hshows⟩ := outlines_token hinner
  exact ⟨node, stop, placed, helements, hoperand, hkind, htext literal rfl, hinteger, hshows⟩

omit h in
theorem Operand.ranges_glued {literal : Token} (hliteral : literal.kind = .integerLiteral)
    (hsign : literal.text.head? = some '-')
    (hparts : List.Forall₂ Outlines [start, .node .integer [.token literal]] piece.elements) :
    ∃ node stop, piece.Ranges node (some .gluedDash) (some stop) ∧ node.IsOperand ∧
      stop.IsOperand ∧ stop.span = literal.span := by
  obtain ⟨node, stop, placed, helements, hoperand, hkind, htext, hinteger, hshows⟩ :=
    hstart.outlines_glued hparts
  obtain ⟨digits, hdigits⟩ := List.head?_eq_some_iff.1 hsign
  refine ⟨node, stop, .glued helements hkind hinteger ((shows_kind hshows).trans hliteral)
    (hdigits ▸ hshows.text), hoperand, ⟨by rw [hkind]; rfl, fun _ => ⟨_, htext⟩⟩, ?_⟩
  rw [Node.span_of_token hinteger, hshows.span]

theorem Lies.tells_of_glued {literal : Token} (hliteral : literal.kind = .integerLiteral)
    (hsign : literal.text.head? = some '-')
    (hshape : draft.shape? = some (.rangePiece, [start, .node .integer [.token literal]]))
    (hparts : List.Forall₂ Outlines [start, .node .integer [.token literal]] piece.elements) :
    whole.Tells piece := by
  obtain ⟨node, stop, hranges, hoperand, hstop, hspan⟩ :=
    hstart.ranges_glued hliteral hsign hparts
  refine ⟨node, some .gluedDash, some stop, hranges, hoperand, ?_,
    iff_of_true rfl ⟨literal, ?_, stop, ?_, hspan⟩⟩
  · rintro _ ⟨rfl⟩
    exact hstop
  · refine h.glued ?_
    rw [glued_of_shape hshape]
    exact List.mem_append_right _ (by simp [gluedEnd?])
  · cases hranges with
    | parted _ hseparator => simp at hseparator
    | glued helements =>
        rw [Node.nodes, helements]
        rfl

end

theorem Lies.tells (hprecedes : whole.tokens.Pairwise Token.Precedes) (h : whole.Lies draft)
    (houtlines : draft.Outlines (.node piece)) (hkind : piece.kind = .rangePiece) :
    whole.Tells piece := by
  cases houtlines with
  | node hshape hown hparts htext =>
      obtain rfl := hown.symm.trans hkind
      cases h.ranged.range hshape with
      | alone hstart => exact tells_of_alone hstart hparts
      | parted hstart hseparator hstop =>
          exact h.tells_of_parted hstart hprecedes hseparator hstop hshape hparts
      | glued hstart hliteral hsign => exact h.tells_of_glued hstart hliteral hsign hshape hparts

theorem Ranged.exists_ranges {node : Node} (h : draft.Ranged)
    (houtlines : draft.Outlines (.node node)) {literal : Token} (hmem : literal ∈ draft.glued) :
    ∃ piece ∈ node.descendants, piece.kind = .rangePiece ∧ ∃ start stop,
      piece.Ranges start (some .gluedDash) (some stop) ∧ stop.span = literal.span := by
  induction node using Node.induction generalizing draft with
  | step node ih =>
      cases houtlines with
      | node hshape hkind hparts htext =>
      rw [glued_of_shape hshape, List.mem_append, mem_gluedAll_iff] at hmem
      rcases hmem with ⟨part, hpart, hglued⟩ | hend
      · obtain ⟨element, helement, hinner⟩ := exists_related hparts.flip hpart
        cases hinner with
        | token => cases hglued
        | @node _ _ _ child hchildShape hchildKind hchildParts hchildText =>
            have hchild : child ∈ node.nodes :=
              List.mem_filterMap.2 ⟨.node child, helement, rfl⟩
            obtain ⟨piece, hpiece, hfound⟩ := ih child hchild (h.parts hshape part hpart)
              (.node hchildShape hchildKind hchildParts hchildText) hglued
            exact ⟨piece, Node.mem_descendants_of_mem_nodes hchild hpiece, hfound⟩
      · obtain ⟨rfl, start, rfl⟩ := gluedEnd?_eq_some_iff.1 (Option.mem_toList.1 hend)
        cases h.range hshape with
        | glued hstart hliteral hsign =>
            obtain ⟨one, stop, hranges, -, -, hspan⟩ :=
              hstart.ranges_glued hliteral hsign hparts
            exact ⟨node, node.mem_descendants_self, hkind, one, stop, hranges, hspan⟩

end Draft

end TdSyntax
