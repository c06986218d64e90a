import TdSyntax.Proofs.Tree.Fenced

/-!
# The parts of a range

A range holds its start, alone, or with a separator and perhaps a value behind it, or
with a negative integer directly behind it.  That integer is the glued end of the range.
The glued ends in a draft are tokens of the draft, and never its first one.
-/

namespace TdSyntax

namespace Draft

inductive Operand : Draft → Prop
  | node {draft : Draft} {kind : Kind} {parts : List Draft}
      (hshape : draft.shape? = some (kind, parts)) (hkind : kind.isValue = true ∨ kind = .error)
      (htokens : draft.tokens ≠ [])
      (hinteger : kind = .integer → ∃ literal, parts = [.token literal]) : Operand draft

inductive RangeParts : List Draft → Prop
  | alone {start : Draft} (hstart : start.Operand) : RangeParts [start]
  | parted {start : Draft} {separator : Token} (hstart : start.Operand)
      (hseparator : separator.kind = .ellipsis ∨ separator.kind = .minus) {stop : Option Draft}
      (hstop : ∀ draft ∈ stop, draft.Operand) :
      RangeParts (start :: .token separator :: stop.toList)
  | glued {start : Draft} {literal : Token} (hstart : start.Operand)
      (hliteral : literal.kind = .integerLiteral) (hsign : literal.text.head? = some '-') :
      RangeParts [start, .node .integer [.token literal]]

inductive Ranged : Draft → Prop
  | token (content : Token) : Ranged (.token content)
  | node {draft : Draft} {kind : Kind} {parts : List Draft}
      (hshape : draft.shape? = some (kind, parts)) (hrange : kind = .rangePiece → RangeParts parts)
      (hparts : ∀ part ∈ parts, Ranged part) : Ranged draft

def gluedEnd? (kind : Kind) (parts : List Draft) : Option Token :=
  match kind, parts with
  | .rangePiece, [_, .node .integer [.token literal]] => some literal
  | _, _ => none

mutual

def glued : Draft → List Token
  | .token _ => []
  | .node kind parts => gluedAll parts ++ (gluedEnd? kind parts).toList
  | .grown kind first rest =>
      glued first ++ gluedAll rest ++ (gluedEnd? kind (first :: rest)).toList

def gluedAll : List Draft → List Token
  | [] => []
  | first :: rest => glued first ++ gluedAll rest

end

theorem gluedAll_append (first second : List Draft) :
    gluedAll (first ++ second) = gluedAll first ++ gluedAll second := by
  induction first with
  | nil => rfl
  | cons draft first ih => simp [gluedAll, ih]

theorem gluedAll_map_token (tokens : List Token) : gluedAll (tokens.map .token) = [] := by
  induction tokens with
  | nil => rfl
  | cons token tokens ih => simp [gluedAll, glued, ih]

theorem mem_gluedAll_iff {drafts : List Draft} {token : Token} :
    token ∈ gluedAll drafts ↔ ∃ draft ∈ drafts, token ∈ draft.glued := by
  induction drafts with
  | nil => simp [gluedAll]
  | cons draft drafts ih => simp [gluedAll, ih]

theorem mem_tokensAll_iff {drafts : List Draft} {token : Token} :
    token ∈ tokensAll drafts ↔ ∃ draft ∈ drafts, token ∈ draft.tokens := by
  induction drafts with
  | nil => simp [tokensAll]
  | cons draft drafts ih => simp [tokensAll, ih]

theorem gluedEnd?_eq_some_iff {kind : Kind} {parts : List Draft} {literal : Token} :
    gluedEnd? kind parts = some literal ↔
      kind = .rangePiece ∧ ∃ start, parts = [start, .node .integer [.token literal]] := by
  constructor
  · intro h
    unfold gluedEnd? at h
    split at h
    · cases h
      exact ⟨rfl, _, rfl⟩
    · cases h
  · rintro ⟨rfl, start, rfl⟩
    rfl

theorem gluedEnd?_of_ne {kind : Kind} (h : kind ≠ .rangePiece) (parts : List Draft) :
    gluedEnd? kind parts = none := by
  cases hend : gluedEnd? kind parts with
  | none => rfl
  | some literal => exact absurd (gluedEnd?_eq_some_iff.1 hend).1 h

theorem glued_of_shape {draft : Draft} {kind : Kind} {parts : List Draft}
    (hshape : draft.shape? = some (kind, parts)) :
    draft.glued = gluedAll parts ++ (gluedEnd? kind parts).toList := by
  cases draft <;> cases hshape <;> rfl

theorem gluedAll_growLast {kind : Kind} (h : kind ≠ .rangePiece) (drafts rest : List Draft) :
    gluedAll (growLast kind drafts rest) = gluedAll drafts ++ gluedAll rest := by
  rcases List.eq_nil_or_concat drafts with rfl | ⟨before, last, rfl⟩
  · simp [growLast_nil, gluedAll, glued, gluedEnd?_of_ne h]
  · simp [growLast_append_singleton, gluedAll_append, gluedAll,
      glued_of_shape (shape?_grow kind last rest), gluedEnd?_of_ne h]

theorem Operand.mem_tail {start : Draft} (h : start.Operand) {token : Token} {rest : List Token}
    (hmem : token ∈ rest) : token ∈ (start.tokens ++ rest).tail := by
  obtain ⟨-, -, htokens, -⟩ := h
  obtain ⟨first, others, heq⟩ := List.exists_cons_of_ne_nil htokens
  rw [heq]
  exact List.mem_append_right _ hmem

theorem RangeParts.start {parts : List Draft} (h : RangeParts parts) :
    ∃ start rest, parts = start :: rest ∧ start.Operand := by
  cases h with
  | alone hstart => exact ⟨_, _, rfl, hstart⟩
  | parted hstart hseparator hstop => exact ⟨_, _, rfl, hstart⟩
  | glued hstart hliteral hsign => exact ⟨_, _, rfl, hstart⟩

theorem Ranged.parts {draft : Draft} {kind : Kind} {parts : List Draft} (h : draft.Ranged)
    (hshape : draft.shape? = some (kind, parts)) : ∀ part ∈ parts, part.Ranged := by
  cases h with
  | token content => cases hshape
  | node hown _ hparts =>
      cases hown.symm.trans hshape
      exact hparts

theorem Ranged.range {draft : Draft} {parts : List Draft} (h : draft.Ranged)
    (hshape : draft.shape? = some (.rangePiece, parts)) : RangeParts parts := by
  cases h with
  | token content => cases hshape
  | node hown hrange _ =>
      cases hown.symm.trans hshape
      exact hrange rfl

theorem Ranged.mem_tail_of_mem_glued {draft : Draft} (h : draft.Ranged) {token : Token}
    (hmem : token ∈ draft.glued) : token ∈ draft.tokens.tail := by
  induction h with
  | token content => cases hmem
  | @node draft kind parts hshape hrange hparts ih =>
      rw [glued_of_shape hshape, List.mem_append, mem_gluedAll_iff] at hmem
      rw [tokens_of_shape hshape]
      rcases hmem with ⟨part, hpart, hmem⟩ | hmem
      · obtain ⟨before, after, rfl⟩ := List.append_of_mem hpart
        have htail := ih part hpart hmem
        obtain ⟨first, rest, htokens⟩ := List.exists_cons_of_ne_nil
          (List.ne_nil_of_mem (List.mem_of_mem_tail htail))
        rw [htokens, List.tail_cons] at htail
        rw [tokensAll_append, tokensAll, htokens]
        cases tokensAll before with
        | nil => exact List.mem_append_left _ htail
        | cons other others => simp [htail]
      · obtain ⟨hkind, start, rfl⟩ :=
          gluedEnd?_eq_some_iff.1 (Option.mem_toList.1 hmem)
        obtain ⟨_, _, hcons, hstart⟩ := (hrange hkind).start
        cases hcons
        exact hstart.mem_tail (by simp [tokensAll, tokens])

theorem Ranged.mem_tokens_of_mem_glued {draft : Draft} (h : draft.Ranged) {token : Token}
    (hmem : token ∈ draft.glued) : token ∈ draft.tokens :=
  List.mem_of_mem_tail (h.mem_tail_of_mem_glued hmem)

end Draft

end TdSyntax
