import TdSyntax.Grammar.Sets
import TdSyntax.Proofs.Tree.Outlines

/-!
# Fences around statements

A multiclass may not hold certain statements.  Where one of them stands all the same,
an error node fences it off.  The first tokens of the statements that are fenced off
are tokens of the source, in its order.
-/

namespace TdSyntax

def Kind.isBarred : Kind → Bool
  | .classStmt | .defsetStmt | .includeStmt | .multiclassStmt => true
  | _ => false

namespace Draft

/-- A barred statement in the draft stands in an error node. -/
inductive Free : Draft → Prop
  | token (content : Token) : Free (.token content)
  | error {draft : Draft} {parts : List Draft} (hshape : draft.shape? = some (.error, parts)) :
      Free draft
  | node {draft : Draft} {kind : Kind} {parts : List Draft}
      (hshape : draft.shape? = some (kind, parts)) (hkind : kind.isBarred = false)
      (hparts : ∀ part ∈ parts, Free part) : Free draft

/-- An error node in the draft holds tokens that fit nowhere or a barred statement,
and the body of a multiclass holds no such statement outside of error nodes. -/
inductive Fenced : Draft → Prop
  | token (content : Token) : Fenced (.token content)
  | stray {parts : List Draft} (hparts : ∀ part ∈ parts, ∃ content, part = .token content) :
      Fenced (.node .error parts)
  | wrapping {kind : Kind} {keyword : Token} {parts : List Draft} (hkind : kind.isBarred = true)
      (hkeyword : Grammar.notInMulticlass.contains keyword.kind = true)
      (hparts : ∀ part ∈ parts, Fenced part) :
      Fenced (.node .error [.node kind (.token keyword :: parts)])
  | node {draft : Draft} {kind : Kind} {parts : List Draft}
      (hshape : draft.shape? = some (kind, parts)) (hkind : kind ≠ .error)
      (hfree : kind = .multiclassBody → ∀ part ∈ parts, Free part)
      (hparts : ∀ part ∈ parts, Fenced part) : Fenced draft

def wrapped? (kind : Kind) (parts : List Draft) : Option Token :=
  match kind, parts with
  | .error, [.node _ (.token keyword :: _)] => some keyword
  | _, _ => none

mutual

def wrapped : Draft → List Token
  | .token _ => []
  | .node kind parts => (wrapped? kind parts).toList ++ wrappedAll parts
  | .grown _ first rest => wrapped first ++ wrappedAll rest

def wrappedAll : List Draft → List Token
  | [] => []
  | first :: rest => wrapped first ++ wrappedAll rest

end

theorem wrappedAll_append (first second : List Draft) :
    wrappedAll (first ++ second) = wrappedAll first ++ wrappedAll second := by
  induction first with
  | nil => rfl
  | cons draft first ih => simp [wrappedAll, ih]

theorem wrappedAll_map_token (tokens : List Token) : wrappedAll (tokens.map .token) = [] := by
  induction tokens with
  | nil => rfl
  | cons token tokens ih => simp [wrappedAll, wrapped, ih]

theorem forall_mem_growLast {holds : Draft → Prop} {kind : Kind} {drafts rest : List Draft}
    (hnode : ∀ {draft parts}, draft.shape? = some (kind, parts) →
      (∀ part ∈ parts, holds part) → holds draft)
    (hdrafts : ∀ draft ∈ drafts, holds draft) (hrest : ∀ draft ∈ rest, holds draft) :
    ∀ draft ∈ growLast kind drafts rest, holds draft := by
  rcases List.eq_nil_or_concat drafts with rfl | ⟨before, last, rfl⟩
  · exact List.forall_mem_singleton.2 (hnode rfl hrest)
  · rw [List.concat_eq_append, List.forall_mem_append] at hdrafts
    rw [List.concat_eq_append, growLast_append_singleton, List.forall_mem_append]
    have hlast := hdrafts.2 last (List.mem_singleton_self last)
    exact ⟨hdrafts.1, List.forall_mem_singleton.2
      (hnode (shape?_grow kind last rest) (List.forall_mem_cons.2 ⟨hlast, hrest⟩))⟩

theorem wrapped?_of_ne {kind : Kind} (h : kind ≠ .error) (parts : List Draft) :
    wrapped? kind parts = none := by
  unfold wrapped?
  split
  · exact absurd rfl h
  · rfl

theorem wrapped_grow {kind : Kind} (h : kind ≠ .error) (first : Draft) (rest : List Draft) :
    (grow kind first rest).wrapped = first.wrapped ++ wrappedAll rest := by
  cases first <;> simp [grow, wrapped, wrappedAll, wrapped?_of_ne h]

theorem wrappedAll_growLast {kind : Kind} (h : kind ≠ .error) (drafts rest : List Draft) :
    wrappedAll (growLast kind drafts rest) = wrappedAll drafts ++ wrappedAll rest := by
  rcases List.eq_nil_or_concat drafts with rfl | ⟨before, last, rfl⟩
  · simp [growLast_nil, wrappedAll, wrapped, wrapped?_of_ne h]
  · simp [growLast_append_singleton, wrappedAll_append, wrappedAll, wrapped_grow h]

theorem wrapped_of_shape {draft : Draft} {kind : Kind} {parts : List Draft}
    (hshape : draft.shape? = some (kind, parts)) (hkind : kind ≠ .error) :
    draft.wrapped = wrappedAll parts := by
  cases draft with
  | token content => cases hshape
  | node _ _ =>
      cases hshape
      simp [wrapped, wrapped?_of_ne hkind]
  | grown _ _ _ =>
      cases hshape
      rfl

theorem tokens_of_shape {draft : Draft} {kind : Kind} {parts : List Draft}
    (hshape : draft.shape? = some (kind, parts)) : draft.tokens = tokensAll parts := by
  cases draft <;> cases hshape <;> rfl

theorem wrappedAll_sublist {drafts : List Draft}
    (h : ∀ draft ∈ drafts, draft.wrapped.Sublist draft.tokens) :
    (wrappedAll drafts).Sublist (tokensAll drafts) := by
  induction drafts with
  | nil => exact List.nil_sublist _
  | cons draft drafts ih =>
      exact (h draft (by simp)).append (ih fun other hmem => h other (by simp [hmem]))

theorem wrappedAll_of_tokens {parts : List Draft}
    (h : ∀ part ∈ parts, ∃ content, part = .token content) : wrappedAll parts = [] := by
  induction parts with
  | nil => rfl
  | cons part parts ih =>
      obtain ⟨content, rfl⟩ := h part (by simp)
      exact ih fun other hmem => h other (by simp [hmem])

theorem wrapped_stray {parts : List Draft}
    (h : ∀ part ∈ parts, ∃ content, part = .token content) : (node .error parts).wrapped = [] := by
  rw [wrapped, wrappedAll_of_tokens h, List.append_nil]
  unfold wrapped?
  split
  · obtain ⟨content, heq⟩ := h _ (List.mem_singleton_self _)
    cases heq
  · rfl

theorem wrapped_wrapping (kind : Kind) (keyword : Token) (parts : List Draft) :
    (node .error [.node kind (.token keyword :: parts)]).wrapped =
      keyword :: wrappedAll parts := by
  simp [wrapped, wrappedAll, wrapped?]

theorem Fenced.parts {draft : Draft} {kind : Kind} {parts : List Draft} (h : draft.Fenced)
    (hshape : draft.shape? = some (kind, parts)) : ∀ part ∈ parts, part.Fenced := by
  cases h with
  | token content => cases hshape
  | stray hparts =>
      cases hshape
      intro part hmem
      obtain ⟨content, rfl⟩ := hparts part hmem
      exact .token content
  | wrapping hkind hkeyword hparts =>
      cases hshape
      refine List.forall_mem_singleton.2
        (.node rfl ?_ ?_ (List.forall_mem_cons.2 ⟨.token _, hparts⟩))
      · rintro rfl
        cases hkind
      · rintro rfl
        cases hkind
  | node hown _ _ hparts =>
      cases hown.symm.trans hshape
      exact hparts

theorem Fenced.wrapped_sublist {draft : Draft} (h : draft.Fenced) :
    draft.wrapped.Sublist draft.tokens := by
  induction h with
  | token content => exact List.nil_sublist _
  | stray hparts =>
      rw [wrapped_stray hparts]
      exact List.nil_sublist _
  | wrapping hkind hkeyword hparts ih =>
      rw [wrapped_wrapping]
      simpa [tokens, tokensAll] using wrappedAll_sublist ih
  | node hshape hkind hfree hparts ih =>
      rw [wrapped_of_shape hshape hkind, tokens_of_shape hshape]
      exact wrappedAll_sublist ih

end Draft

end TdSyntax
