import TdSyntax.Proofs.Production.Closed

/-!
# Picking up at the next statement

Where no statement starts, the grammar of files reports this once, gathers the tokens up
to the next statement outside of braces in an error node, and goes on there as at the
start of a file.
-/

namespace TdSyntax

/-- Behind some open braces, these tokens close them all and no others, and no statement
starts outside of braces. -/
structure Kind.Skippable (depth : Nat) (kinds : List Kind) : Prop where
  nested : ∀ count ≤ kinds.length,
    (kinds.take count).count .rightBrace ≤ depth + (kinds.take count).count .leftBrace
  balanced : kinds.count .rightBrace = depth + kinds.count .leftBrace
  outside : ∀ place : Fin kinds.length,
    (kinds.take place).count .rightBrace = depth + (kinds.take place).count .leftBrace →
      Grammar.statementFirst.contains kinds[place] = false

namespace Kind.Skippable

instance (depth : Nat) (kinds : List Kind) : Decidable (Skippable depth kinds) :=
  decidable_of_iff
    ((∀ count ≤ kinds.length,
        (kinds.take count).count .rightBrace ≤ depth + (kinds.take count).count .leftBrace) ∧
      kinds.count .rightBrace = depth + kinds.count .leftBrace ∧
      ∀ place : Fin kinds.length,
        (kinds.take place).count .rightBrace = depth + (kinds.take place).count .leftBrace →
          Grammar.statementFirst.contains kinds[place] = false)
    ⟨fun h => ⟨h.1, h.2.1, h.2.2⟩, fun h => ⟨h.nested, h.balanced, h.outside⟩⟩

theorem tail {depth next : Nat} {kind : Kind} {kinds : List Kind}
    (h : Skippable depth (kind :: kinds))
    (hnext : depth + [kind].count .leftBrace = next + [kind].count .rightBrace) :
    Skippable next kinds := by
  have hcount (which : Kind) (kinds : List Kind) :
      (kind :: kinds).count which = [kind].count which + kinds.count which := by
    rw [← List.count_append, List.singleton_append]
  constructor
  · intro count hle
    have hnested := h.nested (count + 1) (Nat.succ_le_succ hle)
    rw [List.take_succ_cons, hcount .rightBrace (kinds.take count),
      hcount .leftBrace (kinds.take count)] at hnested
    omega
  · have hbalanced := h.balanced
    rw [hcount .rightBrace kinds, hcount .leftBrace kinds] at hbalanced
    omega
  · intro place hlevel
    apply h.outside place.succ
    rw [Fin.val_succ, List.take_succ_cons, hcount .rightBrace (kinds.take place),
      hcount .leftBrace (kinds.take place)]
    omega

theorem opens {depth : Nat} {kinds : List Kind} (h : Skippable depth (.rightBrace :: kinds)) :
    0 < depth := by
  have hnested := h.nested 1 (by simp)
  simp at hnested
  omega

theorem head {kind : Kind} {kinds : List Kind} (h : Skippable 0 (kind :: kinds)) :
    Grammar.statementFirst.contains kind = false :=
  h.outside ⟨0, by simp⟩ (by simp)

end Kind.Skippable

namespace Recovery

end Recovery

namespace Grammar

end Grammar

end TdSyntax
