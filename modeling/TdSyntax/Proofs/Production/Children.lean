import Mathlib.Data.List.TakeWhile
import TdSyntax.Proofs.Production.Table

/-!
# What a production tells of the children

Checks of a production that hold of every list of kinds that fits it: which kinds cannot
occur, which have to, and on which side of a separating token.  If a production has no
delimiter by itself, the delimiters in what fits it pair up.
-/

namespace TdSyntax

namespace Production

def avoids (set : Kind.Set) : Production → Bool
  | .void | .done => true
  | .one kinds => (kinds.inter set).isEmpty
  | .seq first second | .either first second => avoids set first && avoids set second
  | .many item => avoids set item
  | .enclosed delimiter inner =>
      !set.contains delimiter.opening && (!set.contains delimiter.closing && avoids set inner)

def demands (set : Kind.Set) : Production → Bool
  | .void => true
  | .done | .many _ => false
  | .one kinds => (kinds.diff set).isEmpty
  | .seq first second => demands set first || demands set second
  | .either first second => demands set first && demands set second
  | .enclosed _ inner => demands set inner

def demandsBefore (separator : Kind) (set : Kind.Set) : Production → Bool
  | .void => true
  | .done | .many _ | .enclosed _ _ => false
  | .one kinds => (kinds.diff set).isEmpty && !kinds.contains separator
  | .seq first second =>
      demandsBefore separator set first ||
        (first.avoids (.singleton separator) && demandsBefore separator set second)
  | .either first second =>
      demandsBefore separator set first && demandsBefore separator set second

def demandsAfter (separator : Kind) (set : Kind.Set) : Production → Bool
  | .void => true
  | .done | .many _ | .enclosed _ _ | .one _ => false
  | .seq first second =>
      (first.avoids (.singleton separator) && demandsAfter separator set second) ||
        (first.demands (.singleton separator) && second.demands set)
  | .either first second =>
      demandsAfter separator set first && demandsAfter separator set second

variable {production : Production} {set : Kind.Set} {kinds : List Kind} {separator : Kind}

theorem not_contains_of_avoids (h : production.Fits kinds) (havoids : production.avoids set = true) :
    ∀ kind ∈ kinds, set.contains kind = false := by
  induction h with
  | done | stop => exact List.forall_mem_nil _
  | @one among kind hkind =>
      have hnone := Kind.Set.contains_of_isEmpty havoids kind
      exact List.forall_mem_singleton.2 (by simpa [hkind] using hnone)
  | seq _ _ ihFirst ihSecond =>
      simp only [avoids, Bool.and_eq_true] at havoids
      exact List.forall_mem_append.2 ⟨ihFirst havoids.1, ihSecond havoids.2⟩
  | left _ ih =>
      simp only [avoids, Bool.and_eq_true] at havoids
      exact ih havoids.1
  | right _ ih =>
      simp only [avoids, Bool.and_eq_true] at havoids
      exact ih havoids.2
  | more _ _ ihItem ihMany => exact List.forall_mem_append.2 ⟨ihItem havoids, ihMany havoids⟩
  | enclosed _ ih =>
      simp only [avoids, Bool.and_eq_true, Bool.not_eq_true'] at havoids
      exact List.forall_mem_cons.2 ⟨havoids.1,
        List.forall_mem_append.2 ⟨ih havoids.2.2, List.forall_mem_singleton.2 havoids.2.1⟩⟩

theorem exists_of_demands (h : production.Fits kinds) (hdemands : production.demands set = true) :
    ∃ kind ∈ kinds, set.contains kind = true := by
  induction h with
  | done | stop => cases hdemands
  | one hkind => exact ⟨_, List.mem_singleton.2 rfl, contains_of_diff_isEmpty hdemands hkind⟩
  | seq _ _ ihFirst ihSecond =>
      simp only [demands, Bool.or_eq_true] at hdemands
      rcases hdemands with hfirst | hsecond
      · obtain ⟨kind, hmem, hkind⟩ := ihFirst hfirst
        exact ⟨kind, List.mem_append_left _ hmem, hkind⟩
      · obtain ⟨kind, hmem, hkind⟩ := ihSecond hsecond
        exact ⟨kind, List.mem_append_right _ hmem, hkind⟩
  | left _ ih =>
      simp only [demands, Bool.and_eq_true] at hdemands
      exact ih hdemands.1
  | right _ ih =>
      simp only [demands, Bool.and_eq_true] at hdemands
      exact ih hdemands.2
  | more => cases hdemands
  | enclosed _ ih =>
      obtain ⟨kind, hmem, hkind⟩ := ih hdemands
      exact ⟨kind, List.mem_cons_of_mem _ (List.mem_append_left _ hmem), hkind⟩

theorem ne_separator_of_avoids (h : production.Fits kinds)
    (havoids : production.avoids (.singleton separator) = true) :
    ∀ kind ∈ kinds, decide (kind ≠ separator) = true := by
  intro kind hmem
  have hkind := not_contains_of_avoids h havoids kind hmem
  simp only [Kind.Set.contains_singleton, decide_eq_false_iff_not] at hkind
  exact decide_eq_true fun heq => hkind heq.symm

theorem exists_before (h : production.Fits kinds)
    (hdemands : production.demandsBefore separator set = true) :
    ∃ kind ∈ kinds.takeWhile fun kind => kind ≠ separator, set.contains kind = true := by
  induction h with
  | done | stop | more | enclosed => cases hdemands
  | @one among kind hkind =>
      simp only [demandsBefore, Bool.and_eq_true, Bool.not_eq_true'] at hdemands
      have hne : kind ≠ separator := by
        rintro rfl
        rw [hkind] at hdemands
        cases hdemands.2
      exact ⟨kind, by simp [hne], contains_of_diff_isEmpty hdemands.1 hkind⟩
  | seq hfirst _ ihFirst ihSecond =>
      simp only [demandsBefore, Bool.or_eq_true, Bool.and_eq_true] at hdemands
      rcases hdemands with hbefore | ⟨havoids, hbefore⟩
      · obtain ⟨kind, hmem, hkind⟩ := ihFirst hbefore
        refine ⟨kind, ?_, hkind⟩
        rw [List.takeWhile_append]
        split
        · exact List.mem_append_left _ ((List.takeWhile_prefix _).subset hmem)
        · exact hmem
      · obtain ⟨kind, hmem, hkind⟩ := ihSecond hbefore
        rw [List.takeWhile_append_of_pos (ne_separator_of_avoids hfirst havoids)]
        exact ⟨kind, List.mem_append_right _ hmem, hkind⟩
  | left _ ih =>
      simp only [demandsBefore, Bool.and_eq_true] at hdemands
      exact ih hdemands.1
  | right _ ih =>
      simp only [demandsBefore, Bool.and_eq_true] at hdemands
      exact ih hdemands.2

theorem exists_after (h : production.Fits kinds)
    (hdemands : production.demandsAfter separator set = true) :
    ∃ kind ∈ kinds.dropWhile fun kind => kind ≠ separator, set.contains kind = true := by
  induction h with
  | done | stop | more | enclosed | one => cases hdemands
  | seq hfirst hsecond _ ihSecond =>
      simp only [demandsAfter, Bool.or_eq_true, Bool.and_eq_true] at hdemands
      rcases hdemands with ⟨havoids, hafter⟩ | ⟨hseparator, hset⟩
      · rw [List.dropWhile_append_of_pos (ne_separator_of_avoids hfirst havoids)]
        exact ihSecond hafter
      · obtain ⟨last, hlast, hlastKind⟩ := exists_of_demands hfirst hseparator
        obtain ⟨kind, hmem, hkind⟩ := exists_of_demands hsecond hset
        refine ⟨kind, ?_, hkind⟩
        simp only [Kind.Set.contains_singleton, decide_eq_true_eq] at hlastKind
        subst hlastKind
        rw [List.dropWhile_append]
        split
        case isTrue hempty =>
          have hall := List.dropWhile_eq_nil_iff.1 (List.isEmpty_iff.1 hempty) separator hlast
          simp at hall
        case isFalse => exact List.mem_append_right _ hmem
  | left _ ih =>
      simp only [demandsAfter, Bool.and_eq_true] at hdemands
      exact ih hdemands.1
  | right _ ih =>
      simp only [demandsAfter, Bool.and_eq_true] at hdemands
      exact ih hdemands.2

end Production

/-! ## Delimiters -/

def Kind.Set.delimiters : Kind.Set :=
  .ofList [.leftParen, .rightParen, .leftBracket, .rightBracket, .leftBrace, .rightBrace,
    .leftAngle, .rightAngle, .doubleQuote]

theorem Kind.Set.isToken_of_delimiters {kind : Kind} (h : delimiters.contains kind = true) :
    kind.isToken = true := by
  cases kind <;> first | rfl | cases h

namespace Delimiter

/-- The delimiters in a list of kinds pair up and nest. -/
inductive Nested : List Kind → Prop
  | nil : Nested []
  | other {kind : Kind} {rest : List Kind} (hkind : Kind.Set.delimiters.contains kind = false)
      (hrest : Nested rest) : Nested (kind :: rest)
  | enclosed (delimiter : Delimiter) {inner rest : List Kind} (hinner : Nested inner)
      (hrest : Nested rest) : Nested (delimiter.opening :: (inner ++ delimiter.closing :: rest))

theorem Nested.append {first second : List Kind} (h : Nested first) (h' : Nested second) :
    Nested (first ++ second) := by
  induction h with
  | nil => exact h'
  | other hkind _ ih => exact .other hkind ih
  | enclosed delimiter hinner _ _ ih =>
      simpa using Nested.enclosed delimiter hinner ih

theorem contains_delimiters (delimiter : Delimiter) :
    Kind.Set.delimiters.contains delimiter.opening = true ∧
      Kind.Set.delimiters.contains delimiter.closing = true := by
  cases delimiter <;> decide

end Delimiter

namespace Production

def pairs : Production → Bool
  | .void | .done => true
  | .one kinds => (kinds.inter .delimiters).isEmpty
  | .seq first second | .either first second => pairs first && pairs second
  | .many item => pairs item
  | .enclosed _ inner => pairs inner

theorem nested_of_fits {α : Type} {kind : α → Kind} (within : α → List Kind)
    {production : Production} (hpairs : production.pairs = true) {items : List α}
    (h : production.Fits (items.map kind))
    (hdelimiter : ∀ item ∈ items, Kind.Set.delimiters.contains (kind item) = true →
      within item = [kind item])
    (hother : ∀ item ∈ items, Kind.Set.delimiters.contains (kind item) = false →
      Delimiter.Nested (within item)) : Delimiter.Nested (items.flatMap within) := by
  generalize hkinds : items.map kind = kinds at h
  induction h generalizing items with
  | done | stop =>
      rw [List.map_eq_nil_iff.1 hkinds]
      exact .nil
  | @one among _ hkind =>
      obtain ⟨item, rfl, rfl⟩ := List.map_eq_singleton_iff.1 hkinds
      have hnone := Kind.Set.contains_of_isEmpty hpairs (kind item)
      have hplain : Kind.Set.delimiters.contains (kind item) = false := by simpa [hkind] using hnone
      simpa using hother item (List.mem_singleton.2 rfl) hplain
  | seq _ _ ihFirst ihSecond =>
      simp only [pairs, Bool.and_eq_true] at hpairs
      obtain ⟨before, after, rfl, hbefore, hafter⟩ := List.map_eq_append_iff.1 hkinds
      rw [List.forall_mem_append] at hdelimiter hother
      rw [List.flatMap_append]
      exact (ihFirst hpairs.1 hdelimiter.1 hother.1 hbefore).append
        (ihSecond hpairs.2 hdelimiter.2 hother.2 hafter)
  | left _ ih =>
      simp only [pairs, Bool.and_eq_true] at hpairs
      exact ih hpairs.1 hdelimiter hother hkinds
  | right _ ih =>
      simp only [pairs, Bool.and_eq_true] at hpairs
      exact ih hpairs.2 hdelimiter hother hkinds
  | more _ _ ihItem ihMany =>
      obtain ⟨before, after, rfl, hbefore, hafter⟩ := List.map_eq_append_iff.1 hkinds
      rw [List.forall_mem_append] at hdelimiter hother
      rw [List.flatMap_append]
      exact (ihItem hpairs hdelimiter.1 hother.1 hbefore).append
        (ihMany hpairs hdelimiter.2 hother.2 hafter)
  | @enclosed delimiter _ _ _ ih =>
      obtain ⟨opening, rest, rfl, hopening, hrest⟩ := List.map_eq_cons_iff.1 hkinds
      obtain ⟨inside, last, rfl, hinside, hlast⟩ := List.map_eq_append_iff.1 hrest
      obtain ⟨closing, rfl, hclosing⟩ := List.map_eq_singleton_iff.1 hlast
      simp only [List.forall_mem_cons, List.forall_mem_append] at hdelimiter hother
      obtain ⟨hdelimiterOpening, hdelimiterInside, hdelimiterClosing, -⟩ := hdelimiter
      have hfirst := hdelimiterOpening (hopening ▸ delimiter.contains_delimiters.1)
      have hend := hdelimiterClosing (hclosing ▸ delimiter.contains_delimiters.2)
      have hinner := ih hpairs hdelimiterInside hother.2.1 hinside
      rw [List.flatMap_cons, List.flatMap_append, List.flatMap_singleton, hfirst, hend, hopening,
        hclosing]
      exact .enclosed delimiter hinner .nil

/-! ## The productions of the language -/

theorem ofKind_of_isToken {kind : Kind} (h : kind.isToken = true) : ofKind kind = .void := by
  cases kind <;> first | rfl | cases h

theorem pairs_ofKind (kind : Kind) : (ofKind kind).pairs = true := by
  cases kind <;> rfl

/-- What no node of a text without errors is or holds. -/
def faulty : Kind.Set := .ofList [.error, .tombstone, .unknown, .exclamation]

theorem avoids_ofKind (kind : Kind) : (ofKind kind).avoids faulty = true := by
  cases kind <;> rfl

theorem not_faulty {kind : Kind} {kinds : List Kind} (h : (ofKind kind).Fits kinds) :
    faulty.contains kind = false := by
  cases kind <;> first | rfl | cases h

theorem fits_rangePiece {kinds : List Kind} (h : (ofKind .rangePiece).Fits kinds) :
    ∃ start, Kind.Set.values.contains start = true ∧ (kinds = [start] ∨
      ∃ stop, Kind.Set.values.contains stop = true ∧ (kinds = [start, stop] ∨
        ∃ separator, (separator = .ellipsis ∨ separator = .minus) ∧
          kinds = [start, separator, stop])) := by
  have hone {kinds : Kind.Set} {found : List Kind} (h : (one kinds).Fits found) :
      ∃ kind, kinds.contains kind = true ∧ found = [kind] := by
    cases h with | one h => exact ⟨_, h, rfl⟩
  cases h with
  | seq hvalue hrest =>
      obtain ⟨start, hstart, rfl⟩ := hone hvalue
      refine ⟨start, hstart, ?_⟩
      cases hrest with
      | left hdone =>
          cases hdone
          exact .inl rfl
      | right hend =>
          right
          cases hend with
          | left hboth =>
              cases hboth with
              | seq hfirst hsecond =>
                  obtain ⟨separator, hseparator, rfl⟩ := hone hfirst
                  obtain ⟨stop, hstop, rfl⟩ := hone hsecond
                  exact ⟨stop, hstop, .inr ⟨separator, by simpa using hseparator, rfl⟩⟩
          | right hinteger =>
              obtain ⟨stop, hstop, rfl⟩ := hone hinteger
              simp only [Kind.Set.contains_singleton, decide_eq_true_eq] at hstop
              subst hstop
              exact ⟨.integer, by decide, .inl rfl⟩

end Production

end TdSyntax
