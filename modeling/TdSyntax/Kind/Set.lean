import TdSyntax.Kind.Basic

/-!
# Sets of kinds

A set of kinds is two words, with one bit for each kind: the first 64 kinds have
their bits in the low word, the others in the high word.  The parser asks such sets
at every token, so membership reads a single bit.
-/

namespace TdSyntax.Kind

def slot (kind : Kind) : Fin 2 :=
  ⟨kind.index / 64, Nat.div_lt_of_lt_mul (Nat.lt_trans kind.index_lt (by decide))⟩

def place (kind : Kind) : Fin 64 := ⟨kind.index % 64, Nat.mod_lt _ (by decide)⟩

def mask (kind : Kind) : BitVec 64 := 1#64 <<< kind.place.val

theorem slot_place_injective {first second : Kind} (hslot : first.slot = second.slot)
    (hplace : first.place = second.place) : first = second := by
  have hdiv : first.index / 64 = second.index / 64 := congrArg Fin.val hslot
  have hmod : first.index % 64 = second.index % 64 := congrArg Fin.val hplace
  exact index_injective (by omega)

theorem getLsbD_mask (kind : Kind) (place : Fin 64) :
    kind.mask.getLsbD place = decide (kind.place = place) := by
  rw [mask, ← BitVec.twoPow_eq, BitVec.getLsbD_twoPow]
  simp [Fin.ext_iff]

structure Set where
  low : BitVec 64
  high : BitVec 64
  deriving DecidableEq, Repr

namespace Set

def word (set : Set) : Fin 2 → BitVec 64
  | 0 => set.low
  | 1 => set.high

def empty : Set := ⟨0, 0⟩

def singleton (kind : Kind) : Set :=
  match kind.slot with
  | 0 => ⟨kind.mask, 0⟩
  | 1 => ⟨0, kind.mask⟩

def union (first second : Set) : Set :=
  ⟨first.low ||| second.low, first.high ||| second.high⟩

def ofList (kinds : List Kind) : Set :=
  kinds.foldl (fun set kind => set.union (singleton kind)) empty

def contains (set : Set) (kind : Kind) : Bool := set.word kind.slot &&& kind.mask != 0

def toList (set : Set) : List Kind := all.filter set.contains

theorem contains_eq (set : Set) (kind : Kind) :
    set.contains kind = (set.word kind.slot).getLsbD kind.place := by
  have hmask : kind.mask ≠ 0 := by
    intro hzero
    have hbit := kind.getLsbD_mask kind.place
    rw [hzero] at hbit
    simp at hbit
  rw [contains, mask, ← BitVec.twoPow_eq, BitVec.and_twoPow]
  rw [mask, ← BitVec.twoPow_eq] at hmask
  cases (set.word kind.slot).getLsbD kind.place
  · rfl
  · exact bne_iff_ne.2 hmask

theorem word_singleton (kind : Kind) (slot : Fin 2) :
    (singleton kind).word slot = if kind.slot = slot then kind.mask else 0 := by
  unfold singleton
  split <;> rename_i hslot <;> rw [hslot] <;> match slot with | 0 | 1 => rfl

theorem word_union (first second : Set) (slot : Fin 2) :
    (first.union second).word slot = first.word slot ||| second.word slot := by
  match slot with | 0 | 1 => rfl

@[simp] theorem contains_empty (kind : Kind) : empty.contains kind = false := by
  rw [contains_eq]
  generalize kind.slot = slot
  match slot with | 0 | 1 => exact BitVec.getLsbD_zero

@[simp] theorem contains_singleton (member kind : Kind) :
    (singleton member).contains kind = decide (member = kind) := by
  rw [contains_eq, word_singleton]
  by_cases hslot : member.slot = kind.slot
  · rw [if_pos hslot, getLsbD_mask, decide_eq_decide]
    exact ⟨slot_place_injective hslot, congrArg place⟩
  · have hne : member ≠ kind := fun heq => hslot (congrArg slot heq)
    simp [hslot, hne]

@[simp] theorem contains_union (first second : Set) (kind : Kind) :
    (first.union second).contains kind = (first.contains kind || second.contains kind) := by
  simp only [contains_eq, word_union, BitVec.getLsbD_or]

@[simp] theorem contains_ofList (kinds : List Kind) (kind : Kind) :
    (ofList kinds).contains kind = decide (kind ∈ kinds) := by
  have hfold : ∀ (kinds : List Kind) (set : Set),
      (kinds.foldl (fun set kind => set.union (singleton kind)) set).contains kind =
        (set.contains kind || decide (kind ∈ kinds)) := by
    intro kinds
    induction kinds with
    | nil => simp
    | cons first rest ih =>
        intro set
        rw [List.foldl_cons, ih, contains_union, contains_singleton]
        simp [Bool.or_assoc, eq_comm]
  simpa [ofList] using hfold kinds empty

end Set

end TdSyntax.Kind
