import TdSyntax.Kind.Set

/-!
# Members of a set of kinds

A set that is made of a list has the bits of the kinds in the list and no other bit.  So it
depends on the members of the list only: two lists with the same members give the same words, in
whatever order the members stand and however often.
-/

namespace TdSyntax.Kind.Set

def words (set : Set) : List (BitVec 64) := [set.low, set.high]

theorem getElem?_words (set : Set) (slot : Fin 2) : set.words[slot.val]? = some (set.word slot) := by
  match slot with | 0 | 1 => rfl

variable {first second : Set}

theorem ext_word (h : ∀ slot, first.word slot = second.word slot) : first = second := by
  obtain ⟨low, high⟩ := first
  obtain ⟨other, top⟩ := second
  obtain rfl : low = other := h 0
  obtain rfl : high = top := h 1
  rfl

/-! ## No stray bits -/

/-- Every bit that is set is the bit of a kind. -/
def Tight (set : Set) : Prop :=
  ∀ slot (place : Fin 64), (set.word slot).getLsbD place = true →
    ∃ kind : Kind, kind.slot = slot ∧ kind.place = place

theorem tight_empty : empty.Tight := by
  intro slot place hbit
  have hzero : empty.word slot = 0 := by
    match slot with | 0 | 1 => rfl
  rw [hzero] at hbit
  simp at hbit

theorem tight_singleton (kind : Kind) : (singleton kind).Tight := by
  intro slot place hbit
  rw [word_singleton] at hbit
  split at hbit
  · rename_i hslot
    rw [getLsbD_mask] at hbit
    exact ⟨kind, hslot, of_decide_eq_true hbit⟩
  · simp at hbit

theorem Tight.union (h : first.Tight) (h' : second.Tight) : (first.union second).Tight := by
  intro slot place hbit
  rw [word_union, BitVec.getLsbD_or, Bool.or_eq_true] at hbit
  exact hbit.elim (h slot place) (h' slot place)

theorem tight_ofList (kinds : List Kind) : (ofList kinds).Tight := by
  have hfold : ∀ (kinds : List Kind) (set : Set), set.Tight →
      (kinds.foldl (fun set kind => set.union (singleton kind)) set).Tight := by
    intro kinds
    induction kinds with
    | nil => exact fun _ hset => hset
    | cons first rest ih => exact fun set hset => ih _ (hset.union (tight_singleton first))
  exact hfold kinds empty tight_empty

theorem Tight.ext (h : first.Tight) (h' : second.Tight)
    (hmembers : ∀ kind, first.contains kind = second.contains kind) : first = second := by
  refine ext_word fun slot => BitVec.eq_of_getLsbD_eq fun index hindex => ?_
  let place : Fin 64 := ⟨index, hindex⟩
  have hkind (kind : Kind) (hslot : kind.slot = slot) (hplace : kind.place = place) :
      (first.word slot).getLsbD place = (second.word slot).getLsbD place := by
    have hsame := hmembers kind
    rwa [contains_eq, contains_eq, hslot, hplace] at hsame
  show (first.word slot).getLsbD place = (second.word slot).getLsbD place
  cases hbit : (first.word slot).getLsbD place with
  | true =>
      obtain ⟨kind, hslot, hplace⟩ := h slot place hbit
      rw [← hbit, hkind kind hslot hplace]
  | false =>
      cases hother : (second.word slot).getLsbD place with
      | false => rfl
      | true =>
          obtain ⟨kind, hslot, hplace⟩ := h' slot place hother
          rw [← hbit, ← hother, hkind kind hslot hplace]

/-! ## Sets of lists -/

theorem ofList_eq_ofList_iff (left right : List Kind) :
    ofList left = ofList right ↔ ∀ kind, kind ∈ left ↔ kind ∈ right := by
  constructor
  · intro heq kind
    have hmember := congrArg (contains · kind) heq
    simpa using hmember
  · intro hmembers
    refine (tight_ofList left).ext (tight_ofList right) fun kind => ?_
    simp [hmembers kind]

example : ofList [.tombstone, .leftParen, .tombstone] = ofList [.leftParen, .tombstone] := by
  decide

theorem union_ofList (left right : List Kind) :
    (ofList left).union (ofList right) = ofList (left ++ right) := by
  refine ((tight_ofList left).union (tight_ofList right)).ext (tight_ofList _) fun kind => ?_
  simp

theorem union_ofList_eq_left_iff (left right : List Kind) :
    (ofList left).union (ofList right) = ofList left ↔ right ⊆ left := by
  rw [union_ofList, ofList_eq_ofList_iff]
  refine forall_congr' fun kind => ?_
  rw [List.mem_append]
  exact or_iff_left_iff_imp

theorem contains_eq_mask (set : Set) (kind : Kind) :
    ∃ word, set.words[kind.index / 64]? = some word ∧ kind.index % 64 < 64 ∧
      set.contains kind = (word &&& 1#64 <<< (kind.index % 64) != 0) :=
  ⟨set.word kind.slot, set.getElem?_words kind.slot, kind.place.isLt, rfl⟩

theorem words_singleton (kind : Kind) :
    kind.index / 64 < empty.words.length ∧
      (singleton kind).words = empty.words.set (kind.index / 64) (1#64 <<< (kind.index % 64)) := by
  refine ⟨kind.slot.isLt, ?_⟩
  show _ = empty.words.set kind.slot.val kind.mask
  unfold singleton
  split <;> rename_i hslot <;> rw [hslot] <;> rfl

/-- Sets that are made of lists behave as the finite sets of the members of the lists, and every
kind has a bit in the words. -/
theorem ofList_members (left right : List Kind) (kind : Kind) :
    ((ofList left).contains kind = true ↔ kind ∈ left) ∧
      (((ofList left).union (ofList right)).contains kind = true ↔
        (ofList left).contains kind = true ∨ (ofList right).contains kind = true) ∧
      (ofList left).union (ofList right) = ofList (left ++ right) ∧
      ((ofList left == ofList right) = true ↔ ∀ member, member ∈ left ↔ member ∈ right) ∧
      (((ofList left).union (ofList right) == ofList left) = true ↔ right ⊆ left) ∧
      (kind.index / 64 < empty.words.length ∧ (singleton kind).words =
        empty.words.set (kind.index / 64) (1#64 <<< (kind.index % 64))) ∧
      ∀ set : Set, ∃ word, set.words[kind.index / 64]? = some word ∧ kind.index % 64 < 64 ∧
        set.contains kind = (word &&& 1#64 <<< (kind.index % 64) != 0) := by
  refine ⟨by simp, by simp, union_ofList left right, ?_, ?_, words_singleton kind,
    fun set => set.contains_eq_mask kind⟩
  · rw [beq_iff_eq, ofList_eq_ofList_iff]
  · rw [beq_iff_eq, union_ofList_eq_left_iff]

end TdSyntax.Kind.Set
