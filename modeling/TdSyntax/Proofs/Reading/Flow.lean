import TdSyntax.Proofs.Reading.Steps

/-!
# The flow of a grammar

A static analysis of grammars.  It follows which tokens may be the current one and
whether a token has been taken since the rule was entered and since the round of
the innermost loop began.  A grammar passes if every rule is entered behind a token
that the rule around it has taken, every accepting round of a loop takes a token,
and no reading comes to a part that is marked as never reached.  Such a grammar
has a reading from every cursor.
-/

namespace TdSyntax

namespace Kind.Set

def full : Set := ⟨BitVec.allOnes 64, BitVec.allOnes 64⟩

def inter (first second : Set) : Set :=
  ⟨first.low &&& second.low, first.high &&& second.high⟩

def diff (first second : Set) : Set :=
  ⟨first.low &&& ~~~second.low, first.high &&& ~~~second.high⟩

def isEmpty (set : Set) : Bool := set.low == 0 && set.high == 0

theorem word_full (slot : Fin 2) : full.word slot = BitVec.allOnes 64 := by
  match slot with | 0 | 1 => rfl

theorem word_inter (first second : Set) (slot : Fin 2) :
    (first.inter second).word slot = first.word slot &&& second.word slot := by
  match slot with | 0 | 1 => rfl

theorem word_diff (first second : Set) (slot : Fin 2) :
    (first.diff second).word slot = first.word slot &&& ~~~second.word slot := by
  match slot with | 0 | 1 => rfl

@[simp] theorem contains_full (kind : Kind) : full.contains kind = true := by
  rw [contains_eq, word_full, BitVec.getLsbD_allOnes]
  exact decide_eq_true kind.place.isLt

@[simp] theorem contains_inter (first second : Set) (kind : Kind) :
    (first.inter second).contains kind = (first.contains kind && second.contains kind) := by
  simp only [contains_eq, word_inter, BitVec.getLsbD_and]

@[simp] theorem contains_diff (first second : Set) (kind : Kind) :
    (first.diff second).contains kind = (first.contains kind && !second.contains kind) := by
  simp only [contains_eq, word_diff, BitVec.getLsbD_and, BitVec.getLsbD_not, kind.place.isLt,
    decide_true, Bool.true_and]

theorem contains_of_isEmpty {set : Set} (h : set.isEmpty = true) (kind : Kind) :
    set.contains kind = false := by
  simp only [isEmpty, Bool.and_eq_true, beq_iff_eq] at h
  obtain ⟨low, high⟩ := set
  obtain ⟨rfl, rfl⟩ := h
  exact contains_empty kind

theorem not_isEmpty {set : Set} {kind : Kind} (h : set.contains kind = true) :
    ¬ set.isEmpty = true := by
  intro hempty
  cases (contains_of_isEmpty hempty kind).symm.trans h

end Kind.Set

/-- What is known at a point of a grammar.  A point with no kinds is not reached. -/
structure Flow where
  behindStart : Bool
  moved : Bool
  kinds : Kind.Set
  deriving DecidableEq, Repr

namespace Flow

def isVoid (flow : Flow) : Bool := flow.kinds.isEmpty

def void : Flow := ⟨true, true, .empty⟩

/-- Behind the start of a rule and at the start of a round, before any token. -/
def again : Flow := ⟨true, false, .full⟩

def join (first second : Flow) : Flow :=
  if first.isVoid then second
  else if second.isVoid then first
  else ⟨first.behindStart && second.behindStart, first.moved && second.moved,
    first.kinds.union second.kinds⟩

def within (flow : Flow) (kinds : Kind.Set) : Flow :=
  { flow with kinds := flow.kinds.inter kinds }

def without (flow : Flow) (kinds : Kind.Set) : Flow :=
  { flow with kinds := flow.kinds.diff kinds }

def forward (flow : Flow) (certain : Bool) : Flow :=
  ⟨flow.behindStart || certain, flow.moved || certain, .full⟩

/-- A cursor at which what is known holds.  `limit` bounds the tokens behind the
start of the rule, and `round` those at the start of the round. -/
structure Admits (flow : Flow) (limit round : Nat) (cursor : Cursor) : Prop where
  kind : flow.kinds.contains cursor.kind = true
  eof : cursor.eof.kind = .eof
  limit : cursor.tokens.length + flow.behindStart.toNat ≤ limit
  round : cursor.tokens.length + flow.moved.toNat ≤ round

variable {first second flow : Flow} {limit round : Nat} {cursor : Cursor}

theorem not_admits_of_isVoid (h : flow.isVoid = true) : ¬ flow.Admits limit round cursor :=
  fun hadmits => Kind.Set.not_isEmpty hadmits.kind h

theorem Admits.isVoid_eq_false (h : flow.Admits limit round cursor) : flow.isVoid = false := by
  rw [← Bool.not_eq_true]
  exact fun hvoid => not_admits_of_isVoid hvoid h

theorem Admits.join_left (h : first.Admits limit round cursor) (second : Flow) :
    (first.join second).Admits limit round cursor := by
  unfold join
  split
  · exact absurd h (not_admits_of_isVoid (by assumption))
  · split
    · exact h
    · have hlimit := h.limit
      have hround := h.round
      refine ⟨by simp [h.kind], h.eof, ?_, ?_⟩
      · cases hfirst : first.behindStart <;> cases hsecond : second.behindStart <;>
          simp [hfirst] at hlimit ⊢ <;> omega
      · cases hfirst : first.moved <;> cases hsecond : second.moved <;>
          simp [hfirst] at hround ⊢ <;> omega

theorem Admits.join_right (h : second.Admits limit round cursor) (first : Flow) :
    (first.join second).Admits limit round cursor := by
  unfold join
  split
  · exact h
  · split
    · exact absurd h (not_admits_of_isVoid (by assumption))
    · have hlimit := h.limit
      have hround := h.round
      refine ⟨by simp [h.kind], h.eof, ?_, ?_⟩
      · cases hfirst : first.behindStart <;> cases hsecond : second.behindStart <;>
          simp [hsecond] at hlimit ⊢ <;> omega
      · cases hfirst : first.moved <;> cases hsecond : second.moved <;>
          simp [hsecond] at hround ⊢ <;> omega

theorem Admits.within (h : flow.Admits limit round cursor) {kinds : Kind.Set}
    (hkind : kinds.contains cursor.kind = true) :
    (flow.within kinds).Admits limit round cursor :=
  ⟨by simp [Flow.within, h.kind, hkind], h.eof, h.limit, h.round⟩

theorem Admits.without (h : flow.Admits limit round cursor) {kinds : Kind.Set}
    (hkind : kinds.contains cursor.kind = false) :
    (flow.without kinds).Admits limit round cursor :=
  ⟨by simp [Flow.without, h.kind, hkind], h.eof, h.limit, h.round⟩

theorem Admits.forward (h : flow.Admits limit round cursor) {later : Cursor}
    (heof : later.eof = cursor.eof) {certain : Bool}
    (hlength : later.tokens.length + certain.toNat ≤ cursor.tokens.length) :
    (flow.forward certain).Admits limit round later := by
  have hlimit := h.limit
  have hround := h.round
  refine ⟨by simp [Flow.forward], by rw [heof, h.eof], ?_, ?_⟩
  · cases hflag : flow.behindStart <;> cases certain <;>
      simp [Flow.forward, hflag] at hlength hlimit ⊢ <;> omega
  · cases hflag : flow.moved <;> cases certain <;>
      simp [Flow.forward, hflag] at hlength hround ⊢ <;> omega

end Flow

structure Exits where
  accepted : Flow
  rejected : Flow
  deriving DecidableEq, Repr

namespace Exits

def of (exits : Exits) (accepted : Bool) : Flow :=
  if accepted then exits.accepted else exits.rejected

def either (exits : Exits) : Flow := exits.accepted.join exits.rejected

def accepting (flow : Flow) : Exits := ⟨flow, .void⟩

def rejecting (flow : Flow) : Exits := ⟨.void, flow⟩

def join (first second : Exits) : Exits :=
  ⟨first.accepted.join second.accepted, first.rejected.join second.rejected⟩

theorem either_admits {exits : Exits} {accepted : Bool} {limit round : Nat} {cursor : Cursor}
    (h : (exits.of accepted).Admits limit round cursor) :
    exits.either.Admits limit round cursor := by
  cases accepted with
  | true => exact Flow.Admits.join_left h exits.rejected
  | false => exact Flow.Admits.join_right h exits.accepted

theorem join_admits_left {first : Exits} {accepted : Bool} {limit round : Nat}
    {cursor : Cursor} (h : (first.of accepted).Admits limit round cursor) (second : Exits) :
    ((first.join second).of accepted).Admits limit round cursor := by
  cases accepted with
  | true => exact Flow.Admits.join_left h second.accepted
  | false => exact Flow.Admits.join_left h second.rejected

theorem join_admits_right {second : Exits} {accepted : Bool} {limit round : Nat}
    {cursor : Cursor} (h : (second.of accepted).Admits limit round cursor) (first : Exits) :
    ((first.join second).of accepted).Admits limit round cursor := by
  cases accepted with
  | true => exact Flow.Admits.join_right h first.accepted
  | false => exact Flow.Admits.join_right h first.rejected

def agree (exits : Exits) : Bool :=
  exits.accepted.isVoid || exits.rejected.isVoid ||
    (exits.accepted.behindStart == exits.rejected.behindStart &&
      exits.accepted.moved == exits.rejected.moved)

/-- The exits of what follows behind both exits.  These are kept apart where a
token has been taken before one of them only. -/
def through (exits : Exits) (analysis : Flow → Option Exits) : Option Exits :=
  if exits.agree then analysis exits.either
  else do
    let accepted ← analysis exits.accepted
    let rejected ← analysis exits.rejected
    pure (accepted.join rejected)

end Exits

/-- From every admitted cursor the reader has a reading, which ends at an exit. -/
def Flow.Leads (flow : Flow) (limit : Nat) (reader : Reader) (exits : Exits) : Prop :=
  ∀ round cursor, flow.Admits limit round cursor → ∃ reading, reader cursor = some reading ∧
    (exits.of reading.accepted).Admits limit round reading.cursor

theorem Exits.through_leads {limit : Nat} {reader : Reader} {analysis : Flow → Option Exits}
    (hreader : ∀ flow exits, analysis flow = some exits → flow.Leads limit reader exits)
    {before after : Exits} (h : before.through analysis = some after) (accepted : Bool) :
    (before.of accepted).Leads limit reader after := by
  intro round cursor hcursor
  unfold through at h
  split at h
  · exact hreader _ _ h round cursor (either_admits hcursor)
  · obtain ⟨one, hone, h⟩ := Option.bind_eq_some_iff.1 h
    obtain ⟨two, htwo, h⟩ := Option.bind_eq_some_iff.1 h
    cases h
    cases accepted with
    | true =>
        obtain ⟨reading, hread, hlast⟩ := hreader _ _ hone round cursor hcursor
        exact ⟨reading, hread, join_admits_left hlast two⟩
    | false =>
        obtain ⟨reading, hread, hlast⟩ := hreader _ _ htwo round cursor hcursor
        exact ⟨reading, hread, join_admits_right hlast one⟩

end TdSyntax
