import TdSyntax.Grammar.Reading

/-!
# The steps of a reading

When a composed grammar has a reading, and what it is made of.  All facts about
readings are derived from these equivalences by induction on the grammar.
-/

namespace TdSyntax

namespace Reader

variable {body : Reader}

theorem loop_succ_eq_some_iff {rounds : Nat} {cursor : Cursor} {reading : Reading} :
    loop body (rounds + 1) cursor = some reading ↔
      ∃ first, body cursor = some first ∧
        if first.accepted then
          ∃ rest, loop body rounds first.cursor = some rest ∧ reading = first.followedBy rest
        else reading = first.withAccepted true := by
  simp only [loop, Option.bind_eq_bind, Option.bind_eq_some_iff]
  refine exists_congr fun first => and_congr_right fun _ => ?_
  split <;> simp [Option.bind_eq_some_iff, @eq_comm _ reading]

theorem growAll_succ_eq_some_iff {kind : Kind} {rounds : Nat} {sofar reading : Reading} :
    growAll kind body (rounds + 1) sofar = some reading ↔
      ∃ next, body sofar.cursor = some next ∧
        if next.accepted then growAll kind body rounds (sofar.grownBy next kind) = some reading
        else reading = (sofar.followedBy next).withAccepted true := by
  simp only [growAll, Option.bind_eq_bind, Option.bind_eq_some_iff]
  refine exists_congr fun next => and_congr_right fun _ => ?_
  split <;> simp [@eq_comm _ reading]

section Rounds

/-! What holds of every round, and of one reading behind another if it holds of both, holds of
all rounds together. -/

variable {starts : Cursor → Prop} {holds : Cursor → Reading → Prop}
  (hbody : ∀ cursor reading, starts cursor → body cursor = some reading → holds cursor reading)
  (hbehind : ∀ {cursor reading}, starts cursor → holds cursor reading → starts reading.cursor)
  (hfollowed : ∀ {cursor first second}, holds cursor first → holds first.cursor second →
    holds cursor (first.followedBy second))
  (haccepted : ∀ {cursor reading}, holds cursor reading →
    holds cursor (reading.withAccepted true))
include hbody hbehind hfollowed haccepted

theorem loop_induction (rounds : Nat) {cursor : Cursor} {reading : Reading}
    (hstart : starts cursor) (hread : loop body rounds cursor = some reading) :
    holds cursor reading := by
  induction rounds generalizing cursor reading with
  | zero => cases hread
  | succ rounds ih =>
      obtain ⟨first, hfirst, hread⟩ := loop_succ_eq_some_iff.1 hread
      have hround := hbody cursor first hstart hfirst
      split at hread
      · obtain ⟨rest, hrest, rfl⟩ := hread
        exact hfollowed hround (ih (hbehind hstart hround) hrest)
      · rw [hread]
        exact haccepted hround

theorem growAll_induction {kind : Kind}
    (hgrown : ∀ {cursor first second}, holds cursor first → holds first.cursor second →
      holds cursor (first.grownBy second kind))
    (rounds : Nat) (cursor : Cursor) {sofar reading : Reading} (hstart : starts cursor)
    (hsofar : holds cursor sofar) (hread : growAll kind body rounds sofar = some reading) :
    holds cursor reading := by
  induction rounds generalizing sofar with
  | zero => cases hread
  | succ rounds ih =>
      obtain ⟨next, hnext, hread⟩ := growAll_succ_eq_some_iff.1 hread
      have hround := hbody sofar.cursor next (hbehind hstart hsofar) hnext
      split at hread
      · exact ih (hgrown hsofar hround) hread
      · rw [hread]
        exact haccepted (hfollowed hsofar hround)

end Rounds

end Reader

namespace Grammar

variable {call : Rule → Reader} {mark : Token} {cursor : Cursor} {reading : Reading}

theorem read_seq_eq_some_iff {first second : Grammar} :
    read call (.seq first second) mark cursor = some reading ↔
      ∃ one, read call first mark cursor = some one ∧
        ∃ two, read call second mark one.cursor = some two ∧
          reading = one.followedBy two := by
  refine Option.bind_eq_some_iff.trans (exists_congr fun one => and_congr_right fun _ => ?_)
  simp [Option.bind_eq_some_iff, @eq_comm _ reading]

theorem read_ifOk_eq_some_iff {test yes no : Grammar} :
    read call (.ifOk test yes no) mark cursor = some reading ↔
      ∃ one, read call test mark cursor = some one ∧
        ∃ two, read call (if one.accepted then yes else no) mark one.cursor = some two ∧
          reading = one.followedBy two := by
  refine Option.bind_eq_some_iff.trans (exists_congr fun one => and_congr_right fun _ => ?_)
  split <;> simp [Option.bind_eq_some_iff, @eq_comm _ reading]

theorem read_ifAt {kinds : Kind.Set} {yes no : Grammar} :
    read call (.ifAt kinds yes no) mark cursor =
      read call (if kinds.contains cursor.kind then yes else no) mark cursor := by
  split
  case isTrue h => exact if_pos h
  case isFalse h => exact if_neg h

theorem read_ifText {test : Text → Bool} {yes no : Grammar} :
    read call (.ifText test yes no) mark cursor =
      read call (if test cursor.current.text then yes else no) mark cursor := by
  split
  case isTrue h => exact if_pos h
  case isFalse h => exact if_neg h

theorem read_group_eq_some_iff {body : Grammar} {accepted rejected : Kind} :
    read call (.group body accepted rejected) mark cursor = some reading ↔
      ∃ inner, read call body mark cursor = some inner ∧
        reading = inner.grouped accepted rejected := by
  refine Option.bind_eq_some_iff.trans (exists_congr fun inner => and_congr_right fun _ => ?_)
  simp [@eq_comm _ reading]

theorem read_grow_eq_some_iff {first rest : Grammar} {kind : Kind} :
    read call (.grow first kind rest) mark cursor = some reading ↔
      ∃ one, read call first mark cursor = some one ∧
        if one.accepted then
          ∃ two, read call rest mark one.cursor = some two ∧
            reading = if two.accepted then one.grownBy two kind
              else (one.followedBy two).withAccepted true
        else reading = one := by
  refine Option.bind_eq_some_iff.trans (exists_congr fun one => and_congr_right fun _ => ?_)
  split <;> simp [Option.bind_eq_some_iff, @eq_comm _ reading]

theorem read_growAll_eq_some_iff {first rest : Grammar} {kind : Kind} :
    read call (.growAll first kind rest) mark cursor = some reading ↔
      ∃ one, read call first mark cursor = some one ∧
        if one.accepted then
          Reader.growAll kind (read call rest mark) (Reader.rounds one.cursor) one =
            some reading
        else reading = one := by
  refine Option.bind_eq_some_iff.trans (exists_congr fun one => and_congr_right fun _ => ?_)
  split <;> simp [@eq_comm _ reading]

end Grammar

end TdSyntax
