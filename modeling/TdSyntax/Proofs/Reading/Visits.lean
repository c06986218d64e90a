import Mathlib.Logic.Relation
import TdSyntax.Proofs.Reading.Extension
import TdSyntax.Proofs.Reading.Totality

/-!
# What is visited by a reading

A visit is a part of a grammar that is read from a cursor.  It opens the visits of its own
parts, each behind what the parts before it have taken, and a call enters the grammar of a
rule.  What the analysis finds for a grammar is handed down from a visit to those that it
opens, so nothing is nested without end: a rule is entered inside a rule behind a token of
the outer one, and a loop only goes round again behind a token of the round before.
-/

namespace TdSyntax

open Relation (ReflTransGen)

/-- A part of a grammar and the cursor that it is read from; `mark` is the marked token. -/
structure Visit where
  grammar : Grammar
  mark : Token
  cursor : Cursor

namespace Visit

/-- What is read at a visit, no matter how deep rules may be nested. -/
def Gives (visit : Visit) (reading : Reading) : Prop :=
  ∃ depth, visit.grammar.read (Rule.read depth) visit.mark visit.cursor = some reading

def Turns (body : Grammar) (mark : Token) (cursor later : Cursor) : Prop :=
  ∃ reading, Gives ⟨body, mark, cursor⟩ reading ∧ reading.accepted = true ∧ reading.cursor = later

inductive Rounds : Visit → Visit → Prop
  | loop {body : Grammar} {mark : Token} {cursor later : Cursor}
      (hturns : ReflTransGen (Turns body mark) cursor later) :
      Rounds ⟨.loop body, mark, cursor⟩ ⟨body, mark, later⟩
  | growAll {first rest : Grammar} {kind : Kind} {mark : Token} {cursor later : Cursor}
      {reading : Reading} (hfirst : Gives ⟨first, mark, cursor⟩ reading)
      (haccepted : reading.accepted = true)
      (hturns : ReflTransGen (Turns rest mark) reading.cursor later) :
      Rounds ⟨.growAll first kind rest, mark, cursor⟩ ⟨rest, mark, later⟩

inductive Opens : Visit → Visit → Prop
  | first {first second : Grammar} {mark : Token} {cursor : Cursor} :
      Opens ⟨.seq first second, mark, cursor⟩ ⟨first, mark, cursor⟩
  | second {first second : Grammar} {mark : Token} {cursor : Cursor} {reading : Reading}
      (hfirst : Gives ⟨first, mark, cursor⟩ reading) :
      Opens ⟨.seq first second, mark, cursor⟩ ⟨second, mark, reading.cursor⟩
  | test {test yes no : Grammar} {mark : Token} {cursor : Cursor} :
      Opens ⟨.ifOk test yes no, mark, cursor⟩ ⟨test, mark, cursor⟩
  | branch {test yes no : Grammar} {mark : Token} {cursor : Cursor} {reading : Reading}
      (htest : Gives ⟨test, mark, cursor⟩ reading) :
      Opens ⟨.ifOk test yes no, mark, cursor⟩
        ⟨if reading.accepted then yes else no, mark, reading.cursor⟩
  | atKind {kinds : Kind.Set} {yes no : Grammar} {mark : Token} {cursor : Cursor} :
      Opens ⟨.ifAt kinds yes no, mark, cursor⟩
        ⟨if kinds.contains cursor.kind then yes else no, mark, cursor⟩
  | atText {holds : Text → Bool} {yes no : Grammar} {mark : Token} {cursor : Cursor} :
      Opens ⟨.ifText holds yes no, mark, cursor⟩
        ⟨if holds cursor.current.text then yes else no, mark, cursor⟩
  | marked {body : Grammar} {mark : Token} {cursor : Cursor} :
      Opens ⟨.marked body, mark, cursor⟩ ⟨body, cursor.current, cursor⟩
  | group {body : Grammar} {accepted rejected : Kind} {mark : Token} {cursor : Cursor} :
      Opens ⟨.group body accepted rejected, mark, cursor⟩ ⟨body, mark, cursor⟩
  | grown {first rest : Grammar} {kind : Kind} {mark : Token} {cursor : Cursor} :
      Opens ⟨.grow first kind rest, mark, cursor⟩ ⟨first, mark, cursor⟩
  | growing {first rest : Grammar} {kind : Kind} {mark : Token} {cursor : Cursor}
      {reading : Reading} (hfirst : Gives ⟨first, mark, cursor⟩ reading)
      (haccepted : reading.accepted = true) :
      Opens ⟨.grow first kind rest, mark, cursor⟩ ⟨rest, mark, reading.cursor⟩
  | allGrown {first rest : Grammar} {kind : Kind} {mark : Token} {cursor : Cursor} :
      Opens ⟨.growAll first kind rest, mark, cursor⟩ ⟨first, mark, cursor⟩
  | round {visit later : Visit} (hround : Rounds visit later) : Opens visit later

inductive Enters : Visit → Visit → Prop
  | call {rule : Rule} {mark : Token} {cursor : Cursor} :
      Enters ⟨.call rule, mark, cursor⟩ ⟨rule.grammar, cursor.current, cursor⟩

/-- One visit stands directly inside another. -/
def Holds (visit later : Visit) : Prop := visit.Opens later ∨ visit.Enters later

/-- A visit stands inside a rule that is entered inside another visit. -/
def Nests (visit later : Visit) : Prop :=
  ∃ call entered, ReflTransGen Opens visit call ∧ call.Enters entered ∧
    ReflTransGen Holds entered later

variable {visit later call entered : Visit} {reading : Reading} {limit : Nat}

/-! ## What is read -/

theorem Gives.unique {other : Reading} (h : visit.Gives reading) (h' : visit.Gives other) :
    reading = other := by
  obtain ⟨depth, hread⟩ := h
  obtain ⟨depth', hread'⟩ := h'
  have hone := Grammar.read_deeper (Nat.le_max_left depth depth') hread
  have htwo := Grammar.read_deeper (Nat.le_max_right depth depth') hread'
  exact Option.some.inj (hone.symm.trans htwo)

theorem Gives.reaches (h : visit.Gives reading) : visit.cursor.Reaches reading.cursor := by
  obtain ⟨depth, hread⟩ := h
  exact Grammar.read_advances (Rule.read_advances depth) _ _ _ _ hread

theorem reaches_of_turns {body : Grammar} {mark : Token} {cursor later : Cursor}
    (h : ReflTransGen (Turns body mark) cursor later) : cursor.Reaches later := by
  induction h with
  | refl => exact .refl cursor
  | tail _ hturn ih =>
      obtain ⟨reading, hgives, -, rfl⟩ := hturn
      exact ih.trans hgives.reaches

theorem Rounds.reaches (h : visit.Rounds later) : visit.cursor.Reaches later.cursor := by
  cases h with
  | loop hturns => exact reaches_of_turns hturns
  | growAll hfirst haccepted hturns => exact hfirst.reaches.trans (reaches_of_turns hturns)

theorem Opens.reaches (h : visit.Opens later) : visit.cursor.Reaches later.cursor := by
  cases h with
  | second hfirst => exact hfirst.reaches
  | branch htest => exact htest.reaches
  | growing hfirst haccepted => exact hfirst.reaches
  | round hround => exact hround.reaches
  | _ => exact .refl _

theorem Enters.cursor_eq (h : call.Enters entered) : entered.cursor = call.cursor := by
  cases h
  rfl

theorem Holds.reaches (h : visit.Holds later) : visit.cursor.Reaches later.cursor := by
  rcases h with hopens | henters
  · exact hopens.reaches
  · exact henters.cursor_eq ▸ .refl _

theorem reaches_of_holds (h : ReflTransGen Holds visit later) :
    visit.cursor.Reaches later.cursor := by
  induction h with
  | refl => exact .refl _
  | tail _ hstep ih => exact ih.trans hstep.reaches

theorem reaches_of_opens (h : ReflTransGen Opens visit later) :
    visit.cursor.Reaches later.cursor := by
  induction h with
  | refl => exact .refl _
  | tail _ hstep ih => exact ih.trans hstep.reaches

/-! ## What the analysis finds -/

/-- The analysis passes the grammar of the visit with something that is known at its cursor;
fewer than `limit` tokens remain behind the first token of the rule around it. -/
def Passes (limit : Nat) (visit : Visit) : Prop :=
  ∃ flow exits round, visit.grammar.exits flow = some exits ∧
    flow.Admits limit round visit.cursor

theorem gives_admits {flow : Flow} {exits : Exits} {round : Nat}
    (hexits : visit.grammar.exits flow = some exits)
    (hadmits : flow.Admits limit round visit.cursor) :
    ∃ reading, visit.Gives reading ∧
      (exits.of reading.accepted).Admits limit round reading.cursor := by
  obtain ⟨reading, hread, hlast⟩ := Grammar.read_leads (Rule.read_obeys limit) visit.grammar
    visit.mark flow exits hexits round visit.cursor hadmits
  exact ⟨reading, ⟨limit, hread⟩, hlast⟩

theorem Passes.exists_gives (h : visit.Passes limit) : ∃ reading, visit.Gives reading := by
  obtain ⟨flow, exits, round, hexits, hadmits⟩ := h
  obtain ⟨reading, hgives, -⟩ := gives_admits hexits hadmits
  exact ⟨reading, hgives⟩

theorem Gives.admits {flow : Flow} {exits : Exits} {round : Nat} (h : visit.Gives reading)
    (hexits : visit.grammar.exits flow = some exits)
    (hadmits : flow.Admits limit round visit.cursor) :
    (exits.of reading.accepted).Admits limit round reading.cursor := by
  obtain ⟨other, hother, hlast⟩ := gives_admits hexits hadmits
  rwa [h.unique hother]

theorem passes_of_through {before after : Exits} {grammar : Grammar} {mark : Token}
    {cursor : Cursor} {round : Nat} {accepted : Bool}
    (h : before.through grammar.exits = some after)
    (hadmits : (before.of accepted).Admits limit round cursor) :
    Passes limit ⟨grammar, mark, cursor⟩ := by
  unfold Exits.through at h
  split at h
  · exact ⟨_, _, _, h, Exits.either_admits hadmits⟩
  · obtain ⟨one, hone, h⟩ := Option.bind_eq_some_iff.1 h
    obtain ⟨two, htwo, h⟩ := Option.bind_eq_some_iff.1 h
    cases accepted with
    | true => exact ⟨_, _, _, hone, hadmits⟩
    | false => exact ⟨_, _, _, htwo, hadmits⟩

/-! ## Rounds -/

/-- A round starts where the analysis passes the body, and takes a token if it makes the
loop go on. -/
def Ready (limit : Nat) (body : Grammar) (cursor : Cursor) : Prop :=
  ∃ flow exits, body.exits flow = some exits ∧
    flow.Admits limit cursor.tokens.length cursor ∧
    (exits.accepted.moved || exits.accepted.isVoid) = true

theorem Ready.passes {body : Grammar} {cursor : Cursor} (h : Ready limit body cursor)
    (mark : Token) : Passes limit ⟨body, mark, cursor⟩ := by
  obtain ⟨flow, exits, hexits, hadmits, -⟩ := h
  exact ⟨flow, exits, _, hexits, hadmits⟩

theorem Ready.shortens {body : Grammar} {mark : Token} {cursor later : Cursor}
    (h : Ready limit body cursor) (hturn : Turns body mark cursor later) :
    later.tokens.length < cursor.tokens.length := by
  obtain ⟨flow, exits, hexits, hadmits, hmoved⟩ := h
  obtain ⟨reading, hgives, haccepted, rfl⟩ := hturn
  have hlast := hgives.admits hexits hadmits
  rw [haccepted] at hlast
  have hreached : exits.accepted.isVoid = false := hlast.isVoid_eq_false
  have hround := hlast.round
  simp only [hreached, Bool.or_false] at hmoved
  simp only [Exits.of, if_true, hmoved, Bool.toNat_true] at hround
  omega

theorem Ready.turns {body : Grammar} {mark : Token} {flow last : Flow} {round : Nat}
    {cursor later : Cursor} (hexit : flow.loopExit body.exits = some last)
    (hadmits : flow.Admits limit round cursor)
    (h : ReflTransGen (Turns body mark) cursor later) : Ready limit body later := by
  simp only [Flow.loopExit, Option.bind_eq_bind, Option.bind_eq_some_iff] at hexit
  obtain ⟨first, hfirst, again, hagain, hexit⟩ := hexit
  split at hexit
  case isFalse => cases hexit
  case isTrue hmoved =>
    simp only [Bool.and_eq_true] at hmoved
    induction h with
    | refl =>
        exact ⟨_, first, hfirst, ⟨hadmits.kind, hadmits.eof, hadmits.limit, by simp⟩, hmoved.1⟩
    | @tail middle later hturns hturn ih =>
        have hshorter := ih.shortens hturn
        have heof := (reaches_of_turns (hturns.tail hturn)).eof
        obtain ⟨start, exits, -, hstart, -⟩ := ih
        have hlimit := hstart.limit
        refine ⟨_, again, hagain, ⟨by simp [Flow.again], by rw [heof, hadmits.eof], ?_,
          by simp [Flow.again]⟩, hmoved.2⟩
        simp only [Flow.again, Bool.toNat_true]
        omega

theorem Passes.ready (h : visit.Passes limit) (hround : visit.Rounds later) :
    Ready limit later.grammar later.cursor := by
  obtain ⟨flow, exits, round, hexits, hadmits⟩ := h
  cases hround with
  | loop hturns =>
      obtain ⟨last, hlast, -⟩ := Option.bind_eq_some_iff.1 hexits
      exact Ready.turns hlast hadmits hturns
  | growAll hfirst haccepted hturns =>
      obtain ⟨one, hone, hexits⟩ := Option.bind_eq_some_iff.1 hexits
      obtain ⟨last, hlast, -⟩ := Option.bind_eq_some_iff.1 hexits
      have hbehind := hfirst.admits hone hadmits
      rw [haccepted] at hbehind
      exact Ready.turns hlast hbehind hturns

theorem Passes.round_shortens (h : visit.Passes limit) (hround : visit.Rounds later)
    (hgives : later.Gives reading) (haccepted : reading.accepted = true) :
    reading.cursor.tokens.length < later.cursor.tokens.length :=
  (h.ready hround).shortens ⟨reading, hgives, haccepted, rfl⟩

/-! ## Parts -/

theorem Passes.opens (h : visit.Passes limit) (hopens : visit.Opens later) :
    later.Passes limit := by
  obtain ⟨flow, exits, round, hexits, hadmits⟩ := id h
  cases hopens with
  | first =>
      obtain ⟨one, hone, -⟩ := Option.bind_eq_some_iff.1 hexits
      exact ⟨flow, one, round, hone, hadmits⟩
  | second hfirst =>
      obtain ⟨one, hone, htwo⟩ := Option.bind_eq_some_iff.1 hexits
      exact passes_of_through htwo (hfirst.admits hone hadmits)
  | test =>
      obtain ⟨one, hone, -⟩ := Option.bind_eq_some_iff.1 hexits
      exact ⟨flow, one, round, hone, hadmits⟩
  | branch htest =>
      obtain ⟨one, hone, hexits⟩ := Option.bind_eq_some_iff.1 hexits
      obtain ⟨accepted, hyes, hexits⟩ := Option.bind_eq_some_iff.1 hexits
      obtain ⟨rejected, hno, -⟩ := Option.bind_eq_some_iff.1 hexits
      have hbehind := htest.admits hone hadmits
      split <;> rename_i haccepted
      · rw [haccepted] at hbehind
        exact ⟨_, accepted, round, hyes, hbehind⟩
      · rw [Bool.eq_false_iff.2 haccepted] at hbehind
        exact ⟨_, rejected, round, hno, hbehind⟩
  | atKind =>
      obtain ⟨inside, hyes, hexits⟩ := Option.bind_eq_some_iff.1 hexits
      obtain ⟨outside, hno, -⟩ := Option.bind_eq_some_iff.1 hexits
      split <;> rename_i hkind
      · exact ⟨_, inside, round, hyes, hadmits.within hkind⟩
      · exact ⟨_, outside, round, hno, hadmits.without (Bool.eq_false_iff.2 hkind)⟩
  | atText =>
      obtain ⟨inside, hyes, hexits⟩ := Option.bind_eq_some_iff.1 hexits
      obtain ⟨outside, hno, -⟩ := Option.bind_eq_some_iff.1 hexits
      split
      · exact ⟨flow, inside, round, hyes, hadmits⟩
      · exact ⟨flow, outside, round, hno, hadmits⟩
  | marked => exact ⟨flow, exits, round, hexits, hadmits⟩
  | group =>
      obtain ⟨inner, hinner, -⟩ := Option.bind_eq_some_iff.1 hexits
      exact ⟨flow, inner, round, hinner, hadmits⟩
  | grown =>
      obtain ⟨one, hone, -⟩ := Option.bind_eq_some_iff.1 hexits
      exact ⟨flow, one, round, hone, hadmits⟩
  | growing hfirst haccepted =>
      obtain ⟨one, hone, hexits⟩ := Option.bind_eq_some_iff.1 hexits
      obtain ⟨two, htwo, -⟩ := Option.bind_eq_some_iff.1 hexits
      have hbehind := hfirst.admits hone hadmits
      rw [haccepted] at hbehind
      exact ⟨_, two, round, htwo, hbehind⟩
  | allGrown =>
      obtain ⟨one, hone, -⟩ := Option.bind_eq_some_iff.1 hexits
      exact ⟨flow, one, round, hone, hadmits⟩
  | round hround => exact (h.ready hround).passes _

theorem Passes.opens_all (h : visit.Passes limit) (hopens : ReflTransGen Opens visit later) :
    later.Passes limit := by
  induction hopens with
  | refl => exact h
  | tail _ hstep ih => exact ih.opens hstep

/-! ## Rules -/

theorem isSome_exits_grammar (rule : Rule) :
    (rule.grammar.exits ⟨false, false, .full⟩).isSome = true := by
  rcases rule with _ | place | place
  · decide +kernel
  · cases place <;> decide +kernel
  · cases place <;> decide +kernel

theorem Enters.passes (h : call.Enters entered) (heof : call.cursor.eof.kind = .eof) :
    entered.Passes entered.cursor.tokens.length := by
  cases h with
  | @call rule mark cursor =>
      obtain ⟨exits, hexits⟩ := Option.isSome_iff_exists.1 (isSome_exits_grammar rule)
      exact ⟨_, exits, cursor.tokens.length, hexits, ⟨by simp, heof, by simp, by simp⟩⟩

theorem Passes.enters_shorter (h : visit.Passes limit) (henters : visit.Enters entered) :
    visit.cursor.tokens.length < limit := by
  obtain ⟨flow, exits, round, hexits, hadmits⟩ := h
  cases henters with
  | @call rule mark cursor =>
      simp only [Grammar.exits, Flow.call] at hexits
      split at hexits
      case isFalse => cases hexits
      case isTrue hbehind =>
        have hlimit := hadmits.limit
        rw [hadmits.isVoid_eq_false, Bool.or_false] at hbehind
        simp only [hbehind, Bool.toNat_true] at hlimit
        exact hlimit

theorem Passes.eof (h : visit.Passes limit) : visit.cursor.eof.kind = .eof := by
  obtain ⟨flow, exits, round, hexits, hadmits⟩ := h
  exact hadmits.eof

theorem Opens.sizeOf_lt (h : visit.Opens later) : sizeOf later.grammar < sizeOf visit.grammar := by
  cases h with
  | first | second => simp only [Grammar.seq.sizeOf_spec]; omega
  | test => simp only [Grammar.ifOk.sizeOf_spec]; omega
  | branch => simp only [Grammar.ifOk.sizeOf_spec]; split <;> omega
  | atKind => simp only [Grammar.ifAt.sizeOf_spec]; split <;> omega
  | atText => simp only [Grammar.ifText.sizeOf_spec]; split <;> omega
  | marked => simp only [Grammar.marked.sizeOf_spec]; omega
  | group => simp only [Grammar.group.sizeOf_spec]; omega
  | grown | growing => simp only [Grammar.grow.sizeOf_spec]; omega
  | allGrown => simp only [Grammar.growAll.sizeOf_spec]; omega
  | round hround =>
      cases hround with
      | loop => simp only [Grammar.loop.sizeOf_spec]; omega
      | growAll => simp only [Grammar.growAll.sizeOf_spec]; omega

theorem Passes.acc (h : visit.Passes limit) : Acc (fun later visit => visit.Holds later) visit := by
  -- A part is smaller, and a rule that is entered has fewer tokens before it.
  induction limit using Nat.strongRecOn generalizing visit with
  | ind limit ih =>
      induction hsize : sizeOf visit.grammar using Nat.strongRecOn generalizing visit with
      | ind size ihParts =>
          refine .intro _ fun later hholds => ?_
          rcases hholds with hopens | henters
          · exact ihParts _ (hsize ▸ hopens.sizeOf_lt) (h.opens hopens) rfl
          · have hshorter := h.enters_shorter henters
            rw [← henters.cursor_eq] at hshorter
            exact ih _ hshorter (henters.passes h.eof)

theorem Passes.visits (h : visit.Passes limit) (hholds : ReflTransGen Holds visit later) :
    ∃ bound, later.Passes bound := by
  induction hholds with
  | refl => exact ⟨limit, h⟩
  | tail _ hstep ih =>
      obtain ⟨bound, hpasses⟩ := ih
      rcases hstep with hopens | henters
      · exact ⟨bound, hpasses.opens hopens⟩
      · exact ⟨_, henters.passes hpasses.eof⟩

theorem Passes.calls_shorter {next : Visit} (h : visit.Passes limit)
    (hholds : ReflTransGen Holds visit later) (hnext : later.Enters next) :
    later.cursor.tokens.length < limit := by
  induction hholds using ReflTransGen.head_induction_on with
  | refl => exact h.enters_shorter hnext
  | head hstep hrest ih =>
      rcases hstep with hopens | henters
      · exact ih (h.opens hopens)
      · have hshorter := h.enters_shorter henters
        have hle := (reaches_of_holds hrest).tokens.length_le
        rw [henters.cursor_eq] at hle
        omega

/-- A rule that is entered inside a rule stands behind a token of the outer one. -/
theorem Enters.shortens {next : Visit} (h : call.Enters entered)
    (heof : call.cursor.eof.kind = .eof) (hholds : ReflTransGen Holds entered later)
    (hnext : later.Enters next) : later.cursor.tokens.length < call.cursor.tokens.length := by
  have hshorter := (h.passes heof).calls_shorter hholds hnext
  rwa [h.cursor_eq] at hshorter

/-! ## Cycles -/

theorem exists_last_enters (h : call.Enters entered) (hholds : ReflTransGen Holds entered later) :
    ∃ call' entered' : Visit, call'.Enters entered' ∧
      entered.cursor.Reaches entered'.cursor ∧
      ReflTransGen Opens entered' later := by
  induction hholds with
  | refl => exact ⟨call, entered, h, .refl _, .refl⟩
  | tail hbefore hstep ih =>
      rcases hstep with hopens | henters
      · obtain ⟨call', entered', henters', hreaches, hopens'⟩ := ih
        exact ⟨call', entered', henters', hreaches, hopens'.tail hopens⟩
      · have hreaches := (reaches_of_holds hbefore).trans (Holds.reaches (.inr henters))
        exact ⟨_, _, henters, hreaches, .refl⟩

/-- A token is taken before a visit comes round to what the analysis cannot tell from it. -/
theorem Nests.shortens (h : visit.Nests later) (heof : visit.cursor.eof.kind = .eof)
    (hexits : later.grammar.exits = visit.grammar.exits) :
    later.cursor.tokens.length < visit.cursor.tokens.length := by
  obtain ⟨call, entered, hopens, henters, hholds⟩ := h
  obtain ⟨call', entered', henters', hbetween, hopens'⟩ := exists_last_enters henters hholds
  have hcall := reaches_of_opens hopens
  have hlater := reaches_of_opens hopens'
  have hentered : visit.cursor.Reaches entered'.cursor := by
    rw [henters.cursor_eq] at hbetween
    exact hcall.trans hbetween
  have hall := hentered.trans hlater
  -- If no token is taken, what is known at the later visit holds at the earlier one as well, so
  -- that one could not enter the rule.
  by_contra hge
  have hbehind := hlater.tokens.length_le
  have hbefore := (henters.cursor_eq ▸ hbetween).tokens.length_le
  have htokens := hall.tokens.eq_of_length_le (by omega)
  have heof' : call'.cursor.eof.kind = .eof := by
    rw [← henters'.cursor_eq, hentered.eof, heof]
  obtain ⟨flow, exits, round, hfound, hadmits⟩ := (henters'.passes heof').opens_all hopens'
  have hkind : later.cursor.kind = visit.cursor.kind := by
    simp [Cursor.kind, Cursor.current, htokens, hall.eof]
  have hpasses : visit.Passes entered'.cursor.tokens.length :=
    ⟨flow, exits, round, hexits ▸ hfound,
      ⟨hkind ▸ hadmits.kind, heof, htokens ▸ hadmits.limit, htokens ▸ hadmits.round⟩⟩
  have hshorter := (hpasses.opens_all hopens).enters_shorter henters
  have hentered' := hcall.tokens.length_le
  omega

end Visit

end TdSyntax
