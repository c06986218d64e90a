import TdSyntax.Proofs.Reading.Flow

/-!
# Every reading comes to an end

The exits of a grammar are computed by recursion on it, and a reading from an
admitted cursor leaves at one of them.  The rules pass the analysis, so reading by
a rule never exceeds a bound and never comes to a part marked as never reached: a
rule accepts, and then takes a token, exactly if a first token of it is the current
one, and it takes nothing if it rejects.
-/

namespace TdSyntax

namespace Recovery

def moves (recovery : Recovery) (kinds : Kind.Set) : Bool :=
  match recovery with
  | .upTo stops => (kinds.inter (stops.union (.singleton .eof))).isEmpty
  | .toStatement inBlock =>
      (kinds.inter (Grammar.statementFirst.union
        (.ofList (.eof :: if inBlock then [.rightBrace] else [])))).isEmpty
  | .toBodyItem => !kinds.contains .eof

theorem not_contains_of_inter_isEmpty {kinds stops : Kind.Set}
    (h : (kinds.inter stops).isEmpty = true) {kind : Kind}
    (hkind : kinds.contains kind = true) : stops.contains kind = false := by
  have hempty := Kind.Set.contains_of_isEmpty h kind
  simpa [hkind] using hempty

theorem length_pos_of_moves {recovery : Recovery} {kinds : Kind.Set}
    (h : recovery.moves kinds = true) {kind : Kind} (hkind : kinds.contains kind = true)
    (rest : List Kind) : 0 < recovery.length (kind :: rest) := by
  cases recovery with
  | upTo stops =>
      have hstops := not_contains_of_inter_isEmpty h hkind
      simp only [Kind.Set.contains_union, Bool.or_eq_false_iff] at hstops
      simp [length, hstops.1]
  | toStatement inBlock =>
      have hstops := not_contains_of_inter_isEmpty h hkind
      simp only [Kind.Set.contains_union, Bool.or_eq_false_iff] at hstops
      simp only [length, lengthToStatement, hstops.1, Bool.and_false, Bool.false_eq_true,
        if_false]
      split
      · cases inBlock with
        | false => simp
        | true =>
            subst_vars
            exact absurd hstops.2 (by decide)
      · split <;> omega
  | toBodyItem =>
      simp only [length, lengthToBodyItem]
      split <;> omega

theorem kind_ne_eof_of_moves {recovery : Recovery} {kinds : Kind.Set}
    (h : recovery.moves kinds = true) : kinds.contains .eof = false := by
  cases hkind : kinds.contains .eof with
  | false => rfl
  | true =>
      cases recovery with
      | upTo stops => simpa using not_contains_of_inter_isEmpty h hkind
      | toStatement inBlock =>
          have hstops := not_contains_of_inter_isEmpty h hkind
          simp only [Kind.Set.contains_union, Bool.or_eq_false_iff] at hstops
          cases inBlock <;> exact absurd hstops.2 (by decide)
      | toBodyItem => simp [moves, hkind] at h

end Recovery

/-- The tokens with which text that a rule accepts starts. -/
def Rule.first : Rule → Kind.Set
  | .type => Grammar.typeFirst
  | .value place => Grammar.valueStart place
  | .statement _ => Grammar.statementFirst

namespace Flow

/-- Where a loop is left, if each of its accepting rounds takes a token. -/
def loopExit (body : Flow → Option Exits) (flow : Flow) : Option Flow := do
  let first ← body { flow with moved := false }
  let later ← body again
  if (first.accepted.moved || first.accepted.isVoid) &&
      (later.accepted.moved || later.accepted.isVoid) then
    pure ({ first.rejected with moved := flow.moved || first.rejected.moved }.join
      { later.rejected with behindStart := true, moved := true })
  else none

/-- A rule may only be entered behind the start of the rule around it. -/
def call (rule : Rule) (flow : Flow) : Option Exits :=
  if flow.behindStart || flow.isVoid then
    some ⟨⟨true, true, if (flow.within rule.first).isVoid then .empty else .full⟩,
      flow.without rule.first⟩
  else none

end Flow

def Grammar.exits : Grammar → Flow → Option Exits
  | .accept, flow | .complain _, flow | .note _ _, flow => some (.accepting flow)
  | .reject, flow => some (.rejecting flow)
  | .unreachable, flow => if flow.isVoid then some ⟨.void, .void⟩ else none
  | .bump, flow => some (.accepting (flow.forward (!flow.kinds.contains .eof)))
  | .skip recovery, flow => some (.accepting (flow.forward (recovery.moves flow.kinds)))
  | .seq first second, flow => do
      let one ← exits first flow
      one.through (exits second)
  | .ifOk test yes no, flow => do
      let one ← exits test flow
      let accepted ← exits yes one.accepted
      let rejected ← exits no one.rejected
      pure (accepted.join rejected)
  | .ifAt kinds yes no, flow => do
      let inside ← exits yes (flow.within kinds)
      let outside ← exits no (flow.without kinds)
      pure (inside.join outside)
  | .ifText _ yes no, flow => do
      let inside ← exits yes flow
      let outside ← exits no flow
      pure (inside.join outside)
  | .marked body, flow => exits body flow
  | .group body _ _, flow => do
      let inner ← exits body flow
      pure (.accepting inner.either)
  | .grow first _ rest, flow => do
      let one ← exits first flow
      let two ← exits rest one.accepted
      pure ⟨two.either, one.rejected⟩
  | .growAll first _ rest, flow => do
      let one ← exits first flow
      let last ← one.accepted.loopExit (exits rest)
      pure ⟨last, one.rejected⟩
  | .loop body, flow => do
      let last ← flow.loopExit (exits body)
      pure (.accepting last)
  | .call rule, flow => flow.call rule

def Rule.Meets (rule : Rule) (cursor : Cursor) (reading : Reading) : Prop :=
  reading.cursor.eof = cursor.eof ∧
    if rule.first.contains cursor.kind then
      reading.accepted = true ∧ reading.cursor.tokens.length < cursor.tokens.length
    else reading.accepted = false ∧ reading.cursor.tokens = cursor.tokens

theorem Cursor.tokens_ne_nil {cursor : Cursor} (heof : cursor.eof.kind = .eof)
    (h : cursor.kind ≠ .eof) : 0 < cursor.tokens.length := by
  cases htokens : cursor.tokens with
  | nil => simp [Cursor.kind, current, htokens, heof] at h
  | cons token tokens => simp

namespace Flow

variable {limit : Nat}

/-- Rounds that each take a token come to an end. -/
theorem loop_again {body : Reader} {later : Exits} (hbody : again.Leads limit body later)
    (hmoved : (later.accepted.moved || later.accepted.isVoid) = true) :
    ∀ (rounds : Nat) (cursor : Cursor), cursor.tokens.length < rounds →
      cursor.tokens.length + 1 ≤ limit → cursor.eof.kind = .eof →
      ∃ reading, Reader.loop body rounds cursor = some reading ∧ reading.accepted = true ∧
        later.rejected.Admits limit cursor.tokens.length reading.cursor := by
  intro rounds
  -- each round leaves fewer tokens, so the rounds outlast the tokens
  induction rounds with
  | zero =>
      intro cursor hrounds
      omega
  | succ rounds ih =>
      intro cursor hrounds hlimit heof
      obtain ⟨first, hfirst, hexit⟩ := hbody cursor.tokens.length cursor
        ⟨by simp [again], heof, by simpa [again] using hlimit, by simp [again]⟩
      cases haccepted : first.accepted with
      | false =>
          rw [haccepted] at hexit
          exact ⟨first.withAccepted true,
            Reader.loop_succ_eq_some_iff.2 ⟨first, hfirst, by simp [haccepted]⟩, rfl, hexit⟩
      | true =>
          rw [haccepted] at hexit
          have hreached : later.accepted.isVoid = false := hexit.isVoid_eq_false
          have hshorter := hexit.round
          simp only [hreached, Bool.or_false] at hmoved
          simp only [Exits.of, if_true, hmoved, Bool.toNat_true] at hshorter
          obtain ⟨rest, hrest, htrue, hlast⟩ := ih first.cursor (by omega) (by omega) hexit.eof
          have hround := hlast.round
          refine ⟨first.followedBy rest,
            Reader.loop_succ_eq_some_iff.2 ⟨first, hfirst, by simp [haccepted, hrest]⟩, htrue,
            hlast.kind, hlast.eof, hlast.limit, ?_⟩
          show rest.cursor.tokens.length + _ ≤ _
          omega

theorem loop_leads {body : Reader} {analysis : Flow → Option Exits}
    (hbody : ∀ flow exits, analysis flow = some exits → flow.Leads limit body exits)
    {flow last : Flow} (h : flow.loopExit analysis = some last) {round : Nat} {cursor : Cursor}
    (hcursor : flow.Admits limit round cursor) :
    ∃ reading, Reader.loop body (Reader.rounds cursor) cursor = some reading ∧
      reading.accepted = true ∧ last.Admits limit round reading.cursor := by
  simp only [loopExit, Option.bind_eq_bind, Option.bind_eq_some_iff] at h
  obtain ⟨first, hfirst, later, hlater, h⟩ := h
  split at h
  case isFalse => cases h
  case isTrue hmoved =>
    simp only [Bool.and_eq_true] at hmoved
    cases h
    have hround := hcursor.round
    obtain ⟨one, hone, hexit⟩ := hbody _ _ hfirst cursor.tokens.length cursor
      ⟨hcursor.kind, hcursor.eof, hcursor.limit, by simp⟩
    have hstep := hexit.round
    cases haccepted : one.accepted with
    | false =>
        rw [haccepted] at hexit hstep
        simp only [Exits.of, Bool.false_eq_true, if_false] at hexit hstep
        refine ⟨one.withAccepted true,
          Reader.loop_succ_eq_some_iff.2 ⟨one, hone, by simp [haccepted]⟩, rfl, ?_⟩
        have hleft : one.cursor.tokens.length +
            (flow.moved || first.rejected.moved).toNat ≤ round := by
          cases hflow : flow.moved <;> cases hfirst : first.rejected.moved <;>
            simp [hflow, hfirst] at hround hstep ⊢ <;> omega
        have hadmits : Flow.Admits
            { first.rejected with moved := flow.moved || first.rejected.moved } limit round
            one.cursor := ⟨hexit.kind, hexit.eof, hexit.limit, hleft⟩
        exact hadmits.join_left _
    | true =>
        rw [haccepted] at hexit hstep
        simp only [Exits.of, if_true] at hexit hstep
        have hreached : first.accepted.isVoid = false := hexit.isVoid_eq_false
        have htook := hmoved.1
        simp only [hreached, Bool.or_false] at htook
        simp only [htook, Bool.toNat_true] at hstep
        have hstart := hcursor.limit
        obtain ⟨rest, hrest, htrue, hlast⟩ := loop_again (hbody _ _ hlater) hmoved.2
          cursor.tokens.length one.cursor (by omega) (by omega) hexit.eof
        have hend := hlast.round
        refine ⟨one.followedBy rest,
          Reader.loop_succ_eq_some_iff.2 ⟨one, hone, by simp [haccepted, hrest]⟩, htrue, ?_⟩
        have hlimit : rest.cursor.tokens.length + 1 ≤ limit := by omega
        have hlater : rest.cursor.tokens.length + 1 ≤ round := by omega
        have hadmits : Flow.Admits
            { later.rejected with behindStart := true, moved := true } limit round
            rest.cursor := ⟨hlast.kind, hlast.eof, hlimit, hlater⟩
        exact hadmits.join_right _

theorem growAll_of_loop {kind : Kind} {body : Reader} (rounds : Nat) :
    ∀ {sofar reading : Reading}, Reader.loop body rounds sofar.cursor = some reading →
      ∃ grown, Reader.growAll kind body rounds sofar = some grown ∧ grown.accepted = true ∧
        grown.cursor = reading.cursor := by
  induction rounds with
  | zero =>
      intro sofar reading h
      cases h
  | succ rounds ih =>
      intro sofar reading h
      obtain ⟨next, hnext, h⟩ := Reader.loop_succ_eq_some_iff.1 h
      cases haccepted : next.accepted with
      | false =>
          simp only [haccepted, Bool.false_eq_true, if_false] at h
          subst h
          exact ⟨(sofar.followedBy next).withAccepted true,
            Reader.growAll_succ_eq_some_iff.2 ⟨next, hnext, by simp [haccepted]⟩, rfl, rfl⟩
      | true =>
          simp only [haccepted, if_true] at h
          obtain ⟨rest, hrest, rfl⟩ := h
          obtain ⟨grown, hgrown, htrue, hcursor⟩ := @ih (sofar.grownBy next kind) _ hrest
          refine ⟨grown, Reader.growAll_succ_eq_some_iff.2 ⟨next, hnext, ?_⟩, htrue, hcursor⟩
          simp [haccepted, hgrown]

end Flow

namespace Grammar

variable {call : Rule → Reader} {limit : Nat}

/-- Below the limit every rule has a reading, and does what it should. -/
def Obeys (call : Rule → Reader) (limit : Nat) : Prop :=
  ∀ (rule : Rule) (cursor : Cursor), cursor.eof.kind = .eof → cursor.tokens.length < limit →
    ∃ reading, call rule cursor = some reading ∧ rule.Meets cursor reading

/-- From every cursor that the analysis admits a grammar has a reading, which ends at
one of the exits that the analysis finds. -/
def Leads (call : Rule → Reader) (limit : Nat) (grammar : Grammar) : Prop :=
  ∀ mark flow exits, grammar.exits flow = some exits →
    flow.Leads limit (grammar.read call mark) exits

/-! ## Steps -/

private theorem leads_of_eq {flow exit : Flow} {reader : Reader}
    {step : Cursor → Reading} (h : ∀ cursor, reader cursor = some (step cursor))
    (haccepted : ∀ cursor, (step cursor).accepted = true)
    (hexit : ∀ round cursor, flow.Admits limit round cursor →
      exit.Admits limit round (step cursor).cursor) :
    flow.Leads limit reader (.accepting exit) := by
  intro round cursor hcursor
  refine ⟨step cursor, h cursor, ?_⟩
  rw [haccepted cursor]
  exact hexit round cursor hcursor

private theorem taking_leads {flow : Flow} {certain : Bool} {count : Cursor → Nat}
    {reader : Reader} (h : ∀ cursor, reader cursor = some (.taking (count cursor) cursor))
    (hcount : certain = true → ∀ cursor, flow.kinds.contains cursor.kind = true →
      cursor.eof.kind = .eof → 0 < count cursor ∧ 0 < cursor.tokens.length) :
    flow.Leads limit reader (.accepting (flow.forward certain)) := by
  refine leads_of_eq h (fun _ => rfl) fun round cursor hcursor => ?_
  have heof : (Reading.taking (count cursor) cursor).cursor.eof = cursor.eof := rfl
  refine hcursor.forward heof ?_
  show (cursor.tokens.drop (count cursor)).length + certain.toNat ≤ cursor.tokens.length
  rw [List.length_drop]
  cases certain with
  | false =>
      simp only [Bool.toNat_false]
      omega
  | true =>
      obtain ⟨hpos, htokens⟩ := hcount rfl cursor hcursor.kind hcursor.eof
      simp only [Bool.toNat_true]
      omega

theorem accept_leads : Leads call limit .accept := by
  intro mark flow exits h
  cases h
  exact leads_of_eq (fun _ => rfl) (fun _ => rfl) fun _ _ hcursor =>
    ⟨hcursor.kind, hcursor.eof, hcursor.limit, hcursor.round⟩

theorem note_leads (place : NotePlace) (problem : Text → Problem) :
    Leads call limit (.note place problem) := by
  intro mark flow exits h
  cases h
  exact leads_of_eq (fun _ => rfl) (fun _ => rfl) fun _ _ hcursor =>
    ⟨hcursor.kind, hcursor.eof, hcursor.limit, hcursor.round⟩

theorem reject_leads : Leads call limit .reject := by
  intro mark flow exits h round cursor hcursor
  cases h
  exact ⟨.idle false cursor, rfl, hcursor⟩

theorem unreachable_leads : Leads call limit .unreachable := by
  intro mark flow exits h round cursor hcursor
  simp only [Grammar.exits] at h
  split at h
  · exact absurd hcursor (Flow.not_admits_of_isVoid (by assumption))
  · cases h

theorem bump_leads : Leads call limit .bump := by
  intro mark flow exits h
  cases h
  refine @taking_leads _ _ _ (fun _ => 1) _ (fun _ => rfl) ?_
  intro hcertain cursor hkind heof
  refine ⟨Nat.one_pos, cursor.tokens_ne_nil heof ?_⟩
  intro hcursor
  simp [← hcursor, hkind] at hcertain

theorem skip_leads (recovery : Recovery) : Leads call limit (.skip recovery) := by
  intro mark flow exits h
  cases h
  refine @taking_leads _ _ _
    (fun cursor => recovery.length (cursor.tokens.map Token.kind)) _ (fun _ => rfl) ?_
  intro hcertain cursor hkind heof
  have hne : cursor.kind ≠ .eof := by
    intro hcursor
    rw [hcursor, Recovery.kind_ne_eof_of_moves hcertain] at hkind
    cases hkind
  have htokens := cursor.tokens_ne_nil heof hne
  refine ⟨?_, htokens⟩
  obtain ⟨token, tokens, hcursor⟩ := List.exists_cons_of_length_pos htokens
  have htoken : cursor.kind = token.kind := by simp [Cursor.kind, Cursor.current, hcursor]
  rw [htoken] at hkind
  rw [hcursor]
  exact Recovery.length_pos_of_moves hcertain hkind (tokens.map Token.kind)

theorem complain_leads (problem : Problem) : Leads call limit (.complain problem) := by
  intro mark flow exits h
  cases h
  refine @leads_of_eq _ _ _ _ (fun cursor =>
    if cursor.reported = some cursor.current.start then .idle true cursor
    else .reporting ⟨problem, cursor.current.span⟩ cursor) ?_ ?_ ?_
  · intro cursor
    simp only [read]
    split <;> rfl
  · intro cursor
    split <;> rfl
  · intro round cursor hcursor
    split <;> exact ⟨hcursor.kind, hcursor.eof, hcursor.limit, hcursor.round⟩

theorem call_leads (hcall : Obeys call limit) (rule : Rule) :
    Leads call limit (.call rule) := by
  intro mark flow exits h round cursor hcursor
  simp only [Grammar.exits, Flow.call] at h
  split at h
  case isFalse => cases h
  case isTrue hentered =>
    cases h
    have hlimit := hcursor.limit
    have hround := hcursor.round
    have hbehind : flow.behindStart = true := by
      simpa [hcursor.isVoid_eq_false] using hentered
    simp only [hbehind, Bool.toNat_true] at hlimit
    obtain ⟨reading, hread, heof, hmeets⟩ := hcall rule cursor hcursor.eof (by omega)
    refine ⟨reading, hread, ?_⟩
    cases hkind : rule.first.contains cursor.kind with
    | true =>
        simp only [hkind, if_true] at hmeets
        have hinside := (hcursor.within hkind).isVoid_eq_false
        rw [hmeets.1]
        simp only [Exits.of, hinside, if_true, Bool.false_eq_true, if_false]
        refine ⟨by simp, by rw [heof, hcursor.eof], ?_, ?_⟩ <;>
          simp only [Bool.toNat_true] <;> omega
    | false =>
        simp only [hkind, Bool.false_eq_true, if_false] at hmeets
        have hsame : reading.cursor.kind = cursor.kind := by
          simp [Cursor.kind, Cursor.current, hmeets.2, heof]
        rw [hmeets.1]
        refine ⟨?_, by rw [heof, hcursor.eof], ?_, ?_⟩
        · simp [Exits.of, Flow.without, hsame, hcursor.kind, hkind]
        · rw [hmeets.2]
          exact hcursor.limit
        · rw [hmeets.2]
          exact hround

/-! ## Compositions -/

section Compositions

variable {first second rest test yes no body : Grammar}

theorem seq_leads (h : Leads call limit first) (h' : Leads call limit second) :
    Leads call limit (.seq first second) := by
  intro mark flow exits hexits round cursor hcursor
  obtain ⟨one, hone, htwo⟩ := Option.bind_eq_some_iff.1 hexits
  obtain ⟨before, hbefore, hmiddle⟩ := h mark _ _ hone round cursor hcursor
  obtain ⟨after, hafter, hlast⟩ :=
    Exits.through_leads (h' mark) htwo before.accepted round before.cursor hmiddle
  exact ⟨before.followedBy after,
    read_seq_eq_some_iff.2 ⟨before, hbefore, after, hafter, rfl⟩, hlast⟩

theorem ifOk_leads (h : Leads call limit test) (hyes : Leads call limit yes)
    (hno : Leads call limit no) : Leads call limit (.ifOk test yes no) := by
  intro mark flow exits hexits round cursor hcursor
  obtain ⟨one, hone, hexits⟩ := Option.bind_eq_some_iff.1 hexits
  obtain ⟨accepted, haccepted, hexits⟩ := Option.bind_eq_some_iff.1 hexits
  obtain ⟨rejected, hrejected, hexits⟩ := Option.bind_eq_some_iff.1 hexits
  cases hexits
  obtain ⟨before, hbefore, hmiddle⟩ := h mark _ _ hone round cursor hcursor
  cases htest : before.accepted with
  | true =>
      rw [htest] at hmiddle
      obtain ⟨after, hafter, hlast⟩ := hyes mark _ _ haccepted round before.cursor hmiddle
      exact ⟨before.followedBy after,
        read_ifOk_eq_some_iff.2 ⟨before, hbefore, after, by simpa [htest] using hafter, rfl⟩,
        Exits.join_admits_left hlast rejected⟩
  | false =>
      rw [htest] at hmiddle
      obtain ⟨after, hafter, hlast⟩ := hno mark _ _ hrejected round before.cursor hmiddle
      exact ⟨before.followedBy after,
        read_ifOk_eq_some_iff.2 ⟨before, hbefore, after, by simpa [htest] using hafter, rfl⟩,
        Exits.join_admits_right hlast accepted⟩

theorem ifAt_leads (kinds : Kind.Set) (hyes : Leads call limit yes)
    (hno : Leads call limit no) : Leads call limit (.ifAt kinds yes no) := by
  intro mark flow exits hexits round cursor hcursor
  obtain ⟨inside, hinside, hexits⟩ := Option.bind_eq_some_iff.1 hexits
  obtain ⟨outside, houtside, hexits⟩ := Option.bind_eq_some_iff.1 hexits
  cases hexits
  rw [read_ifAt]
  cases hkind : kinds.contains cursor.kind with
  | true =>
      obtain ⟨reading, hread, hlast⟩ :=
        hyes mark _ _ hinside round cursor (hcursor.within hkind)
      exact ⟨reading, hread, Exits.join_admits_left hlast outside⟩
  | false =>
      obtain ⟨reading, hread, hlast⟩ :=
        hno mark _ _ houtside round cursor (hcursor.without hkind)
      exact ⟨reading, hread, Exits.join_admits_right hlast inside⟩

theorem ifText_leads (holds : Text → Bool) (hyes : Leads call limit yes)
    (hno : Leads call limit no) : Leads call limit (.ifText holds yes no) := by
  intro mark flow exits hexits round cursor hcursor
  obtain ⟨inside, hinside, hexits⟩ := Option.bind_eq_some_iff.1 hexits
  obtain ⟨outside, houtside, hexits⟩ := Option.bind_eq_some_iff.1 hexits
  cases hexits
  rw [read_ifText]
  split
  · obtain ⟨reading, hread, hlast⟩ := hyes mark _ _ hinside round cursor hcursor
    exact ⟨reading, hread, Exits.join_admits_left hlast outside⟩
  · obtain ⟨reading, hread, hlast⟩ := hno mark _ _ houtside round cursor hcursor
    exact ⟨reading, hread, Exits.join_admits_right hlast inside⟩

theorem marked_leads (h : Leads call limit body) : Leads call limit (.marked body) := by
  intro mark flow exits hexits round cursor hcursor
  exact h cursor.current flow exits hexits round cursor hcursor

theorem group_leads (accepted rejected : Kind) (h : Leads call limit body) :
    Leads call limit (.group body accepted rejected) := by
  intro mark flow exits hexits round cursor hcursor
  obtain ⟨inner, hinner, hexits⟩ := Option.bind_eq_some_iff.1 hexits
  cases hexits
  obtain ⟨reading, hread, hlast⟩ := h mark _ _ hinner round cursor hcursor
  exact ⟨reading.grouped accepted rejected,
    read_group_eq_some_iff.2 ⟨reading, hread, rfl⟩, Exits.either_admits hlast⟩

theorem grow_leads (kind : Kind) (h : Leads call limit first) (h' : Leads call limit rest) :
    Leads call limit (.grow first kind rest) := by
  intro mark flow exits hexits round cursor hcursor
  obtain ⟨one, hone, hexits⟩ := Option.bind_eq_some_iff.1 hexits
  obtain ⟨two, htwo, hexits⟩ := Option.bind_eq_some_iff.1 hexits
  cases hexits
  obtain ⟨before, hbefore, hmiddle⟩ := h mark _ _ hone round cursor hcursor
  cases haccepted : before.accepted with
  | false =>
      rw [haccepted] at hmiddle
      refine ⟨before, read_grow_eq_some_iff.2 ⟨before, hbefore, by simp [haccepted]⟩, ?_⟩
      rw [haccepted]
      exact hmiddle
  | true =>
      rw [haccepted] at hmiddle
      obtain ⟨after, hafter, hlast⟩ := h' mark _ _ htwo round before.cursor hmiddle
      refine ⟨_, read_grow_eq_some_iff.2
        ⟨before, hbefore, by simpa [haccepted] using ⟨after, hafter, rfl⟩⟩, ?_⟩
      have heither := Exits.either_admits hlast
      cases hgrown : after.accepted with
      | true => simpa [Exits.of, Reading.grownBy, Reading.followedBy, hgrown] using heither
      | false => simpa [Exits.of, Reading.withAccepted, Reading.followedBy] using heither

theorem growAll_leads (kind : Kind) (h : Leads call limit first) (h' : Leads call limit rest) :
    Leads call limit (.growAll first kind rest) := by
  intro mark flow exits hexits round cursor hcursor
  obtain ⟨one, hone, hexits⟩ := Option.bind_eq_some_iff.1 hexits
  obtain ⟨last, hlater, hexits⟩ := Option.bind_eq_some_iff.1 hexits
  cases hexits
  obtain ⟨before, hbefore, hmiddle⟩ := h mark _ _ hone round cursor hcursor
  cases haccepted : before.accepted with
  | false =>
      rw [haccepted] at hmiddle
      refine ⟨before, read_growAll_eq_some_iff.2 ⟨before, hbefore, by simp [haccepted]⟩, ?_⟩
      rw [haccepted]
      exact hmiddle
  | true =>
      rw [haccepted] at hmiddle
      obtain ⟨reading, hread, -, hlast⟩ := Flow.loop_leads (h' mark) hlater hmiddle
      obtain ⟨grown, hgrown, htrue, hend⟩ := @Flow.growAll_of_loop kind _ _ _ _ hread
      refine ⟨grown, read_growAll_eq_some_iff.2
        ⟨before, hbefore, by simpa [haccepted] using hgrown⟩, ?_⟩
      rw [htrue, hend]
      exact hlast

theorem loop_leads (h : Leads call limit body) : Leads call limit (.loop body) := by
  intro mark flow exits hexits round cursor hcursor
  obtain ⟨last, hlater, hexits⟩ := Option.bind_eq_some_iff.1 hexits
  cases hexits
  obtain ⟨reading, hread, htrue, hlast⟩ := Flow.loop_leads (h mark) hlater hcursor
  refine ⟨reading, hread, ?_⟩
  rw [htrue]
  exact hlast

end Compositions

/-- A grammar that passes the analysis has a reading from every admitted cursor. -/
theorem read_leads (hcall : Obeys call limit) (grammar : Grammar) :
    Leads call limit grammar := by
  induction grammar with
  | accept => exact accept_leads
  | note place problem => exact note_leads place problem
  | reject => exact reject_leads
  | unreachable => exact unreachable_leads
  | bump => exact bump_leads
  | skip recovery => exact skip_leads recovery
  | complain problem => exact complain_leads problem
  | seq first second ihFirst ihSecond => exact seq_leads ihFirst ihSecond
  | ifOk test yes no ihTest ihYes ihNo => exact ifOk_leads ihTest ihYes ihNo
  | ifAt kinds yes no ihYes ihNo => exact ifAt_leads kinds ihYes ihNo
  | ifText holds yes no ihYes ihNo => exact ifText_leads holds ihYes ihNo
  | marked body ih => exact marked_leads ih
  | group body accepted rejected ih => exact group_leads accepted rejected ih
  | grow first kind rest ihFirst ihRest => exact grow_leads kind ihFirst ihRest
  | growAll first kind rest ihFirst ihRest => exact growAll_leads kind ihFirst ihRest
  | loop body ih => exact loop_leads ih
  | call rule => exact call_leads hcall rule

end Grammar

end TdSyntax
