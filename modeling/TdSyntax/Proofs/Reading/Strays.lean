import TdSyntax.Proofs.Reading.Explained
import TdSyntax.Proofs.Reading.Free
import TdSyntax.Proofs.Tree.Gathered

/-!
# Strays are apart

Tokens that fit nowhere are skipped as far as the surrounding list cannot go on, so behind a
stray the list goes on with something else or ends.  The analysis of a grammar follows what the
current token may be behind a stray and what it may be elsewhere; a grammar that passes never
makes two strays side by side.
-/

namespace TdSyntax

namespace Recovery

def stops : Recovery → Kind.Set
  | .upTo kinds => kinds.union (.singleton .eof)
  | .toStatement inBlock =>
      Grammar.statementFirst.union (.ofList (.eof :: if inBlock then [.rightBrace] else []))
  | .toBodyItem => .full

variable {eof : Token}

theorem upTo_stops (heof : eof.kind = .eof) (kinds : Kind.Set) (tokens : List Token) :
    (stops (.upTo kinds)).contains
      ((tokens.drop (length (.upTo kinds) (tokens.map Token.kind))).headD eof).kind = true := by
  induction tokens with
  | nil => simp [stops, heof]
  | cons token rest ih =>
      cases hkind : kinds.contains token.kind with
      | true => simp [length, stops, hkind]
      | false => simpa [length, hkind] using ih

theorem toStatement_stops (heof : eof.kind = .eof) (inBlock : Bool) (depth : Nat)
    (tokens : List Token) :
    (stops (.toStatement inBlock)).contains
      ((tokens.drop (lengthToStatement inBlock depth (tokens.map Token.kind))).headD eof).kind =
        true := by
  induction tokens generalizing depth with
  | nil => simp [stops, heof]
  | cons token rest ih =>
      simp only [List.map_cons, lengthToStatement]
      split
      case isTrue hclose =>
        split
        case isTrue hstop =>
          simp only [Bool.and_eq_true] at hstop
          simp [stops, hclose, hstop.2]
        case isFalse => exact ih (depth - 1)
      case isFalse =>
        split
        case isTrue => exact ih (depth + 1)
        case isFalse =>
          split
          case isTrue hfirst =>
            simp only [Bool.and_eq_true] at hfirst
            simp [stops, hfirst.2]
          case isFalse => exact ih depth

theorem length_stops (recovery : Recovery) (heof : eof.kind = .eof) (tokens : List Token) :
    recovery.stops.contains
      ((tokens.drop (recovery.length (tokens.map Token.kind))).headD eof).kind = true := by
  cases recovery with
  | upTo kinds => exact upTo_stops heof kinds tokens
  | toStatement inBlock => exact toStatement_stops heof inBlock 0 tokens
  | toBodyItem => exact Kind.Set.contains_full _

end Recovery

namespace Grammar

variable {call : Rule → Reader} {mark : Token} {cursor : Cursor} {reading : Reading}

def landing : Grammar → Kind.Set
  | .skip recovery => recovery.stops
  | .seq _ second => landing second
  | _ => .full

theorem read_landing (hkeeps : ∀ rule, (call rule).Reports Cursor.Keeps) {grammar : Grammar}
    (heof : cursor.eof.kind = .eof) (hread : grammar.read call mark cursor = some reading) :
    grammar.landing.contains reading.cursor.kind = true := by
  induction grammar generalizing cursor reading with
  | skip recovery =>
      cases hread
      exact recovery.length_stops heof cursor.tokens
  | seq first second _ ihSecond =>
      obtain ⟨one, hone, two, htwo, rfl⟩ := read_seq_eq_some_iff.1 hread
      have hlast := ihSecond ((read_keeps hkeeps first mark _ _ hone).eof ▸ heof) htwo
      exact hlast
  | _ => exact Kind.Set.contains_full _

/-! ## Single nodes -/

def isNote : Grammar → Bool
  | .complain _ | .note _ _ => true
  | _ => false

def isSolid : Grammar → Bool
  | .unreachable => true
  | .group body accepted rejected => (accepted != .error && rejected != .error) || isSolid body
  | .seq first second => isSolid first && second.isNote
  | .ifAt _ yes no | .ifText _ yes no => isSolid yes && isSolid no
  | .marked body => isSolid body
  | _ => false

def isRefusal : Grammar → Bool
  | .reject => true
  | .seq first second => first.isNote && isRefusal second
  | _ => false

def isLone : Grammar → Bool
  | .ifAt _ yes no => isLone yes && isLone no
  | grammar => grammar.isSolid || grammar.isRefusal

theorem read_isNote {grammar : Grammar} (h : grammar.isNote = true)
    (hread : grammar.read call mark cursor = some reading) :
    reading.accepted = true ∧ reading.drafts = [] := by
  cases grammar with
  | complain problem =>
      simp only [read] at hread
      split at hread <;> cases hread <;> exact ⟨rfl, rfl⟩
  | note place problem =>
      cases hread
      exact ⟨rfl, rfl⟩
  | _ => cases h

theorem read_isSolid {grammar : Grammar} (h : grammar.isSolid = true)
    (hread : grammar.read call mark cursor = some reading) :
    reading.accepted = true ∧ ∃ draft, reading.drafts = [draft] ∧ draft.shape?.isSome = true ∧
      draft.isStray = false := by
  induction grammar generalizing mark cursor reading with
  | unreachable => cases hread
  | group body accepted rejected ih =>
      obtain ⟨inner, hinner, rfl⟩ := read_group_eq_some_iff.1 hread
      refine ⟨rfl, _, rfl, rfl, ?_⟩
      simp only [isSolid, Bool.or_eq_true, Bool.and_eq_true, bne_iff_ne] at h
      rcases h with ⟨haccepted, hrejected⟩ | hbody
      · refine Draft.isStray_of_shape rfl ?_
        split <;> assumption
      · obtain ⟨-, draft, hdrafts, hnode, -⟩ := ih hbody hinner
        exact Draft.isStray_of_mem rfl (hdrafts ▸ List.mem_singleton_self draft) hnode
  | seq first second ihFirst =>
      simp only [isSolid, Bool.and_eq_true] at h
      obtain ⟨one, hone, two, htwo, rfl⟩ := read_seq_eq_some_iff.1 hread
      obtain ⟨-, draft, hdrafts, hnode⟩ := ihFirst h.1 hone
      obtain ⟨haccepted, hnil⟩ := read_isNote h.2 htwo
      exact ⟨haccepted, draft, by simp [Reading.followedBy, hdrafts, hnil], hnode⟩
  | ifAt among yes no ihYes ihNo =>
      simp only [isSolid, Bool.and_eq_true] at h
      rw [read_ifAt] at hread
      split at hread
      · exact ihYes h.1 hread
      · exact ihNo h.2 hread
  | ifText test yes no ihYes ihNo =>
      simp only [isSolid, Bool.and_eq_true] at h
      rw [read_ifText] at hread
      split at hread
      · exact ihYes h.1 hread
      · exact ihNo h.2 hread
  | marked body ih =>
      have hbody : body.read call cursor.current cursor = some reading := hread
      exact ih h hbody
  | _ => cases h

theorem read_isRefusal {grammar : Grammar} (h : grammar.isRefusal = true)
    (hread : grammar.read call mark cursor = some reading) :
    reading.accepted = false ∧ reading.drafts = [] := by
  induction grammar generalizing cursor reading with
  | reject =>
      cases hread
      exact ⟨rfl, rfl⟩
  | seq first second _ ihSecond =>
      simp only [isRefusal, Bool.and_eq_true] at h
      obtain ⟨one, hone, two, htwo, rfl⟩ := read_seq_eq_some_iff.1 hread
      obtain ⟨hrejected, hnil⟩ := ihSecond h.2 htwo
      exact ⟨hrejected, by simp [Reading.followedBy, (read_isNote h.1 hone).2, hnil]⟩
  | _ => cases h

end Grammar

structure Reading.Lone (reading : Reading) : Prop where
  accepted : reading.accepted = true → ∃ draft, reading.drafts = [draft] ∧ draft.isStray = false
  rejected : reading.accepted = false → reading.drafts = []

theorem Grammar.read_isLone {call : Rule → Reader} {mark : Token} {cursor : Cursor}
    {reading : Reading} {grammar : Grammar} (h : grammar.isLone = true)
    (hread : grammar.read call mark cursor = some reading) : reading.Lone := by
  have hleaf {grammar : Grammar} (h : (grammar.isSolid || grammar.isRefusal) = true)
      (hread : grammar.read call mark cursor = some reading) : reading.Lone := by
    rcases Bool.or_eq_true_iff.1 h with hsolid | hrefusal
    · obtain ⟨haccepted, draft, hdrafts, -, hstray⟩ := read_isSolid hsolid hread
      exact ⟨fun _ => ⟨draft, hdrafts, hstray⟩, fun hrejected => by
        cases haccepted.symm.trans hrejected⟩
    · obtain ⟨hrejected, hnil⟩ := read_isRefusal hrefusal hread
      exact ⟨fun haccepted => (by cases haccepted.symm.trans hrejected), fun _ => hnil⟩
  induction grammar with
  | ifAt among yes no ihYes ihNo =>
      simp only [isLone, Bool.and_eq_true] at h
      rw [read_ifAt] at hread
      split at hread
      · exact ihYes h.1 hread
      · exact ihNo h.2 hread
  | _ => exact hleaf h hread

def Rule.isLone : Rule → Bool
  | .type | .statement _ => true
  | .value _ => false

theorem Rule.isLone_grammar {rule : Rule} (h : rule.isLone = true) :
    rule.grammar.isLone = true := by
  rcases rule with _ | place | place
  · rfl
  · cases h
  · cases place <;> rfl

/-- What is known of the rules before they are analysed: how the cursor moves, where they
reject, and which of them make single nodes. -/
structure Grammar.Known (call : Rule → Reader) : Prop where
  keeps : ∀ rule, (call rule).Reports Cursor.Keeps
  refuses : Refuses call
  lone : ∀ rule, rule.isLone = true → ∀ cursor reading, call rule cursor = some reading →
    reading.Lone

theorem Rule.read_known (depth : Nat) : Grammar.Known (Rule.read depth) where
  keeps := read_keeps depth
  refuses := read_refuses depth
  lone := by
    intro rule hrule cursor reading hread
    cases depth with
    | zero => cases hread
    | succ depth => exact Grammar.read_isLone (isLone_grammar hrule) hread

/-- What the current token may be behind drafts whose last one is a stray, and behind others. -/
structure Trail where
  plain : Kind.Set
  stray : Kind.Set
  deriving DecidableEq, Repr

namespace Trail

def clear : Trail := ⟨.full, .empty⟩

def void : Trail := ⟨.empty, .empty⟩

def kinds (trail : Trail) (stray : Bool) : Kind.Set := if stray then trail.stray else trail.plain

def join (first second : Trail) : Trail :=
  ⟨first.plain.union second.plain, first.stray.union second.stray⟩

def within (trail : Trail) (among : Kind.Set) : Trail :=
  ⟨trail.plain.inter among, trail.stray.inter among⟩

def without (trail : Trail) (among : Kind.Set) : Trail :=
  ⟨trail.plain.diff among, trail.stray.diff among⟩

def bumped (trail : Trail) : Trail := ⟨.full, trail.stray.inter (.singleton .eof)⟩

def isWithin (trail outer : Trail) : Bool :=
  (trail.plain.diff outer.plain).isEmpty && (trail.stray.diff outer.stray).isEmpty

/-- Drafts of which no two strays are side by side, and a cursor that may stand behind them. -/
structure Admits (trail : Trail) (drafts : List Draft) (cursor : Cursor) : Prop where
  apart : Draft.Apart drafts
  eof : cursor.eof.kind = .eof
  kind : (trail.kinds (Draft.endsStray drafts)).contains cursor.kind = true

variable {trail first second : Trail} {drafts : List Draft} {cursor : Cursor}

@[simp] theorem contains_kinds_join (stray : Bool) (kind : Kind) :
    ((first.join second).kinds stray).contains kind =
      ((first.kinds stray).contains kind || (second.kinds stray).contains kind) := by
  cases stray <;> simp [kinds, join]

theorem Admits.join_left (h : first.Admits drafts cursor) (second : Trail) :
    (first.join second).Admits drafts cursor :=
  ⟨h.apart, h.eof, by simp [h.kind]⟩

theorem Admits.join_right (h : second.Admits drafts cursor) (first : Trail) :
    (first.join second).Admits drafts cursor :=
  ⟨h.apart, h.eof, by simp [h.kind]⟩

theorem Admits.within (h : trail.Admits drafts cursor) {among : Kind.Set}
    (hkind : among.contains cursor.kind = true) : (trail.within among).Admits drafts cursor := by
  refine ⟨h.apart, h.eof, ?_⟩
  have hbefore := h.kind
  cases hends : Draft.endsStray drafts <;>
    simp_all [kinds, Trail.within]

theorem Admits.without (h : trail.Admits drafts cursor) {among : Kind.Set}
    (hkind : among.contains cursor.kind = false) : (trail.without among).Admits drafts cursor := by
  refine ⟨h.apart, h.eof, ?_⟩
  have hbefore := h.kind
  cases hends : Draft.endsStray drafts <;>
    simp_all [kinds, Trail.without]

theorem Admits.of_isWithin (h : first.Admits drafts cursor)
    (hwithin : first.isWithin second = true) : second.Admits drafts cursor := by
  simp only [isWithin, Bool.and_eq_true] at hwithin
  refine ⟨h.apart, h.eof, ?_⟩
  have hbefore := h.kind
  have hplain := Kind.Set.contains_of_isEmpty hwithin.1 cursor.kind
  have hstray := Kind.Set.contains_of_isEmpty hwithin.2 cursor.kind
  cases hends : Draft.endsStray drafts <;>
    simp_all [kinds]

theorem Admits.followed (h : trail.Admits drafts cursor) {draft : Draft}
    (hstray : draft.isStray = false) {later : Cursor} (heof : later.eof = cursor.eof) :
    clear.Admits (drafts ++ [draft]) later :=
  ⟨h.apart.snoc (by simp [hstray]), heof ▸ h.eof, by simp [hstray, kinds, clear]⟩

theorem Admits.strayed (h : trail.Admits drafts cursor) (hnone : trail.stray.isEmpty = true)
    {draft : Draft} (hstray : draft.isStray = true) {later : Cursor} (heof : later.eof = cursor.eof)
    {kinds : Kind.Set} (hkind : kinds.contains later.kind = true) :
    Admits ⟨.empty, kinds⟩ (drafts ++ [draft]) later := by
  have hends : Draft.endsStray drafts = false := by
    rw [← Bool.not_eq_true]
    intro hends
    have hbefore := h.kind
    rw [hends, Trail.kinds, if_pos rfl, Kind.Set.contains_of_isEmpty hnone] at hbefore
    cases hbefore
  exact ⟨h.apart.snoc (by simp [hends]), heof ▸ h.eof, by simpa [hstray, Trail.kinds] using hkind⟩

end Trail

structure TrailEnds where
  accepted : Trail
  rejected : Trail
  deriving DecidableEq, Repr

namespace TrailEnds

def of (ends : TrailEnds) (accepted : Bool) : Trail :=
  if accepted then ends.accepted else ends.rejected

def either (ends : TrailEnds) : Trail := ends.accepted.join ends.rejected

def accepting (trail : Trail) : TrailEnds := ⟨trail, .void⟩

def rejecting (trail : Trail) : TrailEnds := ⟨.void, trail⟩

def join (first second : TrailEnds) : TrailEnds :=
  ⟨first.accepted.join second.accepted, first.rejected.join second.rejected⟩

variable {ends first second : TrailEnds} {accepted : Bool} {drafts : List Draft} {cursor : Cursor}

theorem either_admits (h : (ends.of accepted).Admits drafts cursor) :
    ends.either.Admits drafts cursor := by
  cases accepted with
  | true => exact h.join_left ends.rejected
  | false => exact h.join_right ends.accepted

theorem join_admits_left (h : (first.of accepted).Admits drafts cursor) (second : TrailEnds) :
    ((first.join second).of accepted).Admits drafts cursor := by
  cases accepted with
  | true => exact h.join_left second.accepted
  | false => exact h.join_left second.rejected

theorem join_admits_right (h : (second.of accepted).Admits drafts cursor) (first : TrailEnds) :
    ((first.join second).of accepted).Admits drafts cursor := by
  cases accepted with
  | true => exact h.join_right first.accepted
  | false => exact h.join_right first.rejected

end TrailEnds

/-- Where a loop is left.  What holds before the rounds is the start joined with the end of the
first round, and another round must not add to it. -/
def Trail.loopEnd (body : Trail → Option TrailEnds) (trail : Trail) : Option Trail := do
  let first ← body trail
  let before := trail.join first.accepted
  let later ← body before
  if later.accepted.isWithin before then pure later.rejected else none

/-- Where a grammar is left that is entered behind some drafts; nothing if it may make two
strays side by side. -/
def Grammar.trail : Grammar → Trail → Option TrailEnds
  | .accept, before | .complain _, before | .note _ _, before => some (.accepting before)
  | .reject, before => some (.rejecting before)
  | .unreachable, _ => some ⟨.void, .void⟩
  | .bump, before => some (.accepting before.bumped)
  | .skip _, _ => none
  | .seq first second, before => do
      let one ← trail first before
      trail second one.either
  | .ifOk test yes no, before => do
      let one ← trail test before
      let accepted ← trail yes one.accepted
      let rejected ← trail no one.rejected
      pure (accepted.join rejected)
  | .ifAt kinds yes no, before => do
      let inside ← trail yes (before.within kinds)
      let outside ← trail no (before.without kinds)
      pure (inside.join outside)
  | .ifText _ yes no, before => do
      let inside ← trail yes before
      let outside ← trail no before
      pure (inside.join outside)
  | .marked body, before => trail body before
  | .group body accepted rejected, before =>
      if (Grammar.group body accepted rejected).isSolid then some (.accepting .clear)
      else if accepted = .error ∧ rejected = .error ∧ body.isFlat ∧ before.stray.isEmpty then
        some (.accepting ⟨.empty, body.landing⟩)
      else none
  | .grow _ _ _, _ | .growAll _ _ _, _ => none
  | .loop body, before => do
      let last ← before.loopEnd (trail body)
      pure (.accepting last)
  | .call rule, before =>
      if rule.isLone then some ⟨.clear, before.without rule.first⟩ else none

/-- Behind drafts that are admitted, what the reader makes is admitted where it ends. -/
def Trail.Leads (trail : Trail) (reader : Reader) (ends : TrailEnds) : Prop :=
  ∀ drafts cursor reading, trail.Admits drafts cursor → reader cursor = some reading →
    (ends.of reading.accepted).Admits (drafts ++ reading.drafts) reading.cursor

namespace Trail

theorem loop_leads {body : Reader} {before : Trail} {later : TrailEnds}
    (hbody : before.Leads body later) (hwithin : later.accepted.isWithin before = true)
    (rounds : Nat) : before.Leads (Reader.loop body rounds) (.accepting later.rejected) := by
  induction rounds with
  | zero =>
      intro drafts cursor reading _ hread
      cases hread
  | succ rounds ih =>
      intro drafts cursor reading hcursor hread
      obtain ⟨first, hfirst, hread⟩ := Reader.loop_succ_eq_some_iff.1 hread
      have hround := hbody drafts cursor first hcursor hfirst
      cases haccepted : first.accepted with
      | true =>
          simp only [haccepted, if_true] at hread
          obtain ⟨rest, hrest, rfl⟩ := hread
          rw [haccepted] at hround
          have hagain := hround.of_isWithin hwithin
          simpa [Reading.followedBy] using ih _ _ rest hagain hrest
      | false =>
          simp only [haccepted, Bool.false_eq_true, if_false] at hread
          subst hread
          rw [haccepted] at hround
          exact hround

theorem loopEnd_leads {body : Reader} {analysis : Trail → Option TrailEnds}
    (hbody : ∀ trail ends, analysis trail = some ends → trail.Leads body ends) {trail last : Trail}
    (h : trail.loopEnd analysis = some last) (rounds : Nat) :
    trail.Leads (Reader.loop body rounds) (.accepting last) := by
  simp only [loopEnd, Option.bind_eq_bind, Option.bind_eq_some_iff] at h
  obtain ⟨first, -, later, hlater, h⟩ := h
  split at h
  case isFalse => cases h
  case isTrue hwithin =>
    cases h
    intro drafts cursor reading hcursor hread
    exact loop_leads (hbody _ _ hlater) hwithin rounds drafts cursor reading
      (hcursor.join_left first.accepted) hread

end Trail

namespace Grammar

variable {call : Rule → Reader}

theorem idle_leads {before : Trail} {ends : TrailEnds} {drafts : List Draft} {cursor : Cursor}
    {reading : Reading} (hcursor : before.Admits drafts cursor) (hdrafts : reading.drafts = [])
    (htokens : reading.cursor.tokens = cursor.tokens) (heof : reading.cursor.eof = cursor.eof)
    (hends : ends.of reading.accepted = before) :
    (ends.of reading.accepted).Admits (drafts ++ reading.drafts) reading.cursor := by
  have hkind : reading.cursor.kind = cursor.kind := by
    simp [Cursor.kind, Cursor.current, htokens, heof]
  rw [hends, hdrafts, List.append_nil]
  exact ⟨hcursor.apart, heof ▸ hcursor.eof, hkind ▸ hcursor.kind⟩

theorem bump_leads_trail (before : Trail) (mark : Token) :
    before.Leads (Grammar.bump.read call mark) (.accepting before.bumped) := by
  intro drafts cursor reading hcursor hread
  cases hread
  cases htokens : cursor.tokens with
  | nil =>
      have hkind : cursor.kind = .eof := by
        simpa [Cursor.kind, Cursor.current, htokens] using hcursor.eof
      have hbumped : before.bumped.Admits drafts cursor := by
        refine ⟨hcursor.apart, hcursor.eof, ?_⟩
        have hbefore := hcursor.kind
        cases hends : Draft.endsStray drafts <;>
          simp_all [Trail.kinds, Trail.bumped]
      exact idle_leads hbumped (by simp [Reading.taking, htokens])
        (by simp [Reading.taking, htokens]) rfl rfl
  | cons token rest =>
      have hone : (Reading.taking 1 cursor).drafts = [.token token] := by
        simp [Reading.taking, htokens]
      have htoken : (Draft.token token).isStray = false := rfl
      rw [hone]
      exact ⟨hcursor.apart.snoc (by simp [htoken]), hcursor.eof, by
        simp [htoken, Trail.kinds, Trail.bumped, TrailEnds.of, TrailEnds.accepting, Reading.taking]⟩

section Trail

variable (hcall : Known call)
include hcall

theorem group_leads_trail {body : Grammar} {accepted rejected : Kind} {before : Trail}
    {ends : TrailEnds} (h : (Grammar.group body accepted rejected).trail before = some ends)
    (mark : Token) :
    before.Leads ((Grammar.group body accepted rejected).read call mark) ends := by
  intro drafts cursor reading hcursor hread
  have hend := (read_keeps hcall.keeps (.group body accepted rejected) mark _ _ hread).eof
  simp only [trail] at h
  split at h
  case isTrue hsolid =>
    cases h
    obtain ⟨haccepted, draft, hdrafts, -, hstray⟩ := read_isSolid hsolid hread
    rw [haccepted, hdrafts]
    exact hcursor.followed hstray hend
  case isFalse =>
    split at h
    case isFalse => cases h
    case isTrue herror =>
      obtain ⟨rfl, rfl, hflat, hnone⟩ := herror
      cases h
      obtain ⟨inner, hinner, rfl⟩ := read_group_eq_some_iff.1 hread
      have hstray := Draft.isStray_of_tokens (read_flat hflat mark _ _ hinner)
      have hland := read_landing hcall.keeps hcursor.eof hinner
      have hstrayed := hcursor.strayed hnone hstray hend hland
      simpa [Reading.grouped, TrailEnds.of, TrailEnds.accepting] using hstrayed

theorem call_leads_trail {rule : Rule} {before : Trail} {ends : TrailEnds}
    (h : (Grammar.call rule).trail before = some ends) (mark : Token) :
    before.Leads ((Grammar.call rule).read call mark) ends := by
  intro drafts cursor reading hcursor hread
  have hend := (hcall.keeps rule _ _ hread).eof
  simp only [trail] at h
  split at h
  case isFalse => cases h
  case isTrue hrule =>
    cases h
    have hmade := hcall.lone rule hrule cursor reading hread
    cases haccepted : reading.accepted with
    | true =>
        obtain ⟨draft, hdrafts, hstray⟩ := hmade.accepted haccepted
        rw [hdrafts]
        exact hcursor.followed hstray hend
    | false =>
        obtain ⟨hfirst, hsame⟩ := hcall.refuses rule cursor reading hread haccepted
        have hwithout := hcursor.without hfirst
        rw [hmade.rejected haccepted, List.append_nil]
        exact ⟨hwithout.apart, hend ▸ hwithout.eof, hsame ▸ hwithout.kind⟩

theorem read_trail (grammar : Grammar) {before : Trail} {ends : TrailEnds}
    (h : grammar.trail before = some ends) (mark : Token) :
    before.Leads (grammar.read call mark) ends := by
  induction grammar generalizing before ends mark with
  | accept | reject | note =>
      intro drafts cursor reading hcursor hread
      cases h
      cases hread
      exact idle_leads hcursor rfl rfl rfl rfl
  | unreachable =>
      intro drafts cursor reading _ hread
      cases hread
  | complain problem =>
      intro drafts cursor reading hcursor hread
      cases h
      obtain ⟨hdrafts, htokens, heof, -⟩ := read_complain hread
      have haccepted : reading.accepted = true := (read_isNote rfl hread).1
      exact idle_leads hcursor hdrafts htokens heof (by rw [haccepted]; rfl)
  | bump =>
      cases h
      exact bump_leads_trail before mark
  | skip | grow | growAll => cases h
  | seq first second ihFirst ihSecond =>
      intro drafts cursor reading hcursor hread
      obtain ⟨middle, hmiddle, h⟩ := Option.bind_eq_some_iff.1 h
      obtain ⟨one, hone, two, htwo, rfl⟩ := read_seq_eq_some_iff.1 hread
      have hfirst := ihFirst hmiddle mark drafts cursor one hcursor hone
      simpa [Reading.followedBy] using
        ihSecond h mark _ _ two (TrailEnds.either_admits hfirst) htwo
  | ifOk test yes no ihTest ihYes ihNo =>
      intro drafts cursor reading hcursor hread
      obtain ⟨middle, hmiddle, h⟩ := Option.bind_eq_some_iff.1 h
      obtain ⟨accepted, haccepted, h⟩ := Option.bind_eq_some_iff.1 h
      obtain ⟨rejected, hrejected, h⟩ := Option.bind_eq_some_iff.1 h
      cases h
      obtain ⟨one, hone, two, htwo, rfl⟩ := read_ifOk_eq_some_iff.1 hread
      have htest := ihTest hmiddle mark drafts cursor one hcursor hone
      cases hasked : one.accepted with
      | true =>
          rw [hasked] at htest htwo
          have hlast := ihYes haccepted mark _ _ two htest htwo
          simpa [Reading.followedBy] using TrailEnds.join_admits_left hlast rejected
      | false =>
          rw [hasked] at htest htwo
          have hlast := ihNo hrejected mark _ _ two htest htwo
          simpa [Reading.followedBy] using TrailEnds.join_admits_right hlast accepted
  | ifAt among yes no ihYes ihNo =>
      intro drafts cursor reading hcursor hread
      obtain ⟨inside, hinside, h⟩ := Option.bind_eq_some_iff.1 h
      obtain ⟨outside, houtside, h⟩ := Option.bind_eq_some_iff.1 h
      cases h
      rw [read_ifAt] at hread
      cases hkind : among.contains cursor.kind with
      | true =>
          rw [hkind] at hread
          exact TrailEnds.join_admits_left
            (ihYes hinside mark drafts cursor reading (hcursor.within hkind) hread) outside
      | false =>
          rw [hkind] at hread
          exact TrailEnds.join_admits_right
            (ihNo houtside mark drafts cursor reading (hcursor.without hkind) hread) inside
  | ifText test yes no ihYes ihNo =>
      intro drafts cursor reading hcursor hread
      obtain ⟨inside, hinside, h⟩ := Option.bind_eq_some_iff.1 h
      obtain ⟨outside, houtside, h⟩ := Option.bind_eq_some_iff.1 h
      cases h
      rw [read_ifText] at hread
      split at hread
      · exact TrailEnds.join_admits_left
          (ihYes hinside mark drafts cursor reading hcursor hread) outside
      · exact TrailEnds.join_admits_right
          (ihNo houtside mark drafts cursor reading hcursor hread) inside
  | marked body ih =>
      intro drafts cursor reading hcursor hread
      exact ih h cursor.current drafts cursor reading hcursor hread
  | group body accepted rejected => exact group_leads_trail hcall h mark
  | loop body ih =>
      intro drafts cursor reading hcursor hread
      obtain ⟨last, hlast, h⟩ := Option.bind_eq_some_iff.1 h
      cases h
      exact Trail.loopEnd_leads (fun _ _ hbody => ih hbody mark) hlast _ drafts cursor reading
        hcursor hread
  | call rule => exact call_leads_trail hcall h mark

theorem read_apart {grammar : Grammar} (h : (grammar.trail .clear).isSome = true) {mark : Token}
    {cursor : Cursor} {reading : Reading} (heof : cursor.eof.kind = .eof)
    (hread : grammar.read call mark cursor = some reading) : Draft.Apart reading.drafts := by
  obtain ⟨ends, hends⟩ := Option.isSome_iff_exists.1 h
  have hlast := read_trail hcall grammar hends mark [] cursor reading
    ⟨Draft.apart_nil, heof, by simp [Trail.kinds, Trail.clear]⟩ hread
  simpa using hlast.apart

end Trail

end Grammar

end TdSyntax
