import Mathlib.Data.List.Pairwise
import TdSyntax.Proofs.Token.Tiling
import TdSyntax.Proofs.Tree.Bare

/-!
# Readings of matching tokens

Two lists of tokens match if they agree token by token in kind and text; the places
and the trivia may differ.  A grammar makes the same of both.  The places enter a
reading only where a report is suppressed because the last one was at the same place,
and there the comparison has the same outcome, since tokens that are in the same
order start at the same place only if they are the same one.
-/

namespace TdSyntax

def Token.BothPrecede (pair other : Token × Token) : Prop :=
  pair.1.Precedes other.1 ∧ pair.2.Precedes other.2

/-- The tokens of two texts side by side. -/
structure Token.Matching (pairs : List (Token × Token)) : Prop where
  word : ∀ pair ∈ pairs, pair.1.word = pair.2.word
  ordered : pairs.Pairwise BothPrecede

namespace Token

theorem matching_zip {first second : List Token}
    (h : first.map Token.word = second.map Token.word) (hfirst : first.Pairwise Precedes)
    (hsecond : second.Pairwise Precedes) : Matching (first.zip second) := by
  have hlength : first.length = second.length := by
    simpa using congrArg List.length h
  have hone : (first.zip second).map Prod.fst = first :=
    List.map_fst_zip (Nat.le_of_eq hlength)
  have htwo : (first.zip second).map Prod.snd = second :=
    List.map_snd_zip (Nat.le_of_eq hlength.symm)
  constructor
  · have hfst : (first.zip second).map (word ∘ Prod.fst) = first.map word := by
      rw [← List.map_map, hone]
    have hsnd : (first.zip second).map (word ∘ Prod.snd) = second.map word := by
      rw [← List.map_map, htwo]
    exact List.map_inj_left.1 (hfst.trans (h.trans hsnd.symm))
  · rw [← hone] at hfirst
    rw [← htwo] at hsecond
    exact (List.pairwise_map.1 hfirst).and (List.pairwise_map.1 hsecond)

namespace Matching

variable {pairs : List (Token × Token)} {pair other : Token × Token}

theorem trichotomy (h : Matching pairs) (hpair : pair ∈ pairs) (hother : other ∈ pairs) :
    pair = other ∨ BothPrecede pair other ∨ BothPrecede other pair := by
  have hsymm : Std.Symm fun pair other =>
      pair = other ∨ BothPrecede pair other ∨ BothPrecede other pair := by
    refine ⟨fun pair other hor => ?_⟩
    rcases hor with heq | hbefore | hbehind
    · exact .inl heq.symm
    · exact .inr (.inr hbefore)
    · exact .inr (.inl hbehind)
  have hpairs : pairs.Pairwise fun pair other =>
      pair = other ∨ BothPrecede pair other ∨ BothPrecede other pair :=
    h.ordered.imp fun hbefore => .inr (.inl hbefore)
  exact hpairs.forall_of_forall (fun pair _ => .inl rfl) hpair hother

theorem start_le_iff (h : Matching pairs) (hpair : pair ∈ pairs) (hother : other ∈ pairs) :
    pair.1.start ≤ other.1.start ↔ pair.2.start ≤ other.2.start := by
  rcases h.trichotomy hpair hother with rfl | hbefore | hbehind
  · simp
  · have := hbefore.1.start_lt_stop
    have := hbefore.1.stop_le_start
    have := hbefore.2.start_lt_stop
    have := hbefore.2.stop_le_start
    omega
  · have := hbehind.1.start_lt_stop
    have := hbehind.1.stop_le_start
    have := hbehind.2.start_lt_stop
    have := hbehind.2.stop_le_start
    omega

theorem start_eq_iff (h : Matching pairs) (hpair : pair ∈ pairs) (hother : other ∈ pairs) :
    pair.1.start = other.1.start ↔ pair.2.start = other.2.start := by
  have hle := h.start_le_iff hpair hother
  have hge := h.start_le_iff hother hpair
  omega

end Matching

theorem start_le_stop (token : Token) : token.start ≤ token.stop := Nat.le_add_right _ _

theorem Precedes.cover {first second : Token} (h : first.Precedes second) :
    first.span.cover second.span = ⟨first.start, second.stop⟩ ∧
      second.span.cover first.span = ⟨first.start, second.stop⟩ := by
  have hlt := h.start_lt_stop
  have hle := h.stop_le_start
  have hstop := second.start_le_stop
  simp only [Span.cover, span, Span.mk.injEq]
  omega

theorem cover_self (token : Token) :
    token.span.cover token.span = ⟨token.start, token.stop⟩ := by
  simp [Span.cover, span]

end Token

/-- Two diagnostics report the same problem, and from the same first to the same last
token. -/
structure Diagnostic.Corresponds (pairs : List (Token × Token)) (one two : Diagnostic) :
    Prop where
  problem : one.problem = two.problem
  span : ∃ first ∈ pairs, ∃ last ∈ pairs, first.1.start ≤ last.1.start ∧
    one.span = ⟨first.1.start, last.1.stop⟩ ∧ two.span = ⟨first.2.start, last.2.stop⟩

namespace Diagnostic.Corresponds

variable {pairs : List (Token × Token)} {one two : Diagnostic} {problem : Problem}
  {mark here : Token × Token}

theorem of_span (hhere : here ∈ pairs) :
    Corresponds pairs ⟨problem, here.1.span⟩ ⟨problem, here.2.span⟩ :=
  ⟨rfl, here, hhere, here, hhere, Nat.le_refl _, rfl, rfl⟩

theorem of_cover (hpairs : Token.Matching pairs) (hmark : mark ∈ pairs) (hhere : here ∈ pairs) :
    Corresponds pairs ⟨problem, mark.1.span.cover here.1.span⟩
      ⟨problem, mark.2.span.cover here.2.span⟩ := by
  rcases hpairs.trichotomy hmark hhere with rfl | hbefore | hbehind
  · exact ⟨rfl, mark, hmark, mark, hmark, Nat.le_refl _, mark.1.cover_self, mark.2.cover_self⟩
  · have hlt := hbefore.1.start_lt_stop
    have hle := hbefore.1.stop_le_start
    exact ⟨rfl, mark, hmark, here, hhere, by omega, hbefore.1.cover.1, hbefore.2.cover.1⟩
  · have hlt := hbehind.1.start_lt_stop
    have hle := hbehind.1.stop_le_start
    exact ⟨rfl, here, hhere, mark, hmark, by omega, hbehind.1.cover.2, hbehind.2.cover.2⟩

theorem start_le_iff (hpairs : Token.Matching pairs) {one' two' : Diagnostic}
    (h : Corresponds pairs one two) (h' : Corresponds pairs one' two') :
    one.span.start ≤ one'.span.start ↔ two.span.start ≤ two'.span.start := by
  obtain ⟨first, hfirst, last, -, -, hone, htwo⟩ := h.span
  obtain ⟨first', hfirst', last', -, -, hone', htwo'⟩ := h'.span
  rw [hone, htwo, hone', htwo']
  exact hpairs.start_le_iff hfirst hfirst'

end Diagnostic.Corresponds

/-- Two cursors stand before the same token, and the last report, if it counts, was at
the same token or at none of those that are paired. -/
structure Cursor.Matches (pairs : List (Token × Token)) (one two : Cursor) : Prop where
  rest : ∃ rest, rest ⊆ pairs ∧ one.tokens = rest.map Prod.fst ∧ two.tokens = rest.map Prod.snd
  eof : (one.eof, two.eof) ∈ pairs
  reported : (∀ pair ∈ pairs, one.reported ≠ some pair.1.start ∧
      two.reported ≠ some pair.2.start) ∨
    ∃ pair ∈ pairs, one.reported = some pair.1.start ∧ two.reported = some pair.2.start

namespace Cursor.Matches

variable {pairs : List (Token × Token)} {one two : Cursor}

theorem current (h : one.Matches pairs two) : (one.current, two.current) ∈ pairs := by
  obtain ⟨rest, hsub, hone, htwo⟩ := h.rest
  rw [Cursor.current, Cursor.current, hone, htwo]
  cases rest with
  | nil => exact h.eof
  | cons pair rest => exact hsub (List.mem_cons_self)

theorem length (h : one.Matches pairs two) : one.tokens.length = two.tokens.length := by
  obtain ⟨rest, -, hone, htwo⟩ := h.rest
  rw [hone, htwo, List.length_map, List.length_map]

theorem words (hpairs : Token.Matching pairs) (h : one.Matches pairs two) :
    one.tokens.map Token.word = two.tokens.map Token.word := by
  obtain ⟨rest, hsub, hone, htwo⟩ := h.rest
  rw [hone, htwo, List.map_map, List.map_map]
  exact List.map_inj_left.2 fun pair hmem => hpairs.word pair (hsub hmem)

theorem kinds (hpairs : Token.Matching pairs) (h : one.Matches pairs two) :
    one.tokens.map Token.kind = two.tokens.map Token.kind := by
  have hkinds := congrArg (List.map Word.kind) (words hpairs h)
  rwa [List.map_map, List.map_map] at hkinds

theorem currentWord (hpairs : Token.Matching pairs) (h : one.Matches pairs two) :
    one.current.word = two.current.word := hpairs.word _ h.current

theorem kind (hpairs : Token.Matching pairs) (h : one.Matches pairs two) :
    one.kind = two.kind := congrArg Word.kind (currentWord hpairs h)

theorem text (hpairs : Token.Matching pairs) (h : one.Matches pairs two) :
    one.current.text = two.current.text := congrArg Word.text (currentWord hpairs h)

theorem reported_iff (hpairs : Token.Matching pairs) (h : one.Matches pairs two) :
    one.reported = some one.current.start ↔ two.reported = some two.current.start := by
  rcases h.reported with hnone | ⟨pair, hpair, hone, htwo⟩
  · obtain ⟨hone, htwo⟩ := hnone _ h.current
    exact ⟨fun heq => absurd heq hone, fun heq => absurd heq htwo⟩
  · rw [hone, htwo, Option.some.injEq, Option.some.injEq]
    exact hpairs.start_eq_iff hpair h.current

theorem drop (h : one.Matches pairs two) (count : Nat) :
    Matches pairs { one with tokens := one.tokens.drop count }
      { two with tokens := two.tokens.drop count } := by
  obtain ⟨rest, hsub, hone, htwo⟩ := h.rest
  have hdrop := List.Subset.trans (List.drop_subset count rest) hsub
  refine ⟨⟨rest.drop count, hdrop, ?_, ?_⟩, h.eof, h.reported⟩
  · simp only [hone, List.map_drop]
  · simp only [htwo, List.map_drop]

theorem afterReport (h : one.Matches pairs two) {first second : Diagnostic}
    (hreport : first.Corresponds pairs second) :
    (one.afterReport first).Matches pairs (two.afterReport second) := by
  refine ⟨h.rest, h.eof, ?_⟩
  obtain ⟨pair, hpair, last, -, -, hfirst, hsecond⟩ := hreport.span
  simp only [Cursor.afterReport, Diagnostic.isError, Diagnostic.severity, Diagnostic.stage,
    hreport.problem, hfirst, hsecond]
  split
  · exact .inr ⟨pair, hpair, rfl, rfl⟩
  · exact .inl fun _ _ => ⟨nofun, nofun⟩

end Cursor.Matches

theorem Cursor.matches_zip {tokens tokens' : List Token} (h : tokens.length = tokens'.length)
    {eof eof' : Token} {reported reported' : Option Nat}
    (hreported : ∀ pair ∈ (tokens ++ [eof]).zip (tokens' ++ [eof']),
      reported ≠ some pair.1.start ∧ reported' ≠ some pair.2.start) :
    Cursor.Matches ((tokens ++ [eof]).zip (tokens' ++ [eof'])) ⟨tokens, eof, reported⟩
      ⟨tokens', eof', reported'⟩ := by
  have hzip : (tokens ++ [eof]).zip (tokens' ++ [eof']) = tokens.zip tokens' ++ [(eof, eof')] :=
    List.zip_append h
  refine ⟨⟨tokens.zip tokens', ?_, ?_, ?_⟩, ?_, .inl hreported⟩
  · rw [hzip]
    exact List.subset_append_left _ _
  · exact (List.map_fst_zip (Nat.le_of_eq h)).symm
  · exact (List.map_snd_zip (Nat.le_of_eq h.symm)).symm
  · rw [hzip]
    simp

structure Reading.Matches (pairs : List (Token × Token)) (one two : Reading) : Prop where
  accepted : one.accepted = two.accepted
  drafts : Draft.bareAll one.drafts = Draft.bareAll two.drafts
  diagnostics : List.Forall₂ (Diagnostic.Corresponds pairs) one.diagnostics two.diagnostics
  cursor : one.cursor.Matches pairs two.cursor

namespace Reading

variable {pairs : List (Token × Token)} {cursor cursor' : Cursor}

theorem idle_matches (accepted : Bool) (h : cursor.Matches pairs cursor') :
    (idle accepted cursor).Matches pairs (idle accepted cursor') := ⟨rfl, rfl, .nil, h⟩

theorem taking_matches (hpairs : Token.Matching pairs) (count : Nat)
    (h : cursor.Matches pairs cursor') :
    (taking count cursor).Matches pairs (taking count cursor') := by
  refine ⟨rfl, ?_, .nil, h.drop count⟩
  have hwords := congrArg (List.map BareTree.token) (congrArg (List.take count) (h.words hpairs))
  simp only [← List.map_take, List.map_map] at hwords
  simp only [taking, Draft.bareAll_map_token]
  exact hwords

theorem reporting_matches (h : cursor.Matches pairs cursor') {one two : Diagnostic}
    (hreport : one.Corresponds pairs two) :
    (reporting one cursor).Matches pairs (reporting two cursor') :=
  ⟨rfl, rfl, .cons hreport .nil, h.afterReport hreport⟩

namespace Matches

variable {first first' second second' reading reading' : Reading}

theorem followedBy (h : first.Matches pairs first') (h' : second.Matches pairs second') :
    (first.followedBy second).Matches pairs (first'.followedBy second') where
  accepted := h'.accepted
  drafts := by
    simp only [Reading.followedBy, Draft.bareAll_append, h.drafts, h'.drafts]
  diagnostics := List.rel_append h.diagnostics h'.diagnostics
  cursor := h'.cursor

theorem withAccepted (h : reading.Matches pairs reading') (accepted : Bool) :
    (reading.withAccepted accepted).Matches pairs (reading'.withAccepted accepted) :=
  ⟨rfl, h.drafts, h.diagnostics, h.cursor⟩

theorem grouped (h : reading.Matches pairs reading') (accepted rejected : Kind) :
    (reading.grouped accepted rejected).Matches pairs (reading'.grouped accepted rejected) where
  accepted := rfl
  drafts := by
    simp only [Reading.grouped, Draft.bareAll, Draft.bare, h.drafts, h.accepted]
  diagnostics := h.diagnostics
  cursor := h.cursor

theorem grownBy (h : first.Matches pairs first') (h' : second.Matches pairs second')
    (kind : Kind) : (first.grownBy second kind).Matches pairs (first'.grownBy second' kind) where
  accepted := h'.accepted
  drafts := by
    simp only [Reading.grownBy, Draft.bareAll_growLast, h.drafts, h'.drafts]
  diagnostics := List.rel_append h.diagnostics h'.diagnostics
  cursor := h'.cursor

end Matches

end Reading

namespace Reader

def Follows (pairs : List (Token × Token)) (two one : Reader) : Prop :=
  ∀ cursor cursor' reading, cursor.Matches pairs cursor' → one cursor = some reading →
    ∃ reading', two cursor' = some reading' ∧ reading.Matches pairs reading'

variable {pairs : List (Token × Token)} {body body' : Reader}

theorem loop_follows (h : body'.Follows pairs body) (rounds : Nat) :
    (loop body' rounds).Follows pairs (loop body rounds) := by
  induction rounds with
  | zero =>
      intro cursor cursor' reading _ hread
      cases hread
  | succ rounds ih =>
      intro cursor cursor' reading hcursor hread
      obtain ⟨first, hfirst, hread⟩ := loop_succ_eq_some_iff.1 hread
      obtain ⟨first', hfirst', hmatch⟩ := h cursor cursor' first hcursor hfirst
      cases haccepted : first.accepted with
      | true =>
          rw [haccepted] at hread
          obtain ⟨rest, hrest, rfl⟩ := hread
          obtain ⟨rest', hrest', hmatches⟩ := ih _ _ rest hmatch.cursor hrest
          refine ⟨first'.followedBy rest', loop_succ_eq_some_iff.2 ⟨first', hfirst', ?_⟩,
            hmatch.followedBy hmatches⟩
          rw [← hmatch.accepted, haccepted]
          exact ⟨rest', hrest', rfl⟩
      | false =>
          rw [haccepted] at hread
          refine ⟨first'.withAccepted true, loop_succ_eq_some_iff.2 ⟨first', hfirst', ?_⟩, ?_⟩
          · rw [← hmatch.accepted, haccepted]
            rfl
          · rw [show reading = first.withAccepted true from hread]
            exact hmatch.withAccepted true

theorem growAll_follows (h : body'.Follows pairs body) (kind : Kind) (rounds : Nat)
    {sofar sofar' reading : Reading} (hsofar : sofar.Matches pairs sofar')
    (hread : growAll kind body rounds sofar = some reading) :
    ∃ reading', growAll kind body' rounds sofar' = some reading' ∧
      reading.Matches pairs reading' := by
  induction rounds generalizing sofar sofar' with
  | zero => cases hread
  | succ rounds ih =>
      obtain ⟨next, hnext, hread⟩ := growAll_succ_eq_some_iff.1 hread
      obtain ⟨next', hnext', hmatch⟩ := h _ _ next hsofar.cursor hnext
      cases haccepted : next.accepted with
      | true =>
          rw [haccepted] at hread
          obtain ⟨reading', hread', hmatches⟩ := ih (hsofar.grownBy hmatch kind) hread
          refine ⟨reading', growAll_succ_eq_some_iff.2 ⟨next', hnext', ?_⟩, hmatches⟩
          rw [← hmatch.accepted, haccepted]
          exact hread'
      | false =>
          rw [haccepted] at hread
          refine ⟨(sofar'.followedBy next').withAccepted true,
            growAll_succ_eq_some_iff.2 ⟨next', hnext', ?_⟩, ?_⟩
          · rw [← hmatch.accepted, haccepted]
            rfl
          · rw [show reading = (sofar.followedBy next).withAccepted true from hread]
            exact (hsofar.followedBy hmatch).withAccepted true

end Reader

namespace Grammar

variable {pairs : List (Token × Token)} {mark mark' : Token}

theorem note_corresponds (hpairs : Token.Matching pairs) (hmark : (mark, mark') ∈ pairs)
    {cursor cursor' : Cursor} (hcursor : cursor.Matches pairs cursor') (place : NotePlace)
    (problem : Text → Problem) :
    Diagnostic.Corresponds pairs
      ⟨problem (noteText place mark cursor.current), noteSpan place mark cursor.current⟩
      ⟨problem (noteText place mark' cursor'.current), noteSpan place mark' cursor'.current⟩ := by
  have hhere := hcursor.current
  have htext := hcursor.text hpairs
  have hmarkText : mark.text = mark'.text := congrArg Word.text (hpairs.word _ hmark)
  cases place with
  | here =>
      simp only [noteText, noteSpan, htext]
      exact .of_span hhere
  | mark =>
      simp only [noteText, noteSpan, hmarkText]
      exact .of_span hmark
  | throughHere =>
      simp only [noteText, noteSpan, htext]
      exact .of_cover hpairs hmark hhere

def Follows (pairs : List (Token × Token)) (call' call : Rule → Reader) (grammar : Grammar) :
    Prop :=
  ∀ mark mark', (mark, mark') ∈ pairs →
    (grammar.read call' mark').Follows pairs (grammar.read call mark)

section Constructs

variable {call call' : Rule → Reader} {first second rest test yes no body : Grammar}

theorem idle_follows {grammar : Grammar} {accepted : Bool}
    (h : ∀ call mark cursor, grammar.read call mark cursor = some (.idle accepted cursor)) :
    Follows pairs call' call grammar := by
  intro mark mark' _ cursor cursor' reading hcursor hread
  rw [h] at hread
  cases hread
  exact ⟨_, h call' mark' cursor', Reading.idle_matches _ hcursor⟩

theorem bump_follows (hpairs : Token.Matching pairs) : Follows pairs call' call .bump := by
  intro mark mark' _ cursor cursor' reading hcursor hread
  cases hread
  exact ⟨_, rfl, Reading.taking_matches hpairs 1 hcursor⟩

theorem skip_follows (hpairs : Token.Matching pairs) (recovery : Recovery) :
    Follows pairs call' call (.skip recovery) := by
  intro mark mark' _ cursor cursor' reading hcursor hread
  cases hread
  refine ⟨_, rfl, ?_⟩
  rw [hcursor.kinds hpairs]
  exact Reading.taking_matches hpairs _ hcursor

theorem complain_follows (hpairs : Token.Matching pairs) (problem : Problem) :
    Follows pairs call' call (.complain problem) := by
  intro mark mark' _ cursor cursor' reading hcursor hread
  have hreported := hcursor.reported_iff hpairs
  simp only [read] at hread ⊢
  by_cases hsuppressed : cursor.reported = some cursor.current.start
  · rw [if_pos hsuppressed] at hread
    rw [if_pos (hreported.1 hsuppressed)]
    cases hread
    exact ⟨_, rfl, Reading.idle_matches true hcursor⟩
  · rw [if_neg hsuppressed] at hread
    rw [if_neg (mt hreported.2 hsuppressed)]
    cases hread
    exact ⟨_, rfl, Reading.reporting_matches hcursor (.of_span hcursor.current)⟩

theorem note_follows (hpairs : Token.Matching pairs) (place : NotePlace)
    (problem : Text → Problem) : Follows pairs call' call (.note place problem) := by
  intro mark mark' hmark cursor cursor' reading hcursor hread
  cases hread
  exact ⟨_, rfl, Reading.reporting_matches hcursor
    (note_corresponds hpairs hmark hcursor place problem)⟩

theorem seq_follows (h : Follows pairs call' call first) (h' : Follows pairs call' call second) :
    Follows pairs call' call (.seq first second) := by
  intro mark mark' hmark cursor cursor' reading hcursor hread
  obtain ⟨one, hone, two, htwo, rfl⟩ := read_seq_eq_some_iff.1 hread
  obtain ⟨one', hone', hmatch⟩ := h _ _ hmark _ _ one hcursor hone
  obtain ⟨two', htwo', hmatches⟩ := h' _ _ hmark _ _ two hmatch.cursor htwo
  exact ⟨_, read_seq_eq_some_iff.2 ⟨one', hone', two', htwo', rfl⟩, hmatch.followedBy hmatches⟩

theorem ifOk_follows (h : Follows pairs call' call test) (hyes : Follows pairs call' call yes)
    (hno : Follows pairs call' call no) : Follows pairs call' call (.ifOk test yes no) := by
  intro mark mark' hmark cursor cursor' reading hcursor hread
  obtain ⟨one, hone, two, htwo, rfl⟩ := read_ifOk_eq_some_iff.1 hread
  obtain ⟨one', hone', hmatch⟩ := h _ _ hmark _ _ one hcursor hone
  have hnext : ∃ two',
      read call' (if one'.accepted then yes else no) mark' one'.cursor = some two' ∧
        two.Matches pairs two' := by
    rw [← hmatch.accepted]
    split at htwo
    · rename_i haccepted
      rw [if_pos haccepted]
      exact hyes _ _ hmark _ _ two hmatch.cursor htwo
    · rename_i hrejected
      rw [if_neg hrejected]
      exact hno _ _ hmark _ _ two hmatch.cursor htwo
  obtain ⟨two', htwo', hmatches⟩ := hnext
  exact ⟨_, read_ifOk_eq_some_iff.2 ⟨one', hone', two', htwo', rfl⟩,
    hmatch.followedBy hmatches⟩

theorem ifAt_follows (hpairs : Token.Matching pairs) (kinds : Kind.Set)
    (hyes : Follows pairs call' call yes) (hno : Follows pairs call' call no) :
    Follows pairs call' call (.ifAt kinds yes no) := by
  intro mark mark' hmark cursor cursor' reading hcursor hread
  rw [read_ifAt, hcursor.kind hpairs] at hread
  rw [read_ifAt]
  split at hread
  · rename_i hinside
    rw [if_pos hinside]
    exact hyes _ _ hmark _ _ reading hcursor hread
  · rename_i houtside
    rw [if_neg houtside]
    exact hno _ _ hmark _ _ reading hcursor hread

theorem ifText_follows (hpairs : Token.Matching pairs) (holds : Text → Bool)
    (hyes : Follows pairs call' call yes) (hno : Follows pairs call' call no) :
    Follows pairs call' call (.ifText holds yes no) := by
  intro mark mark' hmark cursor cursor' reading hcursor hread
  rw [read_ifText, hcursor.text hpairs] at hread
  rw [read_ifText]
  split at hread
  · rename_i hholds
    rw [if_pos hholds]
    exact hyes _ _ hmark _ _ reading hcursor hread
  · rename_i hfails
    rw [if_neg hfails]
    exact hno _ _ hmark _ _ reading hcursor hread

theorem marked_follows (h : Follows pairs call' call body) :
    Follows pairs call' call (.marked body) := by
  intro mark mark' _ cursor cursor' reading hcursor hread
  exact h _ _ hcursor.current _ _ reading hcursor hread

theorem group_follows (h : Follows pairs call' call body) (accepted rejected : Kind) :
    Follows pairs call' call (.group body accepted rejected) := by
  intro mark mark' hmark cursor cursor' reading hcursor hread
  obtain ⟨inner, hinner, rfl⟩ := read_group_eq_some_iff.1 hread
  obtain ⟨inner', hinner', hmatch⟩ := h _ _ hmark _ _ inner hcursor hinner
  exact ⟨_, read_group_eq_some_iff.2 ⟨inner', hinner', rfl⟩, hmatch.grouped accepted rejected⟩

theorem grow_follows (h : Follows pairs call' call first) (kind : Kind)
    (h' : Follows pairs call' call rest) : Follows pairs call' call (.grow first kind rest) := by
  intro mark mark' hmark cursor cursor' reading hcursor hread
  obtain ⟨one, hone, hread⟩ := read_grow_eq_some_iff.1 hread
  obtain ⟨one', hone', hmatch⟩ := h _ _ hmark _ _ one hcursor hone
  cases haccepted : one.accepted with
  | false =>
      rw [haccepted] at hread
      rw [show reading = one from hread]
      refine ⟨one', read_grow_eq_some_iff.2 ⟨one', hone', ?_⟩, hmatch⟩
      rw [← hmatch.accepted, haccepted]
      rfl
  | true =>
      rw [haccepted] at hread
      obtain ⟨two, htwo, rfl⟩ := hread
      obtain ⟨two', htwo', hmatches⟩ := h' _ _ hmark _ _ two hmatch.cursor htwo
      have hread' : read call' (.grow first kind rest) mark' cursor' =
          some (if two'.accepted then one'.grownBy two' kind
            else (one'.followedBy two').withAccepted true) := by
        refine read_grow_eq_some_iff.2 ⟨one', hone', ?_⟩
        rw [← hmatch.accepted, haccepted]
        exact ⟨two', htwo', rfl⟩
      refine ⟨_, hread', ?_⟩
      rw [← hmatches.accepted]
      split
      · exact hmatch.grownBy hmatches kind
      · exact (hmatch.followedBy hmatches).withAccepted true

theorem growAll_follows (h : Follows pairs call' call first) (kind : Kind)
    (h' : Follows pairs call' call rest) :
    Follows pairs call' call (.growAll first kind rest) := by
  intro mark mark' hmark cursor cursor' reading hcursor hread
  obtain ⟨one, hone, hread⟩ := read_growAll_eq_some_iff.1 hread
  obtain ⟨one', hone', hmatch⟩ := h _ _ hmark _ _ one hcursor hone
  cases haccepted : one.accepted with
  | false =>
      rw [haccepted] at hread
      rw [show reading = one from hread]
      refine ⟨one', read_growAll_eq_some_iff.2 ⟨one', hone', ?_⟩, hmatch⟩
      rw [← hmatch.accepted, haccepted]
      rfl
  | true =>
      rw [haccepted] at hread
      obtain ⟨reading', hread', hmatches⟩ :=
        Reader.growAll_follows (h' _ _ hmark) kind _ hmatch hread
      refine ⟨reading', read_growAll_eq_some_iff.2 ⟨one', hone', ?_⟩, hmatches⟩
      rw [← hmatch.accepted, haccepted, Reader.rounds, ← hmatch.cursor.length]
      exact hread'

theorem loop_follows (h : Follows pairs call' call body) :
    Follows pairs call' call (.loop body) := by
  intro mark mark' hmark cursor cursor' reading hcursor hread
  obtain ⟨reading', hread', hmatch⟩ :=
    Reader.loop_follows (h _ _ hmark) (Reader.rounds cursor) _ _ reading hcursor hread
  refine ⟨reading', ?_, hmatch⟩
  rw [Reader.rounds, hcursor.length] at hread'
  exact hread'

end Constructs

theorem read_follows (hpairs : Token.Matching pairs) {call call' : Rule → Reader}
    (hcall : ∀ rule, (call' rule).Follows pairs (call rule)) (grammar : Grammar) :
    Follows pairs call' call grammar := by
  induction grammar with
  | accept | reject => exact idle_follows fun _ _ _ => rfl
  | unreachable =>
      intro mark mark' _ cursor cursor' reading _ hread
      cases hread
  | bump => exact bump_follows hpairs
  | skip recovery => exact skip_follows hpairs recovery
  | seq first second ihFirst ihSecond => exact seq_follows ihFirst ihSecond
  | ifOk test yes no ihTest ihYes ihNo => exact ifOk_follows ihTest ihYes ihNo
  | ifAt kinds yes no ihYes ihNo => exact ifAt_follows hpairs kinds ihYes ihNo
  | ifText holds yes no ihYes ihNo => exact ifText_follows hpairs holds ihYes ihNo
  | complain problem => exact complain_follows hpairs problem
  | note place problem => exact note_follows hpairs place problem
  | marked body ih => exact marked_follows ih
  | group body accepted rejected ih => exact group_follows ih accepted rejected
  | grow first kind rest ihFirst ihRest => exact grow_follows ihFirst kind ihRest
  | growAll first kind rest ihFirst ihRest => exact growAll_follows ihFirst kind ihRest
  | loop body ih => exact loop_follows ih
  | call rule => exact fun _ _ _ => hcall rule

end Grammar

theorem Rule.read_follows {pairs : List (Token × Token)} (hpairs : Token.Matching pairs)
    (depth : Nat) (rule : Rule) : (Rule.read depth rule).Follows pairs (Rule.read depth rule) := by
  induction depth generalizing rule with
  | zero =>
      intro cursor cursor' reading _ hread
      cases hread
  | succ depth ih =>
      intro cursor cursor' reading hcursor hread
      have hfollows := Grammar.read_follows hpairs ih rule.grammar _ _ hcursor.current
      exact hfollows _ _ reading hcursor hread

theorem Grammar.run_follows {pairs : List (Token × Token)} (hpairs : Token.Matching pairs)
    (grammar : Grammar) : Reader.Follows pairs grammar.run grammar.run := by
  intro cursor cursor' reading hcursor hread
  obtain ⟨reading', hread', hmatch⟩ := Grammar.read_follows hpairs
    (Rule.read_follows hpairs _) grammar _ _ hcursor.current _ _ reading hcursor hread
  refine ⟨reading', ?_, hmatch⟩
  rw [hcursor.length] at hread'
  exact hread'

end TdSyntax
