import TdSyntax.Proofs.Production.Outcomes
import TdSyntax.Proofs.Reading.Reports
import TdSyntax.Proofs.Tree.Outlines

/-!
# Readings without errors fit the productions

Every reading without errors ends at one of the outcomes that the analysis finds, and
what it takes is what the production asked for in between: a draft in which the children
of every node fit the production of its kind.
-/

namespace TdSyntax

namespace Draft

/-- An integer that stands directly behind the start of a range carries its sign. -/
def GluedEnd (parts : List Draft) : Prop :=
  ∀ first last, parts = [first, last] → last.kind = .integer →
    ∃ token, last = .node .integer [.token token] ∧ token.text.head? = some '-'

/-- Every node in the draft has children that fit the production of its kind. -/
inductive Derived : Draft → Prop
  | token {content : Token} (h : content.Sound) : Derived (.token content)
  | node {draft : Draft} {kind : Kind} {parts : List Draft}
      (hshape : draft.shape? = some (kind, parts))
      (hfits : (Production.ofKind kind).Fits (parts.map Draft.kind))
      (hglued : kind = .rangePiece → GluedEnd parts)
      (hparts : ∀ part ∈ parts, Derived part) : Derived draft

theorem kind_of_shape {draft : Draft} {kind : Kind} {parts : List Draft}
    (h : draft.shape? = some (kind, parts)) : draft.kind = kind := by
  cases draft <;> cases h <;> rfl

end Draft

namespace Reading

def IsClean (reading : Reading) : Prop :=
  ∀ diagnostic ∈ reading.diagnostics, diagnostic.isError = false

theorem isClean_followedBy {first second : Reading} :
    (first.followedBy second).IsClean ↔ first.IsClean ∧ second.IsClean :=
  List.forall_mem_append

theorem isClean_grownBy {first second : Reading} {kind : Kind} :
    (first.grownBy second kind).IsClean ↔ first.IsClean ∧ second.IsClean :=
  List.forall_mem_append

def Completes (reading : Reading) (kinds : Kind.Set) : Prop :=
  ∃ draft, reading.drafts = [draft] ∧ draft.Derived ∧ kinds.contains draft.kind = true

end Reading

/-- A cursor in a text without lexical errors, before which no error is reported. -/
structure Cursor.Clean (cursor : Cursor) (quoted : Bool) : Prop where
  eof : cursor.eof.kind = .eof
  reported : cursor.reported = none
  quotes : Token.Quoted quoted cursor.tokens

namespace Cursor.Clean

variable {cursor : Cursor} {quoted : Bool}

theorem tokens_eq (h : cursor.Clean quoted) (hkind : cursor.kind ≠ .eof) :
    ∃ rest, cursor.tokens = cursor.current :: rest := by
  rcases hcursor : cursor.tokens with _ | ⟨token, rest⟩
  · exact absurd (by simp [Cursor.kind, Cursor.current, hcursor, h.eof]) hkind
  · exact ⟨rest, by simp [Cursor.current, hcursor]⟩

theorem quoted_kind (h : cursor.Clean true) : Kind.Set.quoted.contains cursor.kind = true := by
  have hquotes := h.quotes
  rcases hcursor : cursor.tokens with _ | ⟨token, rest⟩
  · rw [hcursor] at hquotes
    cases hquotes
  · rw [hcursor] at hquotes
    cases hquotes with
    | cons _ _ hkind => simpa [Cursor.kind, Cursor.current, hcursor] using hkind rfl

theorem afterReport (h : cursor.Clean quoted) {diagnostic : Diagnostic}
    (hdiagnostic : diagnostic.isError = false) :
    (cursor.afterReport diagnostic).Clean quoted :=
  ⟨h.eof, by simp [Cursor.afterReport, hdiagnostic], h.quotes⟩

theorem taking (h : cursor.Clean quoted) (hkind : cursor.kind ≠ .eof) :
    cursor.current.Sound ∧
      (Reading.taking 1 cursor).cursor.Clean
        (if cursor.kind = .doubleQuote then !quoted else quoted) := by
  obtain ⟨rest, htokens⟩ := h.tokens_eq hkind
  have hquotes := h.quotes
  rw [htokens] at hquotes
  cases hquotes with
  | cons hsound _ _ hrest =>
      refine ⟨hsound, h.eof, h.reported, ?_⟩
      rw [show (Reading.taking 1 cursor).cursor.tokens = rest by simp [Reading.taking, htokens]]
      exact hrest

end Cursor.Clean

namespace Point

structure Admits (point : Point) (cursor : Cursor) : Prop where
  kind : point.kinds.contains cursor.kind = true
  clean : cursor.Clean point.quoted

structure Leads (point : Point) (reading : Reading) (last : Point) : Prop where
  admits : last.Admits reading.cursor
  fits : ∀ kinds, last.residual.Fits kinds →
    point.residual.Fits (reading.drafts.map Draft.kind ++ kinds) ∧
      ∀ draft ∈ reading.drafts, draft.Derived
  idle : last.moved = false → point.moved = false ∧ reading.drafts = []

variable {point middle last : Point} {first second reading : Reading}

theorem Leads.trans (h : point.Leads first middle) (h' : middle.Leads second last) :
    point.Leads (first.followedBy second) last where
  admits := h'.admits
  fits := by
    intro kinds hkinds
    obtain ⟨hsecond, hderived⟩ := h'.fits kinds hkinds
    obtain ⟨hfirst, hbefore⟩ := h.fits _ hsecond
    refine ⟨?_, List.forall_mem_append.2 ⟨hbefore, hderived⟩⟩
    simpa [Reading.followedBy] using hfirst
  idle := by
    intro hmoved
    obtain ⟨hmiddle, hsecond⟩ := h'.idle hmoved
    obtain ⟨hpoint, hfirst⟩ := h.idle hmiddle
    exact ⟨hpoint, by simp [Reading.followedBy, hfirst, hsecond]⟩

theorem Leads.withAccepted (h : point.Leads reading last) (accepted : Bool) :
    point.Leads (reading.withAccepted accepted) last := ⟨h.admits, h.fits, h.idle⟩

theorem leads_idle {cursor : Cursor} (accepted : Bool) (h : point.Admits cursor) :
    point.Leads (.idle accepted cursor) point where
  admits := h
  fits _ hkinds := ⟨hkinds, List.forall_mem_nil _⟩
  idle hmoved := ⟨hmoved, rfl⟩

theorem leads_leaving {outer : Point} {kinds : Kind.Set} (hadmits : last.Admits reading.cursor)
    (h : reading.Completes kinds) : outer.Leads reading (last.leaving outer kinds) where
  admits := ⟨hadmits.kind, hadmits.clean⟩
  fits := by
    intro others hfits
    obtain ⟨draft, hdrafts, hderived, hkind⟩ := h
    rw [hdrafts]
    exact ⟨Production.fits_cons hkind hfits, List.forall_mem_singleton.2 hderived⟩
  idle := nofun

theorem Admits.within {cursor : Cursor} (h : point.Admits cursor) {kinds : Kind.Set}
    (hkind : kinds.contains cursor.kind = true) : (point.within kinds).Admits cursor :=
  ⟨by simp [Point.within, h.kind, hkind], h.clean⟩

theorem Admits.without {cursor : Cursor} (h : point.Admits cursor) {kinds : Kind.Set}
    (hkind : kinds.contains cursor.kind = false) : (point.without kinds).Admits cursor :=
  ⟨by simp [Point.without, h.kind, hkind], h.clean⟩

theorem bump_eq_some {point behind : Point} (h : point.bump = some behind) {kind : Kind}
    (hkind : point.kinds.contains kind = true) :
    let quoted := if kind = .doubleQuote then !point.quoted else point.quoted
    kind ≠ .eof ∧
      behind = ⟨point.residual.rest point.kinds, if quoted then .quoted else .full, quoted, true⟩ := by
  unfold bump at h
  extract_lets at h
  split at h
  case isTrue => cases h
  case isFalse heof =>
    refine ⟨fun heq => heof (heq ▸ hkind), ?_⟩
    split at h
    case isTrue hquote =>
      have hne : kind ≠ .doubleQuote := by
        rintro rfl
        simp [hkind] at hquote
      cases h
      rw [if_neg hne]
    case isFalse =>
      split at h
      case isTrue hquote =>
        have heq : kind = .doubleQuote := by simpa [hquote, eq_comm] using hkind
        cases h
        rw [if_pos heq]
      case isFalse => cases h

theorem leads_bump {point behind : Point} {cursor : Cursor} (h : point.bump = some behind)
    (hadmits : point.Admits cursor) : point.Leads (.taking 1 cursor) behind := by
  obtain ⟨hkind, rfl⟩ := bump_eq_some h hadmits.kind
  obtain ⟨hsound, hclean⟩ := hadmits.clean.taking hkind
  obtain ⟨rest, htokens⟩ := hadmits.clean.tokens_eq hkind
  have hdrafts : (Reading.taking 1 cursor).drafts = [.token cursor.current] := by
    simp [Reading.taking, htokens]
  constructor
  · refine ⟨?_, hclean⟩
    revert hclean
    generalize (if cursor.kind = .doubleQuote then !point.quoted else point.quoted) = quoted
    intro hclean
    cases quoted with
    | true => exact hclean.quoted_kind
    | false => exact Kind.Set.contains_full _
  · intro kinds hfits
    rw [hdrafts]
    exact ⟨Production.fits_cons hadmits.kind hfits, List.forall_mem_singleton.2 (.token hsound)⟩
  · intro hmoved
    cases hmoved

end Point

/-! ## Outlooks -/

/-- The outlook finds the outcomes of all readings without errors. -/
def Outlook.Covers (outlook : Outlook) (reader : Reader) : Prop :=
  ∀ ⦃point outcomes cursor reading⦄, outlook point = some outcomes → point.Admits cursor →
    reader cursor = some reading → reading.IsClean →
      ∃ last, (reading.accepted, last) ∈ outcomes ∧ point.Leads reading last

namespace Point

theorem mem_gather {next : Bool → Outlook} {outcomes all : List Outcome}
    (h : gather next outcomes = some all) {outcome : Outcome} (hmem : outcome ∈ outcomes) :
    ∃ here, next outcome.1 outcome.2 = some here ∧ here ⊆ all := by
  induction outcomes generalizing all with
  | nil => cases hmem
  | cons first rest ih =>
      simp only [gather, Option.bind_eq_bind, Option.bind_eq_some_iff] at h
      obtain ⟨here, hhere, others, hothers, hall⟩ := h
      cases hall
      rcases List.mem_cons.1 hmem with rfl | hmem
      · exact ⟨here, hhere, fun _ hin => List.mem_union_iff.2 (.inl hin)⟩
      · obtain ⟨found, hfound, hsubset⟩ := ih hothers hmem
        exact ⟨found, hfound, fun _ hin => List.mem_union_iff.2 (.inr (hsubset hin))⟩

theorem gather_leads {next : Bool → Outlook} {before outcomes : List Outcome}
    (h : gather next before = some outcomes) {point middle : Point} {one two : Reading}
    (hmiddle : (one.accepted, middle) ∈ before) (hleads : point.Leads one middle) {reader : Reader}
    (hnext : (next one.accepted).Covers reader) (htwo : reader one.cursor = some two)
    (hclean : two.IsClean) :
    ∃ last, (two.accepted, last) ∈ outcomes ∧ point.Leads (one.followedBy two) last := by
  obtain ⟨here, hhere, hsubset⟩ := mem_gather h hmiddle
  obtain ⟨last, hlast, hlastLeads⟩ := hnext hhere hleads.admits htwo hclean
  exact ⟨last, hsubset hlast, hleads.trans hlastLeads⟩

theorem both_eq_some {first second : Option (List Outcome)} {all : List Outcome}
    (h : both first second = some all) :
    ∃ one two, first = some one ∧ second = some two ∧ one ⊆ all ∧ two ⊆ all := by
  simp only [both, Option.bind_eq_bind, Option.bind_eq_some_iff] at h
  obtain ⟨one, hone, two, htwo, hall⟩ := h
  cases hall
  exact ⟨one, two, hone, htwo, fun _ hin => List.mem_union_iff.2 (.inl hin),
    fun _ hin => List.mem_union_iff.2 (.inr hin)⟩

theorem reach_eq_some {point : Point} {next : Outlook} {outcomes : List Outcome}
    (h : point.reach next = some outcomes) {cursor : Cursor} (hadmits : point.Admits cursor) :
    next point = some outcomes := by
  unfold reach at h
  split at h
  case isTrue hempty => exact absurd hempty (Kind.Set.not_isEmpty hadmits.kind)
  case isFalse => exact h

/-! ## Loops -/

def Rounds (body : Outlook) (points : List Point) (left : List Outcome) (point : Point) : Prop :=
  ∃ outcomes, body point = some outcomes ∧
    ∀ outcome ∈ outcomes, if outcome.1 then outcome.2 ∈ points else (true, outcome.2) ∈ left

theorem Rounds.mono {body : Outlook} {points : List Point} {left all : List Outcome} {point : Point}
    (h : Rounds body points left point) (hsubset : left ⊆ all) : Rounds body points all point := by
  obtain ⟨outcomes, hbody, houtcomes⟩ := h
  refine ⟨outcomes, hbody, fun outcome hmem => ?_⟩
  have hleads := houtcomes outcome hmem
  split at hleads
  case isTrue hagain => simpa [hagain] using hleads
  case isFalse hagain => simpa [hagain] using hsubset hleads

theorem exists_rounds {body : Outlook} {bound : Nat} {seen pending : List Point}
    {left : List Outcome} (h : explore body bound seen pending = some left) :
    ∃ points, seen ⊆ points ∧
      ∀ point ∈ points, (point ∈ seen ∧ point ∉ pending) ∨ Rounds body points left point := by
  fun_induction explore body bound seen pending generalizing left with
  | case1 bound seen => exact ⟨seen, List.Subset.refl _, fun point hpoint => .inl ⟨hpoint, nofun⟩⟩
  | case2 => cases h
  | case3 bound seen point pending ih =>
      simp only [Option.bind_eq_bind, Option.bind_eq_some_iff, List.partition_eq_filter_filter] at h
      obtain ⟨outcomes, hbody, others, hothers, hall⟩ := h
      cases hall
      obtain ⟨points, hsubset, hpoints⟩ := ih _ hothers
      rw [List.append_subset] at hsubset
      obtain ⟨hseen, hfresh⟩ := hsubset
      refine ⟨points, hseen, fun next hnext => ?_⟩
      rcases hpoints next hnext with ⟨hknown, hpending⟩ | hrounds
      · rw [List.mem_append, not_or] at hpending
        -- a point that is no longer pending has been seen before this round, or is explored in it
        have hold : next ∈ seen := (List.mem_append.1 hknown).resolve_right hpending.2
        by_cases heq : next = point
        · subst heq
          refine .inr ⟨outcomes, hbody, fun outcome hmem => ?_⟩
          split
          case isTrue hagain =>
            by_cases hin : outcome.2 ∈ seen
            · exact hseen hin
            · refine hfresh (List.mem_filter.2 ⟨?_, by simpa using hin⟩)
              exact List.mem_map_of_mem (List.mem_filter.2 ⟨hmem, hagain⟩)
          case isFalse hagain =>
            refine List.mem_union_iff.2 (.inl (List.mem_map.2 ⟨outcome, ?_, rfl⟩))
            exact List.mem_filter.2 ⟨hmem, by simpa using hagain⟩
        · exact .inl ⟨hold, by simp [heq, hpending.1]⟩
      · exact .inr (hrounds.mono fun _ hin => List.mem_union_iff.2 (.inr hin))

theorem loop_eq_some {body : Outlook} {point : Point} {left : List Outcome}
    (h : point.loop body = some left) :
    ∃ points, { point with moved := true } ∈ points ∧
      ∀ point ∈ points, Rounds body points left point := by
  obtain ⟨points, hsubset, hpoints⟩ := exists_rounds h
  refine ⟨points, hsubset (List.mem_singleton.2 rfl), fun next hnext => ?_⟩
  exact (hpoints next hnext).resolve_left fun hknown => hknown.2 hknown.1

theorem Leads.ofMoved {point last : Point} {reading : Reading}
    (h : Leads { point with moved := true } reading last) : point.Leads reading last where
  admits := h.admits
  fits := h.fits
  idle hmoved := nomatch (h.idle hmoved).1

theorem loop_covers {body : Outlook} {reader : Reader} (hbody : body.Covers reader)
    {points : List Point} {left : List Outcome}
    (hpoints : ∀ point ∈ points, Rounds body points left point) {rounds : Nat} {point : Point}
    (hpoint : point ∈ points) {cursor : Cursor} {reading : Reading} (hadmits : point.Admits cursor)
    (hread : Reader.loop reader rounds cursor = some reading) (hclean : reading.IsClean) :
    ∃ last, (reading.accepted, last) ∈ left ∧ point.Leads reading last := by
  induction rounds generalizing point cursor reading with
  | zero => cases hread
  | succ rounds ih =>
      obtain ⟨outcomes, houtcomes, hround⟩ := hpoints point hpoint
      obtain ⟨first, hfirst, hread⟩ := Reader.loop_succ_eq_some_iff.1 hread
      split at hread
      case isTrue haccepted =>
        obtain ⟨rest, hrest, rfl⟩ := hread
        obtain ⟨hcleanFirst, hcleanRest⟩ := Reading.isClean_followedBy.1 hclean
        obtain ⟨next, hnext, hleads⟩ := hbody houtcomes hadmits hfirst hcleanFirst
        have hagain := hround _ hnext
        simp only [haccepted, if_true] at hagain
        obtain ⟨last, hlast, hrestLeads⟩ := ih hagain hleads.admits hrest hcleanRest
        exact ⟨last, hlast, hleads.trans hrestLeads⟩
      case isFalse haccepted =>
        subst hread
        obtain ⟨last, hlast, hleads⟩ := hbody houtcomes hadmits hfirst hclean
        have hleft := hround _ hlast
        simp only [haccepted] at hleft
        exact ⟨last, hleft, hleads.withAccepted true⟩

/-! ## Nodes -/

theorem node_leads {body : Outlook} {reader : Reader} (hbody : body.Covers reader)
    {outer : Point} {kind : Kind} {wanted : Bool → Bool} {outcomes : List Outcome}
    (h : outer.node body kind wanted = some outcomes) {cursor : Cursor} {inner reading : Reading}
    (hadmits : outer.Admits cursor) (hread : reader cursor = some inner) (hclean : inner.IsClean)
    (hwanted : wanted inner.accepted = true)
    (hglued : kind = .rangePiece → Draft.GluedEnd inner.drafts)
    (hcursor : reading.cursor = inner.cursor)
    (hdrafts : reading.drafts = [.node kind inner.drafts]) :
    ∃ last, (true, last) ∈ outcomes ∧ outer.Leads reading last := by
  simp only [node, Option.bind_eq_bind, Option.bind_eq_some_iff] at h
  obtain ⟨all, hall, h⟩ := h
  cases h
  have hstart : (outer.entering (.ofKind kind)).Admits cursor := ⟨hadmits.kind, hadmits.clean⟩
  obtain ⟨last, hlast, hleads⟩ := hbody hall hstart hread hclean
  have hmem : (inner.accepted, last) ∈ all.filter fun outcome => wanted outcome.1 :=
    List.mem_filter.2 ⟨hlast, hwanted⟩
  refine ⟨last.closing outer kind, List.mem_map_of_mem hmem, ?_⟩
  have hlastAdmits : last.Admits reading.cursor := hcursor ▸ hleads.admits
  unfold closing
  split
  case isTrue hnullable =>
    obtain ⟨hfits, hderived⟩ := hleads.fits [] (Production.fits_nil hnullable)
    rw [List.append_nil] at hfits
    exact leads_leaving hlastAdmits
      ⟨_, hdrafts, .node rfl hfits hglued hderived, by simp [Draft.kind]⟩
  case isFalse =>
    refine ⟨⟨hlastAdmits.kind, hlastAdmits.clean⟩, ?_, ?_⟩
    · intro kinds hfits
      cases hfits
    · intro hmoved
      cases hmoved

/-! ## Growing nodes -/

theorem completes_of_fits {kinds : Kind.Set} {reading : Reading}
    (hfits : (Production.one kinds).Fits (reading.drafts.map Draft.kind))
    (hderived : ∀ draft ∈ reading.drafts, draft.Derived) : reading.Completes kinds := by
  generalize hdrafts : reading.drafts.map Draft.kind = found at hfits
  cases hfits with
  | one hkind =>
      obtain ⟨draft, heq, rfl⟩ := List.map_eq_singleton_iff.1 hdrafts
      exact ⟨draft, heq, hderived draft (by simp [heq]), hkind⟩

theorem alone_eq_some {first : Outlook} {reader : Reader} (hfirst : first.Covers reader)
    {outer : Point} {kinds : Kind.Set} {next : Outlook} {all : List Outcome}
    (h : outer.alone first kinds next = some all) {cursor : Cursor} {reading : Reading}
    (hadmits : outer.Admits cursor) (hread : reader cursor = some reading)
    (hclean : reading.IsClean) :
    if reading.accepted then
      reading.Completes kinds ∧ ∃ last : Point, last.Admits reading.cursor ∧
        ∃ here, next (last.leaving outer kinds) = some here ∧ here ⊆ all
    else ∃ last, (false, last) ∈ all ∧ outer.Leads reading last := by
  simp only [alone, Option.bind_eq_bind, Option.bind_eq_some_iff] at h
  obtain ⟨outcomes, houtcomes, h⟩ := h
  have hstart : (outer.entering (.one kinds)).Admits cursor := ⟨hadmits.kind, hadmits.clean⟩
  obtain ⟨last, hlast, hleads⟩ := hfirst houtcomes hstart hread hclean
  obtain ⟨here, hhere, hsubset⟩ := mem_gather h hlast
  dsimp only at hhere
  split at hhere
  case isTrue haccepted =>
    rw [if_pos haccepted]
    split at hhere
    case isTrue hnullable =>
      obtain ⟨hfits, hderived⟩ := hleads.fits [] (Production.fits_nil hnullable)
      rw [List.append_nil] at hfits
      exact ⟨completes_of_fits hfits hderived, last, hleads.admits, here, hhere, hsubset⟩
    case isFalse => cases hhere
  case isFalse haccepted =>
    rw [if_neg haccepted]
    split at hhere
    case isTrue => cases hhere
    case isFalse hmoved =>
      cases hhere
      refine ⟨_, hsubset (List.mem_singleton.2 rfl), ⟨hleads.admits.kind, hleads.admits.clean⟩, ?_, ?_⟩
      · intro others hfits
        rw [(hleads.idle (by simpa using hmoved)).2]
        exact ⟨hfits, List.forall_mem_nil _⟩
      · exact fun hidle => ⟨hidle, (hleads.idle (by simpa using hmoved)).2⟩

theorem growth_eq_some {rest : Outlook} {reader : Reader} (hrest : rest.Covers reader)
    {outer point : Point} {kinds : Kind.Set} {kind : Kind} (hkind : kind ≠ .rangePiece)
    {all : List Outcome} (h : outer.growth kinds kind rest point = some all) {sofar next : Reading}
    (hadmits : point.Admits sofar.cursor) (hsofar : sofar.Completes kinds)
    (hread : reader sofar.cursor = some next) (hclean : next.IsClean) :
    ∃ last, (next.accepted, last) ∈ all ∧
      if next.accepted then
        last.Admits next.cursor ∧ (sofar.grownBy next kind).Completes (.singleton kind) ∧
          outer.Leads (sofar.grownBy next kind) last
      else outer.Leads (sofar.followedBy next) last := by
  simp only [growth, Option.bind_eq_bind, Option.bind_eq_some_iff] at h
  obtain ⟨outcomes, houtcomes, h⟩ := h
  have hstart : (point.entering ((Production.ofKind kind).rest kinds)).Admits sofar.cursor :=
    ⟨hadmits.kind, hadmits.clean⟩
  obtain ⟨last, hlast, hleads⟩ := hrest houtcomes hstart hread hclean
  obtain ⟨here, hhere, hsubset⟩ := mem_gather h hlast
  obtain ⟨draft, hdraft, hderived, hmakes⟩ := hsofar
  dsimp only at hhere
  split at hhere
  case isTrue haccepted =>
    split at hhere
    case isTrue hnullable =>
      cases hhere
      obtain ⟨hfits, hparts⟩ := hleads.fits [] (Production.fits_nil hnullable)
      rw [List.append_nil] at hfits
      have hcompletes : (sofar.grownBy next kind).Completes (.singleton kind) := by
        refine ⟨Draft.grow kind draft next.drafts, ?_, ?_, ?_⟩
        · simp [Reading.grownBy, hdraft, Draft.growLast]
        · refine .node (Draft.shape?_grow kind draft next.drafts)
            (Production.fits_cons hmakes hfits) (fun heq => absurd heq hkind) ?_
          exact List.forall_mem_cons.2 ⟨hderived, hparts⟩
        · simp [Draft.kind_of_shape (Draft.shape?_grow kind draft next.drafts)]
      refine ⟨last.leaving outer (.singleton kind), hsubset (by simp [haccepted]), ?_⟩
      rw [if_pos haccepted]
      exact ⟨⟨hleads.admits.kind, hleads.admits.clean⟩, hcompletes,
        leads_leaving hleads.admits hcompletes⟩
    case isFalse => cases hhere
  case isFalse haccepted =>
    split at hhere
    case isTrue => cases hhere
    case isFalse hmoved =>
      cases hhere
      have hnone := (hleads.idle (by simpa using hmoved)).2
      refine ⟨last.leaving outer kinds, hsubset (by simp [haccepted]), ?_⟩
      rw [if_neg haccepted]
      exact leads_leaving hleads.admits
        ⟨draft, by simp [Reading.followedBy, hdraft, hnone], hderived, hmakes⟩

theorem isClean_of_growAll {reader : Reader} {kind : Kind} {rounds : Nat} {sofar reading : Reading}
    (hread : Reader.growAll kind reader rounds sofar = some reading) (hclean : reading.IsClean) :
    sofar.IsClean := by
  induction rounds generalizing sofar with
  | zero => cases hread
  | succ rounds ih =>
      obtain ⟨next, hnext, hread⟩ := Reader.growAll_succ_eq_some_iff.1 hread
      split at hread
      · exact (Reading.isClean_grownBy.1 (ih hread)).1
      · subst hread
        exact (Reading.isClean_followedBy.1 hclean).1

theorem growAll_leads {rest : Outlook} {reader : Reader} (hrest : rest.Covers reader)
    {outer : Point} {kinds : Kind.Set} {kind : Kind} (hkind : kind ≠ .rangePiece)
    (hmakes : kinds.contains kind = true) {points : List Point} {left : List Outcome}
    (hpoints : ∀ point ∈ points, Rounds (outer.growth kinds kind rest) points left point)
    {rounds : Nat} {point : Point} (hpoint : point ∈ points) {sofar reading : Reading}
    (hadmits : point.Admits sofar.cursor) (hsofar : sofar.Completes kinds)
    (hread : Reader.growAll kind reader rounds sofar = some reading) (hclean : reading.IsClean) :
    ∃ last, (reading.accepted, last) ∈ left ∧ outer.Leads reading last := by
  induction rounds generalizing point sofar with
  | zero => cases hread
  | succ rounds ih =>
      obtain ⟨outcomes, houtcomes, hround⟩ := hpoints point hpoint
      obtain ⟨next, hnext, hread⟩ := Reader.growAll_succ_eq_some_iff.1 hread
      split at hread
      case isTrue haccepted =>
        have hcleanNext := (Reading.isClean_grownBy.1 (isClean_of_growAll hread hclean)).2
        obtain ⟨last, hlast, hgrown⟩ :=
          growth_eq_some hrest hkind houtcomes hadmits hsofar hnext hcleanNext
        rw [if_pos haccepted] at hgrown
        have hagain := hround _ hlast
        simp only [haccepted, if_true] at hagain
        obtain ⟨hlastAdmits, ⟨draft, hdrafts, hderived, hcontains⟩, -⟩ := hgrown
        refine ih hagain ?_ ?_ hread
        · exact hlastAdmits
        simp only [Kind.Set.contains_singleton, decide_eq_true_eq] at hcontains
        exact ⟨draft, hdrafts, hderived, hcontains ▸ hmakes⟩
      case isFalse haccepted =>
        subst hread
        have hcleanNext := (Reading.isClean_followedBy.1 hclean).2
        obtain ⟨last, hlast, hgrown⟩ :=
          growth_eq_some hrest hkind houtcomes hadmits hsofar hnext hcleanNext
        rw [if_neg haccepted] at hgrown
        have hleft := hround _ hlast
        simp only [haccepted] at hleft
        exact ⟨last, hleft, hgrown.withAccepted true⟩

end Point

end TdSyntax
