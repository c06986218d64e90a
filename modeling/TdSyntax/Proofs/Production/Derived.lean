import TdSyntax.Proofs.Production.Sound

/-!
# What the rules read without errors

A rule reads a single node, of a kind that the rule makes, wherever it can start, if no
error is reported; elsewhere a rule for statements takes nothing, and the other rules
report an error.  The node derives from the productions.
-/

namespace TdSyntax

namespace Grammar

/-- What the nodes of a kind hold.  Around a node that grows, this is the grammar that
lets it grow. -/
def bodiesOf (kind : Kind) : Grammar → List Grammar
  | .accept | .reject | .unreachable | .bump | .skip _ | .complain _ | .note _ _ | .call _ => []
  | .seq first second => bodiesOf kind first ++ bodiesOf kind second
  | .ifOk test yes no => bodiesOf kind test ++ (bodiesOf kind yes ++ bodiesOf kind no)
  | .ifAt _ yes no | .ifText _ yes no => bodiesOf kind yes ++ bodiesOf kind no
  | .marked body | .loop body => bodiesOf kind body
  | .group body accepted rejected =>
      (if accepted = kind ∨ rejected = kind then [body] else []) ++ bodiesOf kind body
  | .grow first grown rest =>
      (if grown = kind then [.grow first grown rest] else []) ++
        (bodiesOf kind first ++ bodiesOf kind rest)
  | .growAll first grown rest =>
      (if grown = kind then [.growAll first grown rest] else []) ++
        (bodiesOf kind first ++ bodiesOf kind rest)

def rangePieceBody : Grammar :=
  all [anyValue,
    .ifAt (.ofList [.ellipsis, .minus]) (.seq .bump anyValue)
    (ifKind .integerLiteral
      (.ifText (fun text => text.head? == some '-')
        (.seq (.note .here fun _ => .gluedRangeEnd) integer) .accept)
      .accept)]

end Grammar

/-- What a rule makes of a text without errors. -/
structure Rule.Derives (rule : Rule) (reader : Reader) : Prop where
  start : ∀ {cursor : Cursor} {reading : Reading}, cursor.Clean false →
    reader cursor = some reading → reading.IsClean → rule.first.contains cursor.kind = true →
      reading.accepted = true ∧ reading.Completes rule.makes ∧ reading.cursor.Clean false
  idle : ∀ {cursor : Cursor} {reading : Reading}, cursor.Clean false →
    reader cursor = some reading → reading.IsClean → rule.first.contains cursor.kind = false →
      rule.isOptional = true ∧ reading.accepted = false ∧ reading.drafts = [] ∧
        reading.cursor.Clean false

namespace Grammar

variable {call : Rule → Reader} {mark : Token}

section

variable (hcall : ∀ rule : Rule, rule.Derives (call rule))
include hcall

theorem callOutcomes_covers (rule : Rule) : Outlook.Covers (callOutcomes rule) (call rule) := by
  intro point outcomes cursor reading h hadmits hread hclean
  unfold callOutcomes at h
  split at h
  case isTrue => cases h
  case isFalse hquoted =>
    have hquoted : point.quoted = false := by simpa using hquoted
    have hcursor : cursor.Clean false := hquoted ▸ hadmits.clean
    obtain ⟨one, two, hone, htwo, hsubsetOne, hsubsetTwo⟩ := Point.both_eq_some h
    cases hkind : rule.first.contains cursor.kind with
    | true =>
        have hreach := Point.reach_eq_some hone (hadmits.within hkind)
        cases hreach
        obtain ⟨haccepted, hcompletes, hlater⟩ := (hcall rule).start hcursor hread hclean hkind
        refine ⟨_, hsubsetOne (by rw [haccepted]; exact List.mem_singleton.2 rfl), ?_⟩
        have hlast : ({ point with kinds := .full } : Point).Admits reading.cursor :=
          ⟨Kind.Set.contains_full _, hquoted ▸ hlater⟩
        exact Point.leads_leaving hlast hcompletes
    | false =>
        have hreach := Point.reach_eq_some htwo (hadmits.without hkind)
        cases hreach
        obtain ⟨hoptional, haccepted, hdrafts, hlater⟩ :=
          (hcall rule).idle hcursor hread hclean hkind
        refine ⟨_, hsubsetTwo (by rw [hoptional, haccepted]; exact List.mem_singleton.2 rfl), ?_⟩
        refine ⟨⟨Kind.Set.contains_full _, hquoted ▸ hlater⟩, ?_, fun hmoved => ⟨hmoved, hdrafts⟩⟩
        intro kinds hfits
        rw [hdrafts]
        exact ⟨hfits, List.forall_mem_nil _⟩

theorem rangePieceBody_glued {cursor : Cursor} {reading : Reading} (hcursor : cursor.Clean false)
    (hread : rangePieceBody.read call mark cursor = some reading) (hclean : reading.IsClean) :
    Draft.GluedEnd reading.drafts := by
  rintro first last hdrafts hinteger
  obtain ⟨one, hone, two, htwo, rfl⟩ := read_seq_eq_some_iff.1 hread
  obtain ⟨hcleanOne, -⟩ := Reading.isClean_followedBy.1 hclean
  have hvalue : (∃ draft, one.drafts = [draft]) ∧ one.cursor.Clean false := by
    cases hkind : (Rule.value .anywhere).first.contains cursor.kind with
    | true =>
        obtain ⟨-, ⟨draft, hdraft, -⟩, hlater⟩ := (hcall _).start hcursor hone hcleanOne hkind
        exact ⟨⟨draft, hdraft⟩, hlater⟩
    | false => exact absurd ((hcall _).idle hcursor hone hcleanOne hkind).1 (by decide)
  obtain ⟨⟨draft, hdraft⟩, hlater⟩ := hvalue
  have hlast : two.drafts = [last] := by
    simp only [Reading.followedBy, hdraft] at hdrafts
    exact (List.cons.inj hdrafts).2
  simp only [all, ifKind, read_ifAt] at htwo
  split at htwo
  case isTrue hbetween =>
    obtain ⟨three, hthree, four, hfour, rfl⟩ := read_seq_eq_some_iff.1 htwo
    cases hthree
    have hne : one.cursor.kind ≠ .eof := fun heq => by simp [heq] at hbetween
    obtain ⟨rest, htokens⟩ := hlater.tokens_eq hne
    have heq : Draft.token one.cursor.current = last := by
      simp only [Reading.followedBy, Reading.taking, htokens] at hlast
      exact (List.cons.inj hlast).1
    rw [← heq] at hinteger
    have hkind : one.cursor.kind = .integer := hinteger
    simp [hkind] at hbetween
  case isFalse =>
    rw [read_ifAt] at htwo
    split at htwo
    case isTrue hliteral =>
      rw [read_ifText] at htwo
      split at htwo
      case isTrue hsign =>
        obtain ⟨three, hthree, four, hfour, rfl⟩ := read_seq_eq_some_iff.1 htwo
        cases hthree
        obtain ⟨inner, hinner, rfl⟩ := read_group_eq_some_iff.1 hfour
        cases hinner
        have hne : one.cursor.kind ≠ .eof := fun heq => by simp [heq] at hliteral
        obtain ⟨rest, htokens⟩ := hlater.tokens_eq hne
        refine ⟨one.cursor.current, ?_, by simpa using hsign⟩
        simp only [Reading.followedBy, Reading.grouped, Reading.taking, Reading.reporting,
          Cursor.afterReport, htokens] at hlast
        simpa [eq_comm] using hlast
      case isFalse =>
        cases htwo
        cases hlast
    case isFalse =>
      cases htwo
      cases hlast

theorem node_glued {body : Grammar} {kind : Kind} (hpiece : kind = .rangePiece → body = rangePieceBody)
    {point : Point} {wanted : Bool → Bool} {outcomes : List Outcome}
    (h : point.node body.outcomes kind wanted = some outcomes) {cursor : Cursor} {inner : Reading}
    (hadmits : point.Admits cursor) (hread : body.read call mark cursor = some inner)
    (hclean : inner.IsClean) (hkind : kind = .rangePiece) : Draft.GluedEnd inner.drafts := by
  rw [hpiece hkind] at h hread
  have hquoted : point.quoted = false := by
    cases hquoted : point.quoted with
    | false => rfl
    | true =>
        simp [Point.node, Point.entering, rangePieceBody, all, anyValue, Grammar.outcomes,
          callOutcomes, hquoted] at h
  exact rangePieceBody_glued hcall (hquoted ▸ hadmits.clean) hread hclean

end

section Parts

/-! The analysis finds the outcomes of a grammar if it finds those of its parts. -/

variable {first second test yes no body rest : Grammar} {kind : Kind}

theorem seq_covers (hfirst : first.outcomes.Covers (first.read call mark))
    (hsecond : second.outcomes.Covers (second.read call mark)) :
    (seq first second).outcomes.Covers ((seq first second).read call mark) := by
  intro point outcomes cursor reading h hadmits hread hclean
  obtain ⟨before, hbefore, h⟩ := Option.bind_eq_some_iff.1 h
  obtain ⟨one, hone, two, htwo, rfl⟩ := read_seq_eq_some_iff.1 hread
  obtain ⟨hcleanOne, hcleanTwo⟩ := Reading.isClean_followedBy.1 hclean
  obtain ⟨middle, hmiddle, hleads⟩ := hfirst hbefore hadmits hone hcleanOne
  exact Point.gather_leads h hmiddle hleads hsecond htwo hcleanTwo

theorem ifOk_covers (htest : test.outcomes.Covers (test.read call mark))
    (hyes : yes.outcomes.Covers (yes.read call mark))
    (hno : no.outcomes.Covers (no.read call mark)) :
    (ifOk test yes no).outcomes.Covers ((ifOk test yes no).read call mark) := by
  intro point outcomes cursor reading h hadmits hread hclean
  obtain ⟨before, hbefore, h⟩ := Option.bind_eq_some_iff.1 h
  obtain ⟨one, hone, two, htwo, rfl⟩ := read_ifOk_eq_some_iff.1 hread
  obtain ⟨hcleanOne, hcleanTwo⟩ := Reading.isClean_followedBy.1 hclean
  obtain ⟨middle, hmiddle, hleads⟩ := htest hbefore hadmits hone hcleanOne
  refine Point.gather_leads h hmiddle hleads ?_ htwo hcleanTwo
  split
  · exact hyes
  · exact hno

theorem ifAt_covers (among : Kind.Set) (hyes : yes.outcomes.Covers (yes.read call mark))
    (hno : no.outcomes.Covers (no.read call mark)) :
    (ifAt among yes no).outcomes.Covers ((ifAt among yes no).read call mark) := by
  intro point outcomes cursor reading h hadmits hread hclean
  obtain ⟨one, two, hone, htwo, hsubsetOne, hsubsetTwo⟩ := Point.both_eq_some h
  rw [read_ifAt] at hread
  cases hkind : among.contains cursor.kind with
  | true =>
      simp only [hkind, if_true] at hread
      have hwithin := hadmits.within hkind
      obtain ⟨last, hlast, hleads⟩ :=
        hyes (Point.reach_eq_some hone hwithin) hwithin hread hclean
      exact ⟨last, hsubsetOne hlast, hleads.admits, hleads.fits, hleads.idle⟩
  | false =>
      simp only [hkind, Bool.false_eq_true, if_false] at hread
      have hwithout := hadmits.without hkind
      obtain ⟨last, hlast, hleads⟩ :=
        hno (Point.reach_eq_some htwo hwithout) hwithout hread hclean
      exact ⟨last, hsubsetTwo hlast, hleads.admits, hleads.fits, hleads.idle⟩

theorem ifText_covers (holds : Text → Bool) (hyes : yes.outcomes.Covers (yes.read call mark))
    (hno : no.outcomes.Covers (no.read call mark)) :
    (ifText holds yes no).outcomes.Covers ((ifText holds yes no).read call mark) := by
  intro point outcomes cursor reading h hadmits hread hclean
  obtain ⟨one, two, hone, htwo, hsubsetOne, hsubsetTwo⟩ := Point.both_eq_some h
  rw [read_ifText] at hread
  split at hread
  · obtain ⟨last, hlast, hleads⟩ := hyes hone hadmits hread hclean
    exact ⟨last, hsubsetOne hlast, hleads⟩
  · obtain ⟨last, hlast, hleads⟩ := hno htwo hadmits hread hclean
    exact ⟨last, hsubsetTwo hlast, hleads⟩

theorem complain_covers (problem : Problem) :
    (complain problem).outcomes.Covers ((complain problem).read call mark) := by
  intro point outcomes cursor reading h hadmits hread hclean
  simp only [read, hadmits.clean.reported] at hread
  cases hread
  change (if problem.severity = .error then some [] else none) = some outcomes at h
  split at h
  case isTrue herror =>
    have hnone := hclean _ (List.mem_singleton.2 rfl)
    simp [Diagnostic.isError, Diagnostic.severity, herror] at hnone
  case isFalse => cases h

theorem note_covers {problem : Text → Problem}
    (hseverity : ∀ text, (problem text).severity = (problem []).severity) (place : NotePlace) :
    (note place problem).outcomes.Covers ((note place problem).read call mark) := by
  intro point outcomes cursor reading h hadmits hread hclean
  cases hread
  have hnone := hclean _ (List.mem_singleton.2 rfl)
  have hsame := hseverity (noteText place mark cursor.current)
  change (if (problem []).severity = .error then some [] else some [(true, point)]) =
    some outcomes at h
  split at h
  case isTrue herror =>
    simp [Diagnostic.isError, Diagnostic.severity, hsame, herror] at hnone
  case isFalse =>
    cases h
    exact ⟨point, List.mem_singleton.2 rfl, ⟨hadmits.kind, hadmits.clean.afterReport hnone⟩,
      fun _ hfits => ⟨hfits, List.forall_mem_nil _⟩, fun hmoved => ⟨hmoved, rfl⟩⟩

theorem group_covers (hcall : ∀ rule : Rule, rule.Derives (call rule)) {accepted rejected : Kind}
    (hpiece : accepted = .rangePiece ∨ rejected = .rangePiece → body = rangePieceBody)
    (hbody : body.outcomes.Covers (body.read call mark)) :
    (group body accepted rejected).outcomes.Covers
      ((group body accepted rejected).read call mark) := by
  intro point outcomes cursor reading h hadmits hread hclean
  obtain ⟨inner, hinner, rfl⟩ := read_group_eq_some_iff.1 hread
  have hcursor : (inner.grouped accepted rejected).cursor = inner.cursor := rfl
  change (if accepted = rejected then _ else _) = some outcomes at h
  split at h
  case isTrue heq =>
    subst heq
    exact Point.node_leads hbody h hadmits hinner hclean rfl
      (node_glued hcall (fun hkind => hpiece (.inl hkind)) h hadmits hinner hclean) rfl
      (by simp [Reading.grouped])
  case isFalse =>
    obtain ⟨one, two, hone, htwo, hsubsetOne, hsubsetTwo⟩ := Point.both_eq_some h
    cases haccepted : inner.accepted with
    | true =>
        have hglued :=
          node_glued hcall (fun hkind => hpiece (.inl hkind)) hone hadmits hinner hclean
        have hdrafts : (inner.grouped accepted rejected).drafts =
            [.node accepted inner.drafts] := by simp [Reading.grouped, haccepted]
        obtain ⟨last, hlast, hleads⟩ :=
          Point.node_leads hbody hone hadmits hinner hclean haccepted hglued hcursor hdrafts
        exact ⟨last, hsubsetOne hlast, hleads⟩
    | false =>
        have hglued :=
          node_glued hcall (fun hkind => hpiece (.inr hkind)) htwo hadmits hinner hclean
        have hdrafts : (inner.grouped accepted rejected).drafts =
            [.node rejected inner.drafts] := by simp [Reading.grouped, haccepted]
        obtain ⟨last, hlast, hleads⟩ := Point.node_leads hbody htwo hadmits hinner hclean
          (by simp [haccepted]) hglued hcursor hdrafts
        exact ⟨last, hsubsetTwo hlast, hleads⟩

theorem grow_covers (hkind : kind ≠ .rangePiece)
    (hfirst : first.outcomes.Covers (first.read call mark))
    (hrest : rest.outcomes.Covers (rest.read call mark)) :
    (grow first kind rest).outcomes.Covers ((grow first kind rest).read call mark) := by
  intro point outcomes cursor reading h hadmits hread hclean
  obtain ⟨one, hone, hread⟩ := read_grow_eq_some_iff.1 hread
  split at hread
  case isTrue haccepted =>
    obtain ⟨two, htwo, rfl⟩ := hread
    obtain ⟨hcleanOne, hcleanTwo⟩ : one.IsClean ∧ two.IsClean := by
      split at hclean
      · exact Reading.isClean_grownBy.1 hclean
      · exact Reading.isClean_followedBy.1 hclean
    have halone := Point.alone_eq_some hfirst h hadmits hone hcleanOne
    rw [if_pos haccepted] at halone
    obtain ⟨hcompletes, middle, hmiddle, here, hhere, hsubset⟩ := halone
    simp only [Option.bind_eq_bind, Option.bind_eq_some_iff] at hhere
    obtain ⟨grown, hgrown, hhere⟩ := hhere
    cases hhere
    obtain ⟨last, hlast, hgrowth⟩ := Point.growth_eq_some hrest
      hkind hgrown ⟨hmiddle.kind, hmiddle.clean⟩ hcompletes htwo hcleanTwo
    refine ⟨last, hsubset (List.mem_map.2 ⟨_, hlast, ?_⟩), ?_⟩
    · split
      case isTrue htrue => simp [Reading.grownBy, Reading.followedBy, htrue]
      case isFalse => rfl
    · split at hgrowth
      case isTrue htrue =>
        rw [if_pos htrue]
        exact hgrowth.2.2
      case isFalse hfalse =>
        rw [if_neg hfalse]
        exact hgrowth.withAccepted true
  case isFalse haccepted =>
    subst hread
    have halone := Point.alone_eq_some hfirst h hadmits hone hclean
    rw [if_neg haccepted] at halone
    simpa [haccepted] using halone

theorem growAll_covers (hkind : kind ≠ .rangePiece)
    (hfirst : first.outcomes.Covers (first.read call mark))
    (hrest : rest.outcomes.Covers (rest.read call mark)) :
    (growAll first kind rest).outcomes.Covers ((growAll first kind rest).read call mark) := by
  intro point outcomes cursor reading h hadmits hread hclean
  change point.alone first.outcomes (first.makes.union (.singleton kind)) (fun behind =>
    behind.loop (point.growth (first.makes.union (.singleton kind)) kind rest.outcomes)) =
      some outcomes at h
  obtain ⟨one, hone, hread⟩ := read_growAll_eq_some_iff.1 hread
  split at hread
  case isTrue haccepted =>
    have hcleanOne := Point.isClean_of_growAll hread hclean
    have halone := Point.alone_eq_some hfirst h hadmits hone hcleanOne
    rw [if_pos haccepted] at halone
    obtain ⟨hcompletes, middle, hmiddle, here, hhere, hsubset⟩ := halone
    -- the explored points are an invariant of the rounds
    obtain ⟨points, hstart, hpoints⟩ := Point.loop_eq_some hhere
    obtain ⟨last, hlast, hleads⟩ := Point.growAll_leads hrest hkind
      (by simp) hpoints hstart ⟨hmiddle.kind, hmiddle.clean⟩ hcompletes hread hclean
    exact ⟨last, hsubset hlast, hleads⟩
  case isFalse haccepted =>
    subst hread
    have halone := Point.alone_eq_some hfirst h hadmits hone hclean
    rw [if_neg haccepted] at halone
    simpa [haccepted] using halone

theorem loop_covers (hbody : body.outcomes.Covers (body.read call mark)) :
    (loop body).outcomes.Covers ((loop body).read call mark) := by
  intro point outcomes cursor reading h hadmits hread hclean
  obtain ⟨points, hstart, hpoints⟩ := Point.loop_eq_some h
  obtain ⟨last, hlast, hleads⟩ := Point.loop_covers hbody hpoints hstart
    ⟨hadmits.kind, hadmits.clean⟩ hread hclean
  exact ⟨last, hlast, hleads.ofMoved⟩

theorem ne_rangePiece_of_grow (h : ∀ part ∈ bodiesOf .rangePiece (grow first kind rest),
    part = rangePieceBody) : kind ≠ .rangePiece := by
  rintro rfl
  have heq := h (grow first .rangePiece rest) (by simp [bodiesOf])
  simp [rangePieceBody, all] at heq

theorem ne_rangePiece_of_growAll (h : ∀ part ∈ bodiesOf .rangePiece (growAll first kind rest),
    part = rangePieceBody) : kind ≠ .rangePiece := by
  rintro rfl
  have heq := h (growAll first .rangePiece rest) (by simp [bodiesOf])
  simp [rangePieceBody, all] at heq

end Parts

/-- The analysis finds the outcomes of all readings without errors. -/
theorem outcomes_covers (hcall : ∀ rule : Rule, rule.Derives (call rule)) {grammar : Grammar}
    (hnotes : ∀ note ∈ grammar.notes, ∀ text, (note text).severity = (note []).severity)
    (hpieces : ∀ body ∈ grammar.bodiesOf .rangePiece, body = rangePieceBody) (mark : Token) :
    grammar.outcomes.Covers (grammar.read call mark) := by
  induction grammar generalizing mark with
  | accept =>
      intro point outcomes cursor reading h hadmits hread hclean
      cases h
      cases hread
      exact ⟨point, List.mem_singleton.2 rfl, Point.leads_idle true hadmits⟩
  | reject =>
      intro point outcomes cursor reading h hadmits hread hclean
      cases h
      cases hread
      exact ⟨point, List.mem_singleton.2 rfl, Point.leads_idle false hadmits⟩
  | unreachable =>
      intro point outcomes cursor reading h hadmits hread hclean
      cases hread
  | bump =>
      intro point outcomes cursor reading h hadmits hread hclean
      cases hread
      obtain ⟨behind, hbehind, heq⟩ := Option.map_eq_some_iff.1 h
      cases heq
      exact ⟨behind, List.mem_singleton.2 rfl, Point.leads_bump hbehind hadmits⟩
  | skip recovery =>
      intro point outcomes cursor reading h hadmits hread hclean
      cases h
  | seq first second ihFirst ihSecond =>
      simp only [notes, bodiesOf, List.forall_mem_append] at hnotes hpieces
      exact seq_covers (ihFirst hnotes.1 hpieces.1 mark) (ihSecond hnotes.2 hpieces.2 mark)
  | ifOk test yes no ihTest ihYes ihNo =>
      simp only [notes, bodiesOf, List.forall_mem_append] at hnotes hpieces
      exact ifOk_covers (ihTest hnotes.1 hpieces.1 mark) (ihYes hnotes.2.1 hpieces.2.1 mark)
        (ihNo hnotes.2.2 hpieces.2.2 mark)
  | ifAt among yes no ihYes ihNo =>
      simp only [notes, bodiesOf, List.forall_mem_append] at hnotes hpieces
      exact ifAt_covers among (ihYes hnotes.1 hpieces.1 mark) (ihNo hnotes.2 hpieces.2 mark)
  | ifText holds yes no ihYes ihNo =>
      simp only [notes, bodiesOf, List.forall_mem_append] at hnotes hpieces
      exact ifText_covers holds (ihYes hnotes.1 hpieces.1 mark) (ihNo hnotes.2 hpieces.2 mark)
  | complain problem => exact complain_covers problem
  | note place problem =>
      exact note_covers (hnotes problem (List.mem_singleton.2 rfl)) place
  | marked body ih =>
      intro point outcomes cursor reading h hadmits hread hclean
      exact ih hnotes hpieces cursor.current h hadmits hread hclean
  | group body accepted rejected ih =>
      simp only [bodiesOf, List.forall_mem_append] at hpieces
      exact group_covers hcall (fun hkind => hpieces.1 body (by simp [hkind]))
        (ih hnotes hpieces.2 mark)
  | grow first kind rest ihFirst ihRest =>
      have hkind := ne_rangePiece_of_grow hpieces
      simp only [notes, bodiesOf, List.forall_mem_append] at hnotes hpieces
      exact grow_covers hkind (ihFirst hnotes.1 hpieces.2.1 mark) (ihRest hnotes.2 hpieces.2.2 mark)
  | growAll first kind rest ihFirst ihRest =>
      have hkind := ne_rangePiece_of_growAll hpieces
      simp only [notes, bodiesOf, List.forall_mem_append] at hnotes hpieces
      exact growAll_covers hkind (ihFirst hnotes.1 hpieces.2.1 mark)
        (ihRest hnotes.2 hpieces.2.2 mark)
  | loop body ih => exact loop_covers (ih hnotes hpieces mark)
  | call rule => exact callOutcomes_covers hcall rule

end Grammar

namespace Rule

theorem severity_notes (rule : Rule) :
    ∀ note ∈ rule.grammar.notes, ∀ text, (note text).severity = (note []).severity := by
  intro note hmem
  have hnoted := rule.notes_subset hmem
  simp only [Problem.noted, List.mem_cons, List.not_mem_nil, or_false] at hnoted
  rcases hnoted with rfl | rfl | rfl | rfl | rfl | rfl <;> exact fun _ => rfl

theorem rangePiece_bodies (rule : Rule) :
    ∀ body ∈ rule.grammar.bodiesOf .rangePiece, body = Grammar.rangePieceBody := by
  have hall (rule : Rule) : ∃ count,
      rule.grammar.bodiesOf .rangePiece = List.replicate count Grammar.rangePieceBody := by
    rcases rule with _ | place | place
    · exact ⟨0, rfl⟩
    · cases place with
      | anywhere => exact ⟨2, rfl⟩
      | recordName => exact ⟨1, rfl⟩
    · cases place with
      | topLevel => exact ⟨5, rfl⟩
      | multiclass => exact ⟨10, rfl⟩
  obtain ⟨count, hcount⟩ := hall rule
  rw [hcount]
  exact fun body => List.eq_of_mem_replicate

def startPoint (rule : Rule) : Point := ⟨.one rule.makes, rule.first, false, false⟩

def idlePoint (rule : Rule) : Point :=
  ⟨.one rule.makes, Kind.Set.full.diff rule.first, false, false⟩

def startsWell (rule : Rule) : Bool :=
  (rule.grammar.outcomes rule.startPoint).any fun outcomes =>
    outcomes.all fun outcome =>
      outcome.1 && (outcome.2.residual.isNullable && !outcome.2.quoted)

def idlesWell (rule : Rule) : Bool :=
  (rule.grammar.outcomes rule.idlePoint).any fun outcomes =>
    outcomes.all fun outcome =>
      rule.isOptional && (!outcome.1 && (!outcome.2.moved && !outcome.2.quoted))

theorem startsWell_and_idlesWell (rule : Rule) :
    rule.startsWell = true ∧ rule.idlesWell = true := by
  rcases rule with _ | place | place
  · decide +kernel
  · cases place <;> decide +kernel
  · cases place <;> decide +kernel

theorem derives_read (depth : Nat) (rule : Rule) : rule.Derives (Rule.read depth rule) := by
  induction depth generalizing rule with
  | zero =>
      constructor
      · intro cursor reading _ hread
        cases hread
      · intro cursor reading _ hread
        cases hread
  | succ depth ih =>
      obtain ⟨hstarts, hidles⟩ := rule.startsWell_and_idlesWell
      have hcovers (cursor : Cursor) := Grammar.outcomes_covers ih rule.severity_notes
        rule.rangePiece_bodies cursor.current
      constructor
      · intro cursor reading hcursor hread hclean hkind
        obtain ⟨outcomes, houtcomes, hall⟩ := (Option.any_eq_true _ _).1 hstarts
        obtain ⟨last, hlast, hleads⟩ := hcovers cursor houtcomes ⟨hkind, hcursor⟩ hread hclean
        have hends := List.all_eq_true.1 hall _ hlast
        simp only [Bool.and_eq_true, Bool.not_eq_true'] at hends
        obtain ⟨haccepted, hnullable, hquoted⟩ := hends
        obtain ⟨hfits, hderived⟩ := hleads.fits [] (Production.fits_nil hnullable)
        rw [List.append_nil] at hfits
        exact ⟨haccepted, Point.completes_of_fits hfits hderived, hquoted ▸ hleads.admits.clean⟩
      · intro cursor reading hcursor hread hclean hkind
        obtain ⟨outcomes, houtcomes, hall⟩ := (Option.any_eq_true _ _).1 hidles
        obtain ⟨last, hlast, hleads⟩ := hcovers cursor houtcomes
          ⟨by simp [idlePoint, hkind], hcursor⟩ hread hclean
        have hends := List.all_eq_true.1 hall _ hlast
        simp only [Bool.and_eq_true, Bool.not_eq_true'] at hends
        obtain ⟨hoptional, haccepted, hmoved, hquoted⟩ := hends
        exact ⟨hoptional, haccepted, (hleads.idle hmoved).2, hquoted ▸ hleads.admits.clean⟩

end Rule

/-! ## Files -/

namespace Grammar

theorem outcomes_file :
    (file.outcomes ⟨.ofKind .sourceFile, .full, false, false⟩).any fun outcomes =>
      outcomes.all fun outcome => outcome.2.residual == .ofKind .sourceFile := by
  decide +kernel

theorem severity_notes_file :
    ∀ note ∈ file.notes, ∀ text, (note text).severity = (note []).severity := by
  intro note hmem
  cases hmem

theorem run_file_derived {cursor : Cursor} {reading : Reading} (hcursor : cursor.Clean false)
    (hread : file.run cursor = some reading) (hclean : reading.IsClean) :
    (Production.ofKind .sourceFile).Fits (reading.drafts.map Draft.kind ++ [.eof]) ∧
      ∀ draft ∈ reading.drafts, draft.Derived := by
  obtain ⟨outcomes, houtcomes, hall⟩ := (Option.any_eq_true _ _).1 outcomes_file
  obtain ⟨last, hlast, hleads⟩ := outcomes_covers (Rule.derives_read _) severity_notes_file
    (fun _ hbody => nomatch hbody) cursor.current houtcomes ⟨Kind.Set.contains_full _, hcursor⟩
    hread hclean
  have hend := List.all_eq_true.1 hall _ hlast
  rw [beq_iff_eq] at hend
  refine hleads.fits [.eof] ?_
  rw [hend]
  exact .seq .stop (.one (by decide))

end Grammar

end TdSyntax
