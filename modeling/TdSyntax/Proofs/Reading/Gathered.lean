import TdSyntax.Proofs.Reading.Singles
import TdSyntax.Proofs.Reading.Strays

/-!
# Keywords open statements

Wherever the grammar takes a token, it knows of it that it is no keyword of a statement, or it
takes it for the keyword of the node that it begins, or the token goes into an error node.
-/

namespace TdSyntax

/-- What a part of a node may hold besides nodes: any tokens, tokens that are no keywords of
statements, or such tokens behind a keyword. -/
inductive Voice where
  | loud
  | quiet
  | opening (keyword : Kind)
  deriving DecidableEq, Repr

namespace Voice

def behind : Voice → Voice
  | .loud => .loud
  | .quiet | .opening _ => .quiet

def isFree : Voice → Bool
  | .loud | .quiet => true
  | .opening _ => false

def allows (kinds : Kind.Set) : Voice → Bool
  | .loud => true
  | .quiet => (kinds.inter Grammar.statementFirst).isEmpty
  | .opening keyword => (kinds.diff (.singleton keyword)).isEmpty && !kinds.contains .eof

def Fits : Voice → List Draft → Prop
  | .loud, _ => True
  | .quiet, parts => ∀ part ∈ parts, part.isKeyword = false
  | .opening keyword, parts => ∃ token rest, parts = .token token :: rest ∧ token.kind = keyword ∧
      ∀ part ∈ rest, part.isKeyword = false

variable {voice : Voice} {parts rest : List Draft} {kind keyword : Kind}

theorem behind_of_isFree (h : voice.isFree = true) : voice.behind = voice := by
  cases voice with
  | loud | quiet => rfl
  | opening keyword => cases h

theorem fits_of_quiet (h : voice.isFree = true) (hparts : ∀ part ∈ parts, part.isKeyword = false) :
    voice.Fits parts := by
  cases voice with
  | loud => trivial
  | quiet => exact hparts
  | opening keyword => cases h

theorem Fits.append (h : voice.Fits parts) (h' : voice.behind.Fits rest) :
    voice.Fits (parts ++ rest) := by
  cases voice with
  | loud => trivial
  | quiet => exact List.forall_mem_append.2 ⟨h, h'⟩
  | opening keyword =>
      obtain ⟨token, others, rfl, hkind, hothers⟩ := h
      exact ⟨token, others ++ rest, rfl, hkind, List.forall_mem_append.2 ⟨hothers, h'⟩⟩

theorem Fits.opened_plain (h : quiet.Fits parts) (hkind : kind.opener? = none) :
    Draft.Opened kind parts :=
  .plain hkind h

theorem Fits.opened_keyword (h : (opening keyword).Fits parts)
    (hkind : kind.opener? = some keyword) : Draft.Opened kind parts := by
  obtain ⟨token, rest, rfl, rfl, hrest⟩ := h
  exact .keyword hkind hrest

end Voice

namespace Grammar

/-- Whether the nodes that the grammar makes are gathered and the rest fits a voice, if the
current token is of some kinds. -/
def gathers (voice : Voice) (kinds : Kind.Set) : Grammar → Bool
  | .accept | .reject | .complain _ | .note _ _ | .call _ => voice.isFree
  | .unreachable => true
  | .bump => voice.allows kinds
  | .skip _ => voice == .loud
  | .seq first second =>
      gathers voice kinds first && gathers voice.behind (first.kindsBehind kinds) second
  | .ifOk test yes no =>
      gathers voice kinds test && (gathers voice.behind .full yes && gathers voice.behind .full no)
  | .ifAt among yes no =>
      ((kinds.inter among).isEmpty || gathers voice (kinds.inter among) yes) &&
        ((kinds.diff among).isEmpty || gathers voice (kinds.diff among) no)
  | .ifText _ yes no => gathers voice kinds yes && gathers voice kinds no
  | .marked body => gathers voice kinds body
  | .loop body => voice.isFree && gathers voice .full body
  | .group body accepted rejected =>
      voice.isFree &&
        (if accepted = .error ∧ rejected = .error then gathers .loud kinds body
        else match accepted.opener? with
          | some keyword => rejected == accepted && gathers (.opening keyword) kinds body
          | none => rejected.opener? == none && gathers .quiet kinds body) &&
        (!(accepted.listsStatements || rejected.listsStatements) ||
          (body.trail .clear).isSome)
  | .grow first kind rest | .growAll first kind rest =>
      voice.isFree && (kind.opener? == none && !kind.listsStatements) &&
        (gathers .quiet kinds first && gathers .quiet .full rest)

end Grammar

structure Reading.Gathers (voice : Voice) (reading : Reading) (cursor : Cursor) : Prop where
  eof : reading.cursor.eof = cursor.eof
  drafts : ∀ draft ∈ reading.drafts, draft.Gathered
  fits : voice.Fits reading.drafts

namespace Reading

variable {voice : Voice}

theorem silent_gathers (h : voice.isFree = true) {reading : Reading} {cursor : Cursor}
    (heof : reading.cursor.eof = cursor.eof) (hdrafts : reading.drafts = []) :
    reading.Gathers voice cursor :=
  ⟨heof, hdrafts ▸ List.forall_mem_nil _,
    Voice.fits_of_quiet h (hdrafts ▸ List.forall_mem_nil _)⟩

theorem taking_gathered (count : Nat) (cursor : Cursor) :
    ∀ draft ∈ (taking count cursor).drafts, draft.Gathered :=
  taking_makes .token count cursor

theorem bump_gathers {kinds : Kind.Set} (h : voice.allows kinds = true) {cursor : Cursor}
    (hkind : kinds.contains cursor.kind = true) (heof : cursor.eof.kind = .eof) :
    (taking 1 cursor).Gathers voice cursor := by
  refine ⟨rfl, taking_gathered 1 cursor, ?_⟩
  cases voice with
  | loud => trivial
  | quiet =>
      intro part hmem
      obtain ⟨token, htoken, rfl⟩ := List.mem_map.1 hmem
      have hcurrent : cursor.kind = token.kind := by
        cases htokens : cursor.tokens with
        | nil => simp [htokens] at htoken
        | cons first rest =>
            obtain rfl : token = first := by simpa [htokens] using htoken
            simp [Cursor.kind, Cursor.current, htokens]
      have hquiet := Kind.Set.contains_of_isEmpty h cursor.kind
      rw [Kind.Set.contains_inter, hkind, Bool.true_and, hcurrent] at hquiet
      exact hquiet
  | opening keyword =>
      simp only [Voice.allows, Bool.and_eq_true, Bool.not_eq_true'] at h
      have hne : cursor.kind ≠ .eof := by
        intro hend
        rw [hend, h.2] at hkind
        cases hkind
      obtain ⟨token, rest, htokens⟩ :=
        List.exists_cons_of_length_pos (cursor.tokens_ne_nil heof hne)
      have hcurrent := Kind.Set.contains_of_isEmpty h.1 cursor.kind
      simp only [Kind.Set.contains_diff, hkind, Bool.true_and, Bool.not_eq_false',
        Kind.Set.contains_singleton, decide_eq_true_eq] at hcurrent
      refine ⟨token, [], by simp [taking, htokens], ?_, List.forall_mem_nil _⟩
      rw [hcurrent, Cursor.kind, Cursor.current, htokens]
      rfl

namespace Gathers

variable {first second reading : Reading} {cursor : Cursor} {kind accepted rejected : Kind}

theorem followedBy (h : first.Gathers voice cursor)
    (h' : second.Gathers voice.behind first.cursor) :
    (first.followedBy second).Gathers voice cursor where
  eof := h'.eof.trans h.eof
  drafts := List.forall_mem_append.2 ⟨h.drafts, h'.drafts⟩
  fits := h.fits.append h'.fits

theorem withAccepted (h : reading.Gathers voice cursor) (accepted : Bool) :
    (reading.withAccepted accepted).Gathers voice cursor := ⟨h.eof, h.drafts, h.fits⟩

theorem of_quiet (h : reading.Gathers .quiet cursor) (hfree : voice.isFree = true) :
    reading.Gathers voice cursor :=
  ⟨h.eof, h.drafts, Voice.fits_of_quiet hfree h.fits⟩

theorem grownBy (h : first.Gathers .quiet cursor) (h' : second.Gathers .quiet first.cursor)
    (hkind : kind.opener? = none) (hlists : kind.listsStatements = false) :
    (first.grownBy second kind).Gathers .quiet cursor := by
  have hboth : ∀ draft ∈ Draft.growLast kind first.drafts second.drafts,
      draft.Gathered ∧ draft.isKeyword = false := by
    refine Draft.forall_mem_growLast ?_ (fun draft hmem => ⟨h.drafts draft hmem, h.fits draft hmem⟩)
      (fun draft hmem => ⟨h'.drafts draft hmem, h'.fits draft hmem⟩)
    intro draft parts hshape hparts
    refine ⟨.node hshape (.plain hkind fun part hmem => (hparts part hmem).2) ?_
      fun part hmem => (hparts part hmem).1, ?_⟩
    · intro hlisted
      cases hlists.symm.trans hlisted
    · cases draft with
      | token content => cases hshape
      | node | grown => rfl
  exact ⟨h'.eof.trans h.eof, fun draft hmem => (hboth draft hmem).1,
    fun draft hmem => (hboth draft hmem).2⟩

theorem grouped {inner : Voice} (h : reading.Gathers inner cursor) (hfree : voice.isFree = true)
    (hopened : Draft.Opened (if reading.accepted then accepted else rejected) reading.drafts)
    (hapart : (accepted.listsStatements || rejected.listsStatements) = true →
      Draft.Apart reading.drafts) :
    (reading.grouped accepted rejected).Gathers voice cursor := by
  refine ⟨h.eof, List.forall_mem_singleton.2 (.node rfl hopened ?_ h.drafts),
    Voice.fits_of_quiet hfree (List.forall_mem_singleton.2 rfl)⟩
  intro hlists
  refine hapart ?_
  split at hlists <;> simp [hlists]

end Gathers

end Reading

def Reader.Gathers (voice : Voice) (reader : Reader) : Prop :=
  ∀ cursor reading, cursor.eof.kind = .eof → reader cursor = some reading →
    reading.Gathers voice cursor

namespace Reader

variable {voice : Voice} {body : Reader}

theorem loop_gathers (hfree : voice.isFree = true) (h : body.Gathers voice) (rounds : Nat) :
    (loop body rounds).Gathers voice := by
  intro cursor reading heof hread
  refine loop_induction h (fun heof hround => hround.eof ▸ heof) ?_
    (fun hround => hround.withAccepted true) rounds heof hread
  intro cursor first second hfirst hsecond
  exact hfirst.followedBy ((Voice.behind_of_isFree hfree).symm ▸ hsecond)

theorem growAll_gathers (h : body.Gathers .quiet) {kind : Kind} (hkind : kind.opener? = none)
    (hlists : kind.listsStatements = false) (rounds : Nat) {sofar reading : Reading}
    {cursor : Cursor} (heof : cursor.eof.kind = .eof) (hsofar : sofar.Gathers .quiet cursor)
    (hread : growAll kind body rounds sofar = some reading) : reading.Gathers .quiet cursor :=
  growAll_induction h (fun heof hround => hround.eof ▸ heof) .followedBy
    (fun hround => hround.withAccepted true)
    (fun hfirst hsecond => hfirst.grownBy hsecond hkind hlists) rounds cursor heof hsofar hread

end Reader

namespace Grammar

variable {call : Rule → Reader}

theorem group_gathers {body : Grammar} {accepted rejected : Kind} {voice : Voice}
    {kinds : Kind.Set} (h : (Grammar.group body accepted rejected).gathers voice kinds = true)
    {cursor : Cursor} {inner : Reading}
    (hinner : ∀ {voice}, body.gathers voice kinds = true → inner.Gathers voice cursor)
    (htrail : (body.trail .clear).isSome = true → Draft.Apart inner.drafts) :
    (inner.grouped accepted rejected).Gathers voice cursor := by
  simp only [gathers, Bool.and_eq_true, Bool.or_eq_true, Bool.not_eq_true'] at h
  obtain ⟨⟨hfree, hbody⟩, hlists⟩ := h
  have hapart : (accepted.listsStatements || rejected.listsStatements) = true →
      Draft.Apart inner.drafts := by
    intro hlisted
    rcases hlists with hnone | hsome
    · cases hnone.symm.trans hlisted
    · exact htrail hsome
  split at hbody
  case isTrue herror =>
    obtain ⟨rfl, rfl⟩ := herror
    refine (hinner hbody).grouped hfree ?_ hapart
    rw [ite_self]
    exact .error inner.drafts
  case isFalse =>
    split at hbody
    case h_1 keyword hopener =>
      simp only [Bool.and_eq_true, beq_iff_eq] at hbody
      obtain ⟨rfl, hbody⟩ := hbody
      refine (hinner hbody).grouped hfree ?_ hapart
      rw [ite_self]
      exact (hinner hbody).fits.opened_keyword hopener
    case h_2 hopener =>
      simp only [Bool.and_eq_true, beq_iff_eq] at hbody
      refine (hinner hbody.2).grouped hfree ((hinner hbody.2).fits.opened_plain ?_) hapart
      split
      · exact hopener
      · exact hbody.1

theorem read_gathers (hknown : Known call) (hcall : ∀ rule, (call rule).Gathers .quiet)
    (grammar : Grammar) {voice : Voice} {kinds : Kind.Set} (h : grammar.gathers voice kinds = true) (mark : Token) {cursor : Cursor}
    {reading : Reading} (hkind : kinds.contains cursor.kind = true) (heof : cursor.eof.kind = .eof)
    (hread : grammar.read call mark cursor = some reading) : reading.Gathers voice cursor := by
  have hfull (cursor : Cursor) : Kind.Set.full.contains cursor.kind = true :=
    Kind.Set.contains_full _
  induction grammar generalizing voice kinds mark cursor reading with
  | accept | reject | note =>
      cases hread
      exact Reading.silent_gathers h rfl rfl
  | unreachable => cases hread
  | complain problem =>
      obtain ⟨hdrafts, -, hend, -⟩ := read_complain hread
      exact Reading.silent_gathers h hend hdrafts
  | bump =>
      cases hread
      exact Reading.bump_gathers h hkind heof
  | skip recovery =>
      obtain rfl := eq_of_beq h
      cases hread
      exact ⟨rfl, Reading.taking_gathered _ cursor, trivial⟩
  | seq first second ihFirst ihSecond =>
      simp only [gathers, Bool.and_eq_true] at h
      obtain ⟨one, hone, two, htwo, rfl⟩ := read_seq_eq_some_iff.1 hread
      have hfirst := ihFirst h.1 mark hkind heof hone
      exact hfirst.followedBy
        (ihSecond h.2 mark (read_kindsBehind hkind hone) (hfirst.eof ▸ heof) htwo)
  | ifOk test yes no ihTest ihYes ihNo =>
      simp only [gathers, Bool.and_eq_true] at h
      obtain ⟨one, hone, two, htwo, rfl⟩ := read_ifOk_eq_some_iff.1 hread
      have htest := ihTest h.1 mark hkind heof hone
      have hnext := htest.eof ▸ heof
      split at htwo
      · exact htest.followedBy (ihYes h.2.1 mark (hfull _) hnext htwo)
      · exact htest.followedBy (ihNo h.2.2 mark (hfull _) hnext htwo)
  | ifAt among yes no ihYes ihNo =>
      simp only [gathers, Bool.and_eq_true, Bool.or_eq_true] at h
      rw [read_ifAt] at hread
      split at hread
      case isTrue hamong =>
        have hinter : (kinds.inter among).contains cursor.kind = true := by simp [hkind, hamong]
        exact ihYes (h.1.resolve_left (Kind.Set.not_isEmpty hinter)) mark hinter heof hread
      case isFalse hamong =>
        have hdiff : (kinds.diff among).contains cursor.kind = true := by simp [hkind, hamong]
        exact ihNo (h.2.resolve_left (Kind.Set.not_isEmpty hdiff)) mark hdiff heof hread
  | ifText test yes no ihYes ihNo =>
      simp only [gathers, Bool.and_eq_true] at h
      rw [read_ifText] at hread
      split at hread
      · exact ihYes h.1 mark hkind heof hread
      · exact ihNo h.2 mark hkind heof hread
  | marked body ih => exact ih h cursor.current hkind heof hread
  | group body accepted rejected ih =>
      obtain ⟨inner, hinner, rfl⟩ := read_group_eq_some_iff.1 hread
      exact group_gathers h (fun hbody => ih hbody mark hkind heof hinner)
        fun htrail => read_apart hknown htrail heof hinner
  | grow first kind rest ihFirst ihRest =>
      simp only [gathers, Bool.and_eq_true, beq_iff_eq, Bool.not_eq_true'] at h
      obtain ⟨⟨hfree, hopener, hlists⟩, hfirst, hrest⟩ := h
      refine Reading.Gathers.of_quiet ?_ hfree
      obtain ⟨one, hone, hread⟩ := read_grow_eq_some_iff.1 hread
      have hbefore := ihFirst hfirst mark hkind heof hone
      split at hread
      · obtain ⟨two, htwo, rfl⟩ := hread
        have hbehind := ihRest hrest mark (hfull _) (hbefore.eof ▸ heof) htwo
        split
        · exact hbefore.grownBy hbehind hopener hlists
        · exact (hbefore.followedBy hbehind).withAccepted true
      · rw [hread]
        exact hbefore
  | growAll first kind rest ihFirst ihRest =>
      simp only [gathers, Bool.and_eq_true, beq_iff_eq, Bool.not_eq_true'] at h
      obtain ⟨⟨hfree, hopener, hlists⟩, hfirst, hrest⟩ := h
      refine Reading.Gathers.of_quiet ?_ hfree
      obtain ⟨one, hone, hread⟩ := read_growAll_eq_some_iff.1 hread
      have hbefore := ihFirst hfirst mark hkind heof hone
      split at hread
      · refine Reader.growAll_gathers ?_ hopener hlists _ heof hbefore hread
        exact fun _ _ hend hround => ihRest hrest mark (hfull _) hend hround
      · rw [hread]
        exact hbefore
  | loop body ih =>
      simp only [gathers, Bool.and_eq_true] at h
      refine Reader.loop_gathers h.1 ?_ _ _ _ heof hread
      exact fun _ _ hend hround => ih h.2 mark (hfull _) hend hround
  | call rule => exact (hcall rule _ _ heof hread).of_quiet h

end Grammar

namespace Rule

theorem gathers (rule : Rule) : rule.grammar.gathers .quiet .full = true := by
  rcases rule with _ | place | place
  · decide +kernel
  · cases place <;> decide +kernel
  · cases place <;> decide +kernel

theorem read_gathers (depth : Nat) (rule : Rule) : (Rule.read depth rule).Gathers .quiet := by
  induction depth generalizing rule with
  | zero =>
      intro cursor reading _ hread
      cases hread
  | succ depth ih =>
      intro cursor reading heof hread
      exact Grammar.read_gathers (read_known depth) ih rule.grammar rule.gathers _
        (Kind.Set.contains_full _) heof hread

end Rule

theorem Grammar.run_gathered {cursor : Cursor} {reading : Reading} (heof : cursor.eof.kind = .eof)
    (hread : Grammar.file.run cursor = some reading) :
    reading.Gathers .quiet cursor ∧ Draft.Apart reading.drafts := by
  have hknown := Rule.read_known (cursor.tokens.length + 2)
  exact ⟨read_gathers hknown (Rule.read_gathers _) file (by decide +kernel) _
      (Kind.Set.contains_full _) heof hread,
    read_apart hknown (by decide +kernel) heof hread⟩

end TdSyntax
