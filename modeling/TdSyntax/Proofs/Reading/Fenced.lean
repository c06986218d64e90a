import Mathlib.Data.List.Perm.Basic
import TdSyntax.Proofs.Reading.Free
import TdSyntax.Proofs.Reading.Reports

/-!
# The reports of statements that are fenced off

Whatever is read, an error node in it holds nothing but tokens or a single statement
that a multiclass may not hold, and the structural reports are those of the statements
in error nodes, each at the first token of its statement.
-/

namespace TdSyntax

namespace Grammar

/-- Error nodes hold tokens only, and bodies of multiclasses hold no barred statement. -/
def isFenced : Grammar → Bool
  | .accept | .reject | .unreachable | .bump | .skip _ | .complain _ | .note _ _
  | .call _ => true
  | .seq first second => isFenced first && isFenced second
  | .ifOk test yes no => isFenced test && (isFenced yes && isFenced no)
  | .ifAt _ yes no | .ifText _ yes no => isFenced yes && isFenced no
  | .marked body | .loop body => isFenced body
  | .group body accepted rejected =>
      if accepted = .error && rejected = .error then isFlat body && isFenced body
      else accepted != .error && (rejected != .error && (isFenced body &&
        ((accepted != .multiclassBody && rejected != .multiclassBody) || isFree .full body)))
  | .grow first kind rest | .growAll first kind rest =>
      isFenced first && (isFenced rest && (kind != .error && kind != .multiclassBody))

end Grammar

def Diagnostic.isStructural (diagnostic : Diagnostic) : Bool := diagnostic.stage == .structural

def Token.misplaced (keyword : Token) : Diagnostic :=
  ⟨.notInMulticlass keyword.text, keyword.span⟩

/-- The structural reports of a reading are those of the statements it wraps. -/
structure Reading.Fences (reading : Reading) (cursor : Cursor) : Prop where
  eof : reading.cursor.eof = cursor.eof
  fenced : ∀ draft ∈ reading.drafts, draft.Fenced
  reports : (reading.diagnostics.filter Diagnostic.isStructural).Perm
    ((Draft.wrappedAll reading.drafts).map Token.misplaced)

namespace Reading

theorem idle_fences (accepted : Bool) (cursor : Cursor) : (idle accepted cursor).Fences cursor :=
  ⟨rfl, List.forall_mem_nil _, .nil⟩

theorem taking_fences (count : Nat) (cursor : Cursor) : (taking count cursor).Fences cursor where
  eof := rfl
  fenced := by
    intro draft hmem
    obtain ⟨token, -, rfl⟩ := List.mem_map.1 hmem
    exact .token token
  reports := by
    rw [taking, Draft.wrappedAll_map_token]
    exact .nil

theorem reporting_fences {diagnostic : Diagnostic} (h : diagnostic.problem.stage ≠ .structural)
    (cursor : Cursor) : (reporting diagnostic cursor).Fences cursor where
  eof := rfl
  fenced := List.forall_mem_nil _
  reports := by
    simp [reporting, Diagnostic.isStructural, Diagnostic.stage, h, Draft.wrappedAll]

namespace Fences

variable {first second reading : Reading} {cursor : Cursor}

theorem followedBy (h : first.Fences cursor) (h' : second.Fences first.cursor) :
    (first.followedBy second).Fences cursor where
  eof := h'.eof.trans h.eof
  fenced := List.forall_mem_append.2 ⟨h.fenced, h'.fenced⟩
  reports := by
    simp only [Reading.followedBy, List.filter_append, Draft.wrappedAll_append, List.map_append]
    exact h.reports.append h'.reports

theorem withAccepted (h : reading.Fences cursor) (accepted : Bool) :
    (reading.withAccepted accepted).Fences cursor := ⟨h.eof, h.fenced, h.reports⟩

theorem grownBy (h : first.Fences cursor) (h' : second.Fences first.cursor) {kind : Kind}
    (herror : kind ≠ .error) (hbody : kind ≠ .multiclassBody) :
    (first.grownBy second kind).Fences cursor where
  eof := h'.eof.trans h.eof
  fenced := Draft.forall_mem_growLast
    (fun hshape hparts => .node hshape herror (fun heq => absurd heq hbody) hparts) h.fenced h'.fenced
  reports := by
    simp only [Reading.grownBy, Reading.followedBy, List.filter_append,
      Draft.wrappedAll_growLast herror, List.map_append]
    exact h.reports.append h'.reports

theorem grouped (h : reading.Fences cursor) {accepted rejected : Kind}
    (haccepted : accepted ≠ .error) (hrejected : rejected ≠ .error)
    (hfree : accepted = .multiclassBody ∨ rejected = .multiclassBody → ∀ draft ∈ reading.drafts, draft.Free) :
    (reading.grouped accepted rejected).Fences cursor := by
  have herror : (if reading.accepted then accepted else rejected) ≠ .error := by
    split <;> assumption
  refine ⟨h.eof, List.forall_mem_singleton.2 (.node rfl herror ?_ h.fenced), ?_⟩
  · intro hkind
    refine hfree ?_
    split at hkind
    · exact .inl hkind
    · exact .inr hkind
  · simpa [Reading.grouped, Draft.wrappedAll, Draft.wrapped, Draft.wrapped?_of_ne herror]
      using h.reports

theorem stray (h : reading.Fences cursor)
    (hparts : ∀ draft ∈ reading.drafts, ∃ content, draft = .token content) :
    (reading.grouped .error .error).Fences cursor where
  eof := h.eof
  fenced := List.forall_mem_singleton.2 (by simpa using .stray hparts)
  reports := by
    have hreports := h.reports
    rw [Draft.wrappedAll_of_tokens hparts] at hreports
    simpa [Reading.grouped, Draft.wrappedAll, Draft.wrapped_stray hparts] using hreports

end Fences

end Reading

def Reader.Fences (reader : Reader) : Prop :=
  ∀ cursor reading, cursor.eof.kind = .eof → reader cursor = some reading →
    reading.Fences cursor

namespace Reader

variable {body : Reader}

theorem loop_fences (h : body.Fences) (rounds : Nat) : (loop body rounds).Fences := by
  intro cursor reading heof hread
  exact loop_induction h (fun heof hround => hround.eof ▸ heof) .followedBy
    (fun hround => hround.withAccepted true) rounds heof hread

theorem growAll_fences (h : body.Fences) {kind : Kind} (herror : kind ≠ .error)
    (hbody : kind ≠ .multiclassBody) (rounds : Nat) {sofar reading : Reading} {cursor : Cursor}
    (heof : cursor.eof.kind = .eof) (hsofar : sofar.Fences cursor)
    (hread : growAll kind body rounds sofar = some reading) : reading.Fences cursor :=
  growAll_induction h (fun heof hround => hround.eof ▸ heof) .followedBy
    (fun hround => hround.withAccepted true)
    (fun hfirst hsecond => hfirst.grownBy hsecond herror hbody) rounds cursor heof hsofar hread

end Reader

namespace Grammar

theorem read_fences {call : Rule → Reader} (hcall : ∀ rule, (call rule).Fences)
    (hfree : ∀ rule, rule ≠ .statement .topLevel → (call rule).Makes Draft.Free)
    (grammar : Grammar) (h : grammar.isFenced = true)
    (hcomplaints : ∀ problem ∈ grammar.complaints, problem.stage ≠ .structural)
    (hnotes : ∀ note ∈ grammar.notes, ∀ text, (note text).stage ≠ .structural) (mark : Token) :
    Reader.Fences (grammar.read call mark) := by
  induction grammar generalizing mark with
  | accept | reject =>
      intro cursor reading _ hread
      cases hread
      exact Reading.idle_fences _ cursor
  | bump | skip =>
      intro cursor reading _ hread
      cases hread
      exact Reading.taking_fences _ cursor
  | unreachable =>
      intro cursor reading _ hread
      cases hread
  | complain problem =>
      intro cursor reading _ hread
      simp only [read] at hread
      split at hread <;> cases hread
      · exact Reading.idle_fences _ cursor
      · exact Reading.reporting_fences (hcomplaints problem (by simp [complaints])) cursor
  | note place problem =>
      intro cursor reading _ hread
      cases hread
      exact Reading.reporting_fences (hnotes problem (by simp [notes]) _) cursor
  | seq first second ihFirst ihSecond =>
      intro cursor reading heof hread
      simp only [isFenced, Bool.and_eq_true] at h
      simp only [complaints, notes, List.forall_mem_append] at hcomplaints hnotes
      obtain ⟨one, hone, two, htwo, rfl⟩ := read_seq_eq_some_iff.1 hread
      have hfirst := ihFirst h.1 hcomplaints.1 hnotes.1 mark _ _ heof hone
      exact hfirst.followedBy
        (ihSecond h.2 hcomplaints.2 hnotes.2 mark _ _ (hfirst.eof ▸ heof) htwo)
  | ifOk test yes no ihTest ihYes ihNo =>
      intro cursor reading heof hread
      simp only [isFenced, Bool.and_eq_true] at h
      simp only [complaints, notes, List.forall_mem_append] at hcomplaints hnotes
      obtain ⟨one, hone, two, htwo, rfl⟩ := read_ifOk_eq_some_iff.1 hread
      have htest := ihTest h.1 hcomplaints.1 hnotes.1 mark _ _ heof hone
      have hnext := htest.eof ▸ heof
      split at htwo
      · exact htest.followedBy (ihYes h.2.1 hcomplaints.2.1 hnotes.2.1 mark _ _ hnext htwo)
      · exact htest.followedBy (ihNo h.2.2 hcomplaints.2.2 hnotes.2.2 mark _ _ hnext htwo)
  | ifAt kinds yes no ihYes ihNo =>
      intro cursor reading heof hread
      simp only [isFenced, Bool.and_eq_true] at h
      simp only [complaints, notes, List.forall_mem_append] at hcomplaints hnotes
      rw [read_ifAt] at hread
      split at hread
      · exact ihYes h.1 hcomplaints.1 hnotes.1 mark _ _ heof hread
      · exact ihNo h.2 hcomplaints.2 hnotes.2 mark _ _ heof hread
  | ifText test yes no ihYes ihNo =>
      intro cursor reading heof hread
      simp only [isFenced, Bool.and_eq_true] at h
      simp only [complaints, notes, List.forall_mem_append] at hcomplaints hnotes
      rw [read_ifText] at hread
      split at hread
      · exact ihYes h.1 hcomplaints.1 hnotes.1 mark _ _ heof hread
      · exact ihNo h.2 hcomplaints.2 hnotes.2 mark _ _ heof hread
  | marked body ih =>
      intro cursor reading heof hread
      exact ih h hcomplaints hnotes cursor.current _ _ heof hread
  | group body accepted rejected ih =>
      intro cursor reading heof hread
      obtain ⟨inner, hinner, rfl⟩ := read_group_eq_some_iff.1 hread
      unfold isFenced at h
      split at h
      case isTrue herror =>
        simp only [Bool.and_eq_true, decide_eq_true_eq] at h herror
        obtain ⟨rfl, rfl⟩ := herror
        exact (ih h.2 hcomplaints hnotes mark _ _ heof hinner).stray
          (read_flat h.1 mark _ _ hinner)
      case isFalse =>
        simp only [Bool.and_eq_true, Bool.or_eq_true, bne_iff_ne] at h
        obtain ⟨haccepted, hrejected, hbody, hkinds⟩ := h
        refine (ih hbody hcomplaints hnotes mark _ _ heof hinner).grouped haccepted hrejected ?_
        intro hmulticlass
        rcases hkinds with ⟨hone, htwo⟩ | hbodyFree
        · rcases hmulticlass with heq | heq
          · exact absurd heq hone
          · exact absurd heq htwo
        · exact read_free hfree hbodyFree mark (Kind.Set.contains_full _) hinner
  | grow first kind rest ihFirst ihRest =>
      intro cursor reading heof hread
      simp only [isFenced, Bool.and_eq_true, bne_iff_ne] at h
      simp only [complaints, notes, List.forall_mem_append] at hcomplaints hnotes
      obtain ⟨one, hone, hread⟩ := read_grow_eq_some_iff.1 hread
      have hfirst := ihFirst h.1 hcomplaints.1 hnotes.1 mark _ _ heof hone
      split at hread
      · obtain ⟨two, htwo, rfl⟩ := hread
        have hrest := ihRest h.2.1 hcomplaints.2 hnotes.2 mark _ _ (hfirst.eof ▸ heof) htwo
        split
        · exact hfirst.grownBy hrest h.2.2.1 h.2.2.2
        · exact (hfirst.followedBy hrest).withAccepted true
      · rw [hread]
        exact hfirst
  | growAll first kind rest ihFirst ihRest =>
      intro cursor reading heof hread
      simp only [isFenced, Bool.and_eq_true, bne_iff_ne] at h
      simp only [complaints, notes, List.forall_mem_append] at hcomplaints hnotes
      obtain ⟨one, hone, hread⟩ := read_growAll_eq_some_iff.1 hread
      have hfirst := ihFirst h.1 hcomplaints.1 hnotes.1 mark _ _ heof hone
      split at hread
      · exact Reader.growAll_fences (ihRest h.2.1 hcomplaints.2 hnotes.2 mark) h.2.2.1 h.2.2.2 _
          heof hfirst hread
      · rw [hread]
        exact hfirst
  | loop body ih =>
      intro cursor reading heof hread
      exact Reader.loop_fences (ih h hcomplaints hnotes mark) _ _ _ heof hread
  | call rule => exact hcall rule

theorem stage_notes_statementByKeyword (place : StatementPlace) :
    ∀ note ∈ (statementByKeyword place).notes, ∀ text, (note text).stage ≠ .structural := by
  rw [notes_statementByKeyword]
  intro note hmem text
  rw [List.eq_of_mem_replicate hmem]
  simp [Problem.stage]

theorem stage_notes_value (place : ValuePlace) :
    ∀ note ∈ (value place).notes, ∀ text, (note text).stage ≠ .structural := by
  intro note hmem text
  have hnotes := notes_value place hmem
  simp only [List.mem_cons, List.not_mem_nil, or_false] at hnotes
  rcases hnotes with rfl | rfl | rfl | rfl | rfl | rfl <;> simp [Problem.stage]

theorem read_barred {call : Rule → Reader} {mark : Token} {cursor : Cursor} {reading : Reading}
    (hkind : notInMulticlass.contains cursor.kind = true) (heof : cursor.eof.kind = .eof)
    (hread : (statementByKeyword .topLevel).read call mark cursor = some reading) :
    ∃ kind parts, kind.isBarred = true ∧
      reading.drafts = [.node kind (.token cursor.current :: parts)] := by
  obtain ⟨kind, rest, hbarred, hread⟩ : ∃ kind rest, kind.isBarred = true ∧
      (node kind (.seq .bump rest)).read call mark cursor = some reading := by
    simp only [notInMulticlass, Kind.Set.contains_ofList, List.mem_cons, List.not_mem_nil, or_false,
      decide_eq_true_eq] at hkind
    rcases hkind with hkind | hkind | hkind | hkind <;>
      simp [statementByKeyword, ifKind, read_ifAt, hkind] at hread
    · exact ⟨.classStmt, _, rfl, hread⟩
    · exact ⟨.defsetStmt, _, rfl, hread⟩
    · exact ⟨.includeStmt, _, rfl, hread⟩
    · exact ⟨.multiclassStmt, _, rfl, hread⟩
  obtain ⟨inner, hinner, rfl⟩ := read_group_eq_some_iff.1 hread
  obtain ⟨one, hone, two, htwo, rfl⟩ := read_seq_eq_some_iff.1 hinner
  cases hone
  obtain ⟨tokens, eof, reported⟩ := cursor
  cases tokens with
  | nil =>
      simp only [Cursor.kind, Cursor.current, List.headD_nil] at heof hkind
      rw [heof] at hkind
      exact absurd hkind (by decide)
  | cons token tokens =>
      exact ⟨kind, two.drafts, hbarred, by simp [Reading.grouped, Reading.followedBy, Reading.taking,
        Cursor.current]⟩

theorem misplacedStatement_fences {call : Rule → Reader} (hcall : ∀ rule, (call rule).Fences)
    (hfree : ∀ rule, rule ≠ .statement .topLevel → (call rule).Makes Draft.Free) (mark : Token)
    {cursor : Cursor} {reading : Reading} (heof : cursor.eof.kind = .eof)
    (hkind : notInMulticlass.contains cursor.kind = true)
    (hread : misplacedStatement.read call mark cursor = some reading) :
    reading.Fences cursor := by
  obtain ⟨one, hone, two, htwo, rfl⟩ := read_seq_eq_some_iff.1
    (show (Grammar.seq _ _).read call cursor.current cursor = some reading from hread)
  cases htwo
  obtain ⟨inner, hinner, rfl⟩ := read_group_eq_some_iff.1 hone
  obtain ⟨kind, parts, hbarred, hdrafts⟩ := read_barred hkind heof hinner
  have hfences := read_fences hcall hfree (statementByKeyword .topLevel)
    (by decide +kernel) (by decide +kernel) (stage_notes_statementByKeyword _) cursor.current
    cursor inner heof hinner
  have hnotError : kind ≠ .error := by
    rintro rfl
    cases hbarred
  have hparts : ∀ part ∈ parts, part.Fenced := by
    have hnode := hfences.fenced _ (hdrafts ▸ List.mem_singleton_self _)
    cases hnode with
    | stray hparts => exact absurd rfl hnotError
    | node hshape hkind hfree hparts =>
        cases hshape
        exact fun part hmem => hparts part (List.mem_cons_of_mem _ hmem)
  refine ⟨hfences.eof, ?_, ?_⟩
  · simp only [Reading.followedBy, Reading.grouped, Reading.reporting, hdrafts, ite_self,
      List.append_nil]
    exact List.forall_mem_singleton.2 (.wrapping hbarred hkind hparts)
  · have hreports := hfences.reports
    have hinside : Draft.wrappedAll [.node kind (.token cursor.current :: parts)] =
        Draft.wrappedAll parts := by
      simp [Draft.wrappedAll, Draft.wrapped, Draft.wrapped?_of_ne hnotError]
    rw [hdrafts, hinside] at hreports
    have hboth : ((inner.diagnostics ++ [cursor.current.misplaced]).filter
        Diagnostic.isStructural).Perm
          ((cursor.current :: Draft.wrappedAll parts).map Token.misplaced) := by
      rw [List.filter_append, List.filter_cons_of_pos rfl, List.filter_nil]
      exact (hreports.append_right _).trans (List.perm_append_singleton _ _)
    simp only [Reading.followedBy, Reading.grouped, Reading.reporting, hdrafts, ite_self,
      List.append_nil, Draft.wrappedAll, Draft.wrapped_wrapping]
    exact hboth

end Grammar

namespace Rule

theorem stage_complaints (rule : Rule) :
    ∀ problem ∈ rule.grammar.complaints, problem.stage ≠ .structural := by
  rcases rule with _ | place | place
  · decide +kernel
  · cases place <;> decide +kernel
  · cases place <;> decide +kernel

theorem read_fences (depth : Nat) (rule : Rule) : (Rule.read depth rule).Fences := by
  induction depth generalizing rule with
  | zero =>
      intro cursor reading _ hread
      cases hread
  | succ depth ih =>
      have hread := Grammar.read_fences ih fun _ hrule => Rule.read_free depth hrule
      intro cursor reading heof hreading
      rcases rule with _ | place | place
      · exact hread _ (by decide +kernel) (stage_complaints .type) (List.forall_mem_nil _) _ _ _ heof
          hreading
      · refine hread (Grammar.value place) ?_ (stage_complaints (.value place))
          (Grammar.stage_notes_value place) _ _ _ heof hreading
        cases place <;> decide +kernel
      · have hallowed (place : StatementPlace) := hread
          (.ifAt Grammar.statementFirst (Grammar.statementByKeyword place) .reject)
          (by cases place <;> decide +kernel)
          (by cases place <;> decide +kernel)
          (List.forall_mem_append.2 ⟨Grammar.stage_notes_statementByKeyword place, List.forall_mem_nil _⟩)
        cases place with
        | topLevel => exact hallowed .topLevel _ _ _ heof hreading
        | multiclass =>
            rw [read, Rule.grammar, Grammar.statement, Grammar.read_ifAt] at hreading
            split at hreading
            case isTrue hkind =>
              exact Grammar.misplacedStatement_fences ih (fun _ hrule => Rule.read_free depth hrule) _
                heof hkind hreading
            case isFalse => exact hallowed .multiclass _ _ _ heof hreading

end Rule

end TdSyntax
