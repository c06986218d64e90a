import TdSyntax.Proofs.Reading.Faults
import TdSyntax.Proofs.Reading.Fenced
import TdSyntax.Proofs.Reading.Totality
import TdSyntax.Proofs.Tree.Explained

/-!
# Error nodes are explained

Wherever the grammar makes an error node, it knows of the current token that it is not
the end of the file and, where a rule has rejected, that the rule does not start with it.
So the node has a token, and its first token is where a fault is reported.
-/

namespace TdSyntax

/-- If a reader begins at a ready cursor and its faults are told, then the error nodes that
it makes are explained. -/
def Reader.Explains (told : Nat → Prop) (reader : Reader) : Prop :=
  ∀ cursor reading, cursor.Ready told → reader cursor = some reading → reading.Tells told →
    ∀ draft ∈ reading.drafts, draft.Explained told

namespace Reader

variable {told : Nat → Prop} {body : Reader}

theorem loop_accepted {rounds : Nat} {cursor : Cursor} {reading : Reading}
    (h : loop body rounds cursor = some reading) : reading.accepted = true := by
  induction rounds generalizing cursor reading with
  | zero => cases h
  | succ rounds ih =>
      obtain ⟨first, -, h⟩ := loop_succ_eq_some_iff.1 h
      split at h
      · obtain ⟨rest, hrest, rfl⟩ := h
        exact @ih _ rest hrest
      · rw [h]
        rfl

theorem growAll_accepted {kind : Kind} {rounds : Nat} {sofar reading : Reading}
    (h : growAll kind body rounds sofar = some reading) : reading.accepted = true := by
  induction rounds generalizing sofar with
  | zero => cases h
  | succ rounds ih =>
      obtain ⟨next, -, h⟩ := growAll_succ_eq_some_iff.1 h
      split at h
      · exact ih h
      · rw [h]
        rfl

theorem loop_explains (hkeeps : body.Reports Cursor.Keeps) (h : body.Explains told)
    (rounds : Nat) : (loop body rounds).Explains told := by
  induction rounds with
  | zero =>
      intro cursor reading _ hread
      cases hread
  | succ rounds ih =>
      intro cursor reading hready hread htells
      obtain ⟨first, hfirst, hread⟩ := loop_succ_eq_some_iff.1 hread
      split at hread
      · obtain ⟨rest, hrest, rfl⟩ := hread
        obtain ⟨htellsFirst, htellsRest⟩ := Reading.tells_followedBy.1 htells
        have hbehind := hready.behind (hkeeps _ _ hfirst) htellsFirst
        exact List.forall_mem_append.2 ⟨h cursor first hready hfirst htellsFirst,
          ih _ _ hbehind hrest htellsRest⟩
      · subst hread
        exact h cursor first hready hfirst htells

theorem growAll_explains (hkeeps : body.Reports Cursor.Keeps) (h : body.Explains told) {kind : Kind}
    (hkind : kind ≠ .error) (rounds : Nat) {sofar reading : Reading}
    (hready : sofar.Tells told → sofar.cursor.Ready told)
    (hsofar : sofar.Tells told → ∀ draft ∈ sofar.drafts, draft.Explained told)
    (hread : growAll kind body rounds sofar = some reading) (htells : reading.Tells told) :
    ∀ draft ∈ reading.drafts, draft.Explained told := by
  induction rounds generalizing sofar with
  | zero => cases hread
  | succ rounds ih =>
      obtain ⟨next, hnext, hread⟩ := growAll_succ_eq_some_iff.1 hread
      split at hread
      · refine ih ?_ ?_ hread
        · intro hboth
          obtain ⟨hfirst, hsecond⟩ := Reading.tells_followedBy.1 hboth
          have hbehind := (hready hfirst).behind (hkeeps _ next hnext) hsecond
          exact hbehind
        · intro hboth
          obtain ⟨hfirst, hsecond⟩ := Reading.tells_followedBy.1 hboth
          exact Draft.forall_mem_growLast
            (fun hshape hparts => .node hshape (fun heq => absurd heq hkind) hparts)
            (hsofar hfirst) (h _ next (hready hfirst) hnext hsecond)
      · subst hread
        obtain ⟨hfirst, hsecond⟩ := Reading.tells_followedBy.1 htells
        exact List.forall_mem_append.2
          ⟨hsofar hfirst, h _ _ (hready hfirst) hnext hsecond⟩

end Reader

namespace Grammar

variable {call : Rule → Reader} {mark : Token} {cursor : Cursor} {reading : Reading}

/-! ## Where a grammar rejects -/

def isComplaint : Grammar → Bool
  | .complain _ => true
  | _ => false

def rejects (kinds : Kind.Set) : Grammar → Kind.Set
  | .accept | .unreachable | .bump | .skip _ | .complain _ | .note _ _ | .group _ _ _
  | .loop _ => .empty
  | .reject => kinds
  | .seq first second => rejects (if first.isComplaint then kinds else .full) second
  | .ifOk _ yes no => (rejects .full yes).union (rejects .full no)
  | .ifAt among yes no => (rejects (kinds.inter among) yes).union (rejects (kinds.diff among) no)
  | .ifText _ yes no => (rejects kinds yes).union (rejects kinds no)
  | .marked body => rejects kinds body
  | .grow first _ _ | .growAll first _ _ => rejects kinds first
  | .call rule => kinds.diff rule.first

/-- A rule that rejects takes nothing, and none of its first tokens is the current one. -/
def Refuses (call : Rule → Reader) : Prop :=
  ∀ rule cursor reading, call rule cursor = some reading → reading.accepted = false →
    rule.first.contains cursor.kind = false ∧ reading.cursor.kind = cursor.kind

theorem read_rejects (hcall : Refuses call) {grammar : Grammar} {kinds : Kind.Set}
    (hkind : kinds.contains cursor.kind = true)
    (hread : grammar.read call mark cursor = some reading) (hrejected : reading.accepted = false) :
    (grammar.rejects kinds).contains reading.cursor.kind = true := by
  induction grammar generalizing kinds mark cursor reading with
  | accept | bump | skip | note =>
      cases hread
      cases hrejected
  | unreachable => cases hread
  | reject =>
      cases hread
      exact hkind
  | complain problem =>
      simp only [read] at hread
      split at hread <;> cases hread <;> cases hrejected
  | seq first second ihFirst ihSecond =>
      obtain ⟨one, hone, two, htwo, rfl⟩ := read_seq_eq_some_iff.1 hread
      have hmiddle :
          (if first.isComplaint then kinds else .full).contains one.cursor.kind = true := by
        split
        case isTrue hcomplaint =>
          cases first with
          | complain problem =>
              obtain ⟨-, htokens, heof, -⟩ := read_complain hone
              simpa [Cursor.kind, Cursor.current, htokens, heof] using hkind
          | _ => cases hcomplaint
        case isFalse => exact Kind.Set.contains_full _
      have hlast := ihSecond hmiddle htwo hrejected
      exact hlast
  | ifOk test yes no ihTest ihYes ihNo =>
      obtain ⟨one, hone, two, htwo, rfl⟩ := read_ifOk_eq_some_iff.1 hread
      have hmiddle := Kind.Set.contains_full one.cursor.kind
      rw [rejects, Kind.Set.contains_union, Bool.or_eq_true]
      split at htwo
      · have hlast := ihYes hmiddle htwo hrejected
        exact .inl hlast
      · have hlast := ihNo hmiddle htwo hrejected
        exact .inr hlast
  | ifAt among yes no ihYes ihNo =>
      rw [read_ifAt] at hread
      rw [rejects, Kind.Set.contains_union, Bool.or_eq_true]
      split at hread
      case isTrue hamong => exact .inl (ihYes (by simp [hkind, hamong]) hread hrejected)
      case isFalse hamong => exact .inr (ihNo (by simp [hkind, hamong]) hread hrejected)
  | ifText test yes no ihYes ihNo =>
      rw [read_ifText] at hread
      rw [rejects, Kind.Set.contains_union, Bool.or_eq_true]
      split at hread
      · exact .inl (ihYes hkind hread hrejected)
      · exact .inr (ihNo hkind hread hrejected)
  | marked body ih => exact ih hkind hread hrejected
  | group body accepted rejected =>
      obtain ⟨inner, -, rfl⟩ := read_group_eq_some_iff.1 hread
      cases hrejected
  | grow first kind rest ihFirst =>
      obtain ⟨one, hone, hread⟩ := read_grow_eq_some_iff.1 hread
      split at hread
      · obtain ⟨two, -, rfl⟩ := hread
        split at hrejected
        case isTrue haccepted => cases haccepted.symm.trans hrejected
        case isFalse => cases hrejected
      · subst hread
        exact ihFirst hkind hone hrejected
  | growAll first kind rest ihFirst =>
      obtain ⟨one, hone, hread⟩ := read_growAll_eq_some_iff.1 hread
      split at hread
      · cases (Reader.growAll_accepted hread).symm.trans hrejected
      · subst hread
        exact ihFirst hkind hone hrejected
  | loop body => cases (Reader.loop_accepted hread).symm.trans hrejected
  | call rule =>
      obtain ⟨hfirst, hsame⟩ := hcall rule cursor reading hread hrejected
      simp [rejects, hsame, hkind, hfirst]

/-! ## Error nodes -/

/-- Whether each error node of the grammar begins at a token where a fault is reported, if
the current token is of some kinds. -/
def isReported (kinds : Kind.Set) : Grammar → Bool
  | .accept | .reject | .unreachable | .bump | .skip _ | .complain _ | .note _ _
  | .call _ => true
  | .seq first second => isReported kinds first && isReported .full second
  | .ifOk test yes no =>
      isReported kinds test && (isReported .full yes && isReported (test.rejects kinds) no)
  | .ifAt among yes no => isReported (kinds.inter among) yes && isReported (kinds.diff among) no
  | .ifText _ yes no => isReported kinds yes && isReported kinds no
  | .marked body => isReported kinds body
  | .loop body => isReported .full body
  | .group body accepted rejected =>
      isReported kinds body &&
        ((accepted != .error && rejected != .error) || body.opensError kinds)
  | .grow first kind rest | .growAll first kind rest =>
      isReported kinds first && (isReported .full rest && kind != .error)

theorem isFault_notes_statementByKeyword (place : StatementPlace) :
    ∀ note ∈ (statementByKeyword place).notes, ∀ text,
      (note text).isFault = (note []).isFault := by
  rw [notes_statementByKeyword]
  intro note hmem text
  rw [List.eq_of_mem_replicate hmem]

section Explains

variable {told : Nat → Prop} (hkeeps : ∀ rule, (call rule).Reports Cursor.Keeps)
include hkeeps

theorem read_explains (hrefuses : Refuses call) (hcall : ∀ rule, (call rule).Explains told)
    {grammar : Grammar} {kinds : Kind.Set} (h : grammar.isReported kinds = true)
    (hnotes : ∀ note ∈ grammar.notes, ∀ text, (note text).isFault = (note []).isFault)
    (hkind : kinds.contains cursor.kind = true) (hready : cursor.Ready told)
    (hread : grammar.read call mark cursor = some reading) (htells : reading.Tells told) :
    ∀ draft ∈ reading.drafts, draft.Explained told := by
  have hfull (cursor : Cursor) : Kind.Set.full.contains cursor.kind = true :=
    Kind.Set.contains_full _
  induction grammar generalizing kinds mark cursor reading with
  | accept | reject | note =>
      cases hread
      exact List.forall_mem_nil _
  | bump | skip =>
      cases hread
      exact Reading.taking_makes .token _ cursor
  | unreachable => cases hread
  | complain problem =>
      rw [(read_complain hread).1]
      exact List.forall_mem_nil _
  | seq first second ihFirst ihSecond =>
      simp only [isReported, Bool.and_eq_true] at h
      simp only [notes, List.forall_mem_append] at hnotes
      obtain ⟨one, hone, two, htwo, rfl⟩ := read_seq_eq_some_iff.1 hread
      obtain ⟨hfirst, hsecond⟩ := Reading.tells_followedBy.1 htells
      have hbehind := hready.behind (read_keeps hkeeps first mark _ _ hone) hfirst
      exact List.forall_mem_append.2 ⟨ihFirst h.1 hnotes.1 hkind hready hone hfirst,
        ihSecond h.2 hnotes.2 (hfull _) hbehind htwo hsecond⟩
  | ifOk test yes no ihTest ihYes ihNo =>
      simp only [isReported, Bool.and_eq_true] at h
      simp only [notes, List.forall_mem_append] at hnotes
      obtain ⟨one, hone, two, htwo, rfl⟩ := read_ifOk_eq_some_iff.1 hread
      obtain ⟨hfirst, hsecond⟩ := Reading.tells_followedBy.1 htells
      have hbehind := hready.behind (read_keeps hkeeps test mark _ _ hone) hfirst
      have htest := ihTest h.1 hnotes.1 hkind hready hone hfirst
      split at htwo
      case isTrue =>
        exact List.forall_mem_append.2
          ⟨htest, ihYes h.2.1 hnotes.2.1 (hfull _) hbehind htwo hsecond⟩
      case isFalse hrejected =>
        have hafter := read_rejects hrefuses hkind hone (Bool.not_eq_true _ ▸ hrejected)
        exact List.forall_mem_append.2
          ⟨htest, ihNo h.2.2 hnotes.2.2 hafter hbehind htwo hsecond⟩
  | ifAt among yes no ihYes ihNo =>
      simp only [isReported, Bool.and_eq_true] at h
      simp only [notes, List.forall_mem_append] at hnotes
      rw [read_ifAt] at hread
      split at hread
      case isTrue hamong =>
        exact ihYes h.1 hnotes.1 (by simp [hkind, hamong]) hready hread htells
      case isFalse hamong =>
        exact ihNo h.2 hnotes.2 (by simp [hkind, hamong]) hready hread htells
  | ifText test yes no ihYes ihNo =>
      simp only [isReported, Bool.and_eq_true] at h
      simp only [notes, List.forall_mem_append] at hnotes
      rw [read_ifText] at hread
      split at hread
      · exact ihYes h.1 hnotes.1 hkind hready hread htells
      · exact ihNo h.2 hnotes.2 hkind hready hread htells
  | marked body ih => exact ih h hnotes hkind hready hread htells
  | group body accepted rejected ih =>
      simp only [isReported, Bool.and_eq_true, Bool.or_eq_true, bne_iff_ne] at h
      obtain ⟨inner, hinner, rfl⟩ := read_group_eq_some_iff.1 hread
      refine List.forall_mem_singleton.2
        (.node rfl ?_ (ih h.1 hnotes hkind hready hinner htells))
      intro herror
      rcases h.2 with ⟨haccepted, hrejected⟩ | hopens
      · split at herror
        · exact absurd herror haccepted
        · exact absurd herror hrejected
      · exact read_opensError hkeeps hopens hnotes hkind hready hinner htells
  | grow first kind rest ihFirst ihRest =>
      simp only [isReported, Bool.and_eq_true, bne_iff_ne] at h
      simp only [notes, List.forall_mem_append] at hnotes
      obtain ⟨one, hone, hread⟩ := read_grow_eq_some_iff.1 hread
      split at hread
      · obtain ⟨two, htwo, rfl⟩ := hread
        have hboth : one.Tells told ∧ two.Tells told := by
          refine Reading.tells_followedBy.1 ?_
          split at htells <;> exact htells
        have hfirst := ihFirst h.1 hnotes.1 hkind hready hone hboth.1
        have hbehind := hready.behind (read_keeps hkeeps first mark _ _ hone) hboth.1
        have hrest := ihRest h.2.1 hnotes.2 (hfull _) hbehind htwo hboth.2
        split
        · exact Draft.forall_mem_growLast
            (fun hshape hparts => .node hshape (fun heq => absurd heq h.2.2) hparts) hfirst hrest
        · exact List.forall_mem_append.2 ⟨hfirst, hrest⟩
      · subst hread
        exact ihFirst h.1 hnotes.1 hkind hready hone htells
  | growAll first kind rest ihFirst ihRest =>
      simp only [isReported, Bool.and_eq_true, bne_iff_ne] at h
      simp only [notes, List.forall_mem_append] at hnotes
      obtain ⟨one, hone, hread⟩ := read_growAll_eq_some_iff.1 hread
      split at hread
      · exact Reader.growAll_explains (read_keeps hkeeps rest mark)
          (fun _ _ hready hround => ihRest h.2.1 hnotes.2 (hfull _) hready hround) h.2.2 _
          (fun hfirst => hready.behind (read_keeps hkeeps first mark _ _ hone) hfirst)
          (ihFirst h.1 hnotes.1 hkind hready hone) hread htells
      · subst hread
        exact ihFirst h.1 hnotes.1 hkind hready hone htells
  | loop body ih =>
      exact Reader.loop_explains (read_keeps hkeeps body mark)
        (fun _ _ hready hround => ih h hnotes (hfull _) hready hround) _ _ _ hready hread htells
  | call rule => exact hcall rule _ _ hready hread htells

theorem misplacedStatement_explains (hrefuses : Refuses call)
    (hcall : ∀ rule, (call rule).Explains told)
    (hkind : notInMulticlass.contains cursor.kind = true) (hready : cursor.Ready told)
    (hread : misplacedStatement.read call mark cursor = some reading)
    (htells : reading.Tells told) : ∀ draft ∈ reading.drafts, draft.Explained told := by
  obtain ⟨one, hone, two, htwo, rfl⟩ := read_seq_eq_some_iff.1
    (show (Grammar.seq _ _).read call cursor.current cursor = some reading from hread)
  obtain ⟨hfirst, hsecond⟩ := Reading.tells_followedBy.1 htells
  obtain ⟨inner, hinner, rfl⟩ := read_group_eq_some_iff.1 hone
  cases htwo
  obtain ⟨kind, parts, -, hdrafts⟩ := read_barred hkind hready.eof hinner
  have hinside := read_explains hkeeps hrefuses hcall
    (show (statementByKeyword .topLevel).isReported .full = true by decide +kernel)
    (isFault_notes_statementByKeyword .topLevel) (Kind.Set.contains_full _) hready hinner hfirst
  have htold : told cursor.current.start :=
    hsecond _ (List.mem_singleton_self _) rfl
  simp only [Reading.followedBy, Reading.grouped, Reading.reporting, ite_self, List.append_nil]
  refine List.forall_mem_singleton.2 (.node rfl (fun _ => ⟨cursor.current, ?_, htold⟩) hinside)
  simp [hdrafts, Draft.tokens, Draft.tokensAll]

end Explains

end Grammar

namespace Rule

theorem isFault_notes (rule : Rule) :
    ∀ note ∈ rule.grammar.notes, ∀ text, (note text).isFault = (note []).isFault := by
  intro note hmem
  have hnoted := rule.notes_subset hmem
  simp only [Problem.noted, List.mem_cons, List.not_mem_nil, or_false] at hnoted
  rcases hnoted with rfl | rfl | rfl | rfl | rfl | rfl <;> exact fun _ => rfl

theorem read_keeps (depth : Nat) (rule : Rule) : (Rule.read depth rule).Reports Cursor.Keeps :=
  Cursor.reporting_keeps.read_rule (fun _ _ _ => trivial) (fun _ _ _ _ => trivial) depth rule

theorem rejects_first (rule : Rule) : (rule.grammar.rejects rule.first).isEmpty = true := by
  rcases rule with _ | place | place
  · decide +kernel
  · cases place <;> decide +kernel
  · cases place <;> decide +kernel

theorem read_refuses (depth : Nat) : Grammar.Refuses (Rule.read depth) := by
  induction depth with
  | zero =>
      intro rule cursor reading hread
      cases hread
  | succ depth ih =>
      intro rule cursor reading hread hrejected
      cases hkind : rule.first.contains cursor.kind with
      | true =>
          have hafter := Grammar.read_rejects ih hkind hread hrejected
          rw [Kind.Set.contains_of_isEmpty rule.rejects_first] at hafter
          cases hafter
      | false =>
          obtain ⟨same, hsame, heof, -, htokens⟩ :=
            grammar_declines hkind (Rule.read depth) cursor.current
          obtain rfl : same = reading := Option.some.inj (hsame.symm.trans hread)
          exact ⟨rfl, by simp [Cursor.kind, Cursor.current, htokens, heof]⟩

theorem read_explains (told : Nat → Prop) (depth : Nat) (rule : Rule) :
    (Rule.read depth rule).Explains told := by
  induction depth generalizing rule with
  | zero =>
      intro cursor reading _ hread
      cases hread
  | succ depth ih =>
      intro cursor reading hready hread htells
      have hexplains (grammar : Grammar) (h : grammar.isReported .full = true)
          (hnotes : ∀ note ∈ grammar.notes, ∀ text, (note text).isFault = (note []).isFault)
          (hgrammar : grammar.read (Rule.read depth) cursor.current cursor = some reading) :=
        Grammar.read_explains (read_keeps depth) (read_refuses depth) ih h hnotes
          (Kind.Set.contains_full _) hready hgrammar htells
      have hstatement (place : StatementPlace) := hexplains
        (.ifAt Grammar.statementFirst (Grammar.statementByKeyword place) .reject)
        (by cases place <;> decide +kernel)
        (List.forall_mem_append.2
          ⟨Grammar.isFault_notes_statementByKeyword place, List.forall_mem_nil _⟩)
      rcases rule with _ | place | place
      · exact hexplains _ (by decide +kernel) (isFault_notes .type) hread
      · refine hexplains (Grammar.value place) ?_ (isFault_notes (.value place)) hread
        cases place <;> decide +kernel
      · cases place with
        | topLevel => exact hstatement .topLevel hread
        | multiclass =>
            rw [read, Rule.grammar, Grammar.statement, Grammar.read_ifAt] at hread
            split at hread
            case isTrue hkind =>
              exact Grammar.misplacedStatement_explains (read_keeps depth) (read_refuses depth) ih
                hkind hready hread htells
            case isFalse => exact hstatement .multiclass hread

end Rule

end TdSyntax
