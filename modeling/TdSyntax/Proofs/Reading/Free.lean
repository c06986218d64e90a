import TdSyntax.Proofs.Reading.Flow
import TdSyntax.Proofs.Tree.Fenced

/-!
# Reading inside a multiclass

What the rules read, other than a statement outside of multiclasses, holds no barred
statement that is not fenced off.  The error nodes that the grammar makes for tokens
that fit nowhere hold nothing but tokens.
-/

namespace TdSyntax

def Reader.Makes (reader : Reader) (holds : Draft → Prop) : Prop :=
  ∀ cursor reading, reader cursor = some reading → ∀ draft ∈ reading.drafts, holds draft

namespace Reader

variable {body : Reader} {holds : Draft → Prop}

theorem loop_makes (h : body.Makes holds) (rounds : Nat) : (loop body rounds).Makes holds := by
  intro cursor reading hread
  refine loop_induction (fun cursor reading (_ : True) => h cursor reading) (fun _ _ => trivial) ?_
    id rounds trivial hread
  exact fun hfirst hsecond => List.forall_mem_append.2 ⟨hfirst, hsecond⟩

theorem growAll_makes (h : body.Makes holds) {kind : Kind}
    (hnode : ∀ {draft parts}, draft.shape? = some (kind, parts) →
      (∀ part ∈ parts, holds part) → holds draft)
    (rounds : Nat) {sofar reading : Reading} (hsofar : ∀ draft ∈ sofar.drafts, holds draft)
    (hread : growAll kind body rounds sofar = some reading) :
    ∀ draft ∈ reading.drafts, holds draft := by
  refine growAll_induction (fun cursor reading (_ : True) => h cursor reading) (fun _ _ => trivial)
    ?_ id ?_ rounds sofar.cursor trivial hsofar hread
  · exact fun hfirst hsecond => List.forall_mem_append.2 ⟨hfirst, hsecond⟩
  · exact fun hfirst hsecond => Draft.forall_mem_growLast hnode hfirst hsecond

end Reader

theorem Reading.taking_makes {holds : Draft → Prop} (htoken : ∀ token, holds (.token token))
    (count : Nat) (cursor : Cursor) :
    ∀ draft ∈ (Reading.taking count cursor).drafts, holds draft := by
  intro draft hmem
  obtain ⟨token, -, rfl⟩ := List.mem_map.1 hmem
  exact htoken token

namespace Grammar

def isFlat : Grammar → Bool
  | .accept | .reject | .unreachable | .bump | .skip _ | .complain _ | .note _ _ => true
  | .seq first second => isFlat first && isFlat second
  | .ifOk test yes no => isFlat test && (isFlat yes && isFlat no)
  | .ifAt _ yes no | .ifText _ yes no => isFlat yes && isFlat no
  | .marked body | .loop body => isFlat body
  | .group _ _ _ | .grow _ _ _ | .growAll _ _ _ | .call _ => false

theorem read_flat {call : Rule → Reader} {grammar : Grammar} (h : grammar.isFlat = true)
    (mark : Token) : Reader.Makes (grammar.read call mark) fun draft => ∃ content, draft = .token content := by
  induction grammar generalizing mark with
  | accept | reject | note =>
      intro cursor reading hread
      cases hread
      exact List.forall_mem_nil _
  | bump | skip =>
      intro cursor reading hread
      cases hread
      exact Reading.taking_makes (fun token => ⟨token, rfl⟩) _ cursor
  | unreachable =>
      intro cursor reading hread
      cases hread
  | complain problem =>
      intro cursor reading hread
      simp only [read] at hread
      split at hread <;> cases hread <;> exact List.forall_mem_nil _
  | seq first second ihFirst ihSecond =>
      intro cursor reading hread
      simp only [isFlat, Bool.and_eq_true] at h
      obtain ⟨one, hone, two, htwo, rfl⟩ := read_seq_eq_some_iff.1 hread
      exact List.forall_mem_append.2 ⟨ihFirst h.1 mark _ _ hone, ihSecond h.2 mark _ _ htwo⟩
  | ifOk test yes no ihTest ihYes ihNo =>
      intro cursor reading hread
      simp only [isFlat, Bool.and_eq_true] at h
      obtain ⟨one, hone, two, htwo, rfl⟩ := read_ifOk_eq_some_iff.1 hread
      have htest := ihTest h.1 mark _ _ hone
      split at htwo
      · exact List.forall_mem_append.2 ⟨htest, ihYes h.2.1 mark _ _ htwo⟩
      · exact List.forall_mem_append.2 ⟨htest, ihNo h.2.2 mark _ _ htwo⟩
  | ifAt among yes no ihYes ihNo =>
      intro cursor reading hread
      simp only [isFlat, Bool.and_eq_true] at h
      rw [read_ifAt] at hread
      split at hread
      · exact ihYes h.1 mark _ _ hread
      · exact ihNo h.2 mark _ _ hread
  | ifText test yes no ihYes ihNo =>
      intro cursor reading hread
      simp only [isFlat, Bool.and_eq_true] at h
      rw [read_ifText] at hread
      split at hread
      · exact ihYes h.1 mark _ _ hread
      · exact ihNo h.2 mark _ _ hread
  | marked body ih =>
      intro cursor reading hread
      exact ih h cursor.current _ _ hread
  | loop body ih =>
      intro cursor reading hread
      exact Reader.loop_makes (ih h mark) _ _ _ hread
  | group | grow | growAll | call => cases h

/-- Whether the grammar makes no barred statements outside of error nodes where the
current token is one of some kinds. -/
def isFree (kinds : Kind.Set) : Grammar → Bool
  | .accept | .reject | .unreachable | .bump | .skip _ | .complain _ | .note _ _ => true
  | .seq first second => isFree kinds first && isFree .full second
  | .ifOk test yes no => isFree kinds test && (isFree .full yes && isFree .full no)
  | .ifAt among yes no =>
      ((kinds.inter among).isEmpty || isFree (kinds.inter among) yes) &&
        ((kinds.diff among).isEmpty || isFree (kinds.diff among) no)
  | .ifText _ yes no => isFree kinds yes && isFree kinds no
  | .marked body => isFree kinds body
  | .loop body => isFree .full body
  | .group body accepted rejected =>
      (accepted == .error && rejected == .error) ||
        (!accepted.isBarred && (!rejected.isBarred && isFree kinds body))
  | .grow first kind rest | .growAll first kind rest =>
      isFree kinds first && (isFree .full rest && !kind.isBarred)
  | .call rule => rule != .statement .topLevel

theorem read_free {call : Rule → Reader}
    (hcall : ∀ rule, rule ≠ .statement .topLevel → (call rule).Makes Draft.Free) {grammar : Grammar}
    {kinds : Kind.Set} (h : grammar.isFree kinds = true) (mark : Token) {cursor : Cursor}
    {reading : Reading} (hkind : kinds.contains cursor.kind = true)
    (hread : grammar.read call mark cursor = some reading) : ∀ draft ∈ reading.drafts, draft.Free := by
  have hfull (cursor : Cursor) : Kind.Set.full.contains cursor.kind = true :=
    Kind.Set.contains_full _
  induction grammar generalizing kinds mark cursor reading with
  | accept | reject | note =>
      cases hread
      exact List.forall_mem_nil _
  | bump | skip =>
      cases hread
      exact Reading.taking_makes .token _ cursor
  | unreachable => cases hread
  | complain problem =>
      simp only [read] at hread
      split at hread <;> cases hread <;> exact List.forall_mem_nil _
  | seq first second ihFirst ihSecond =>
      simp only [isFree, Bool.and_eq_true] at h
      obtain ⟨one, hone, two, htwo, rfl⟩ := read_seq_eq_some_iff.1 hread
      exact List.forall_mem_append.2
        ⟨ihFirst h.1 mark hkind hone, ihSecond h.2 mark (hfull _) htwo⟩
  | ifOk test yes no ihTest ihYes ihNo =>
      simp only [isFree, Bool.and_eq_true] at h
      obtain ⟨one, hone, two, htwo, rfl⟩ := read_ifOk_eq_some_iff.1 hread
      have htest := ihTest h.1 mark hkind hone
      split at htwo
      · exact List.forall_mem_append.2 ⟨htest, ihYes h.2.1 mark (hfull _) htwo⟩
      · exact List.forall_mem_append.2 ⟨htest, ihNo h.2.2 mark (hfull _) htwo⟩
  | ifAt among yes no ihYes ihNo =>
      simp only [isFree, Bool.and_eq_true, Bool.or_eq_true] at h
      rw [read_ifAt] at hread
      split at hread
      case isTrue hamong =>
        have hinter : (kinds.inter among).contains cursor.kind = true := by simp [hkind, hamong]
        exact ihYes (h.1.resolve_left (Kind.Set.not_isEmpty hinter)) mark hinter hread
      case isFalse hamong =>
        have hdiff : (kinds.diff among).contains cursor.kind = true := by simp [hkind, hamong]
        exact ihNo (h.2.resolve_left (Kind.Set.not_isEmpty hdiff)) mark hdiff hread
  | ifText test yes no ihYes ihNo =>
      simp only [isFree, Bool.and_eq_true] at h
      rw [read_ifText] at hread
      split at hread
      · exact ihYes h.1 mark hkind hread
      · exact ihNo h.2 mark hkind hread
  | marked body ih => exact ih h cursor.current hkind hread
  | group body accepted rejected ih =>
      simp only [isFree, Bool.or_eq_true, Bool.and_eq_true, beq_iff_eq, Bool.not_eq_true'] at h
      obtain ⟨inner, hinner, rfl⟩ := read_group_eq_some_iff.1 hread
      rcases h with ⟨rfl, rfl⟩ | ⟨haccepted, hrejected, hbody⟩
      · have hshape (kind : Kind) :
            (Draft.node kind inner.drafts).shape? = some (kind, inner.drafts) := rfl
        exact List.forall_mem_singleton.2 (.error (by simpa using hshape .error))
      · refine List.forall_mem_singleton.2 (.node rfl ?_ (ih hbody mark hkind hinner))
        split <;> assumption
  | grow first kind rest ihFirst ihRest =>
      simp only [isFree, Bool.and_eq_true, Bool.not_eq_true'] at h
      obtain ⟨one, hone, hread⟩ := read_grow_eq_some_iff.1 hread
      have hfirst := ihFirst h.1 mark hkind hone
      split at hread
      · obtain ⟨two, htwo, rfl⟩ := hread
        have hrest := ihRest h.2.1 mark (hfull _) htwo
        split
        · exact Draft.forall_mem_growLast
            (fun hshape hparts => .node hshape h.2.2 hparts) hfirst hrest
        · exact List.forall_mem_append.2 ⟨hfirst, hrest⟩
      · rw [hread]
        exact hfirst
  | growAll first kind rest ihFirst ihRest =>
      simp only [isFree, Bool.and_eq_true, Bool.not_eq_true'] at h
      obtain ⟨one, hone, hread⟩ := read_growAll_eq_some_iff.1 hread
      have hfirst := ihFirst h.1 mark hkind hone
      split at hread
      · exact Reader.growAll_makes (fun _ _ hround => ihRest h.2.1 mark (hfull _) hround)
          (fun hshape hparts => .node hshape h.2.2 hparts) _ hfirst hread
      · rw [hread]
        exact hfirst
  | loop body ih =>
      exact Reader.loop_makes (fun _ _ hround => ih h mark (hfull _) hround) _ _ _ hread
  | call rule => exact hcall rule (by simpa [isFree] using h) _ _ hread

end Grammar

theorem Rule.isFree {rule : Rule} (h : rule ≠ .statement .topLevel) :
    rule.grammar.isFree .full = true := by
  rcases rule with _ | place | place
  · decide +kernel
  · cases place <;> decide +kernel
  · cases place with
    | topLevel => exact absurd rfl h
    | multiclass => decide +kernel

theorem Rule.read_free (depth : Nat) {rule : Rule} (h : rule ≠ .statement .topLevel) :
    (Rule.read depth rule).Makes Draft.Free := by
  induction depth generalizing rule with
  | zero =>
      intro cursor reading hread
      cases hread
  | succ depth ih =>
      intro cursor reading hread
      exact Grammar.read_free (fun _ hrule => ih hrule) (Rule.isFree h) cursor.current
        (Kind.Set.contains_full _) hread

end TdSyntax
