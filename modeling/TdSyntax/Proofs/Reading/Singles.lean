import TdSyntax.Proofs.Reading.Progress
import TdSyntax.Proofs.Tree.Fenced

/-!
# Nodes of a single token

A grammar that makes nodes of a kind only around a token of one kind makes them so whatever
the text is: also behind an error, each of these nodes holds one token, of that kind.
-/

namespace TdSyntax

/-- Every node of the kind `outer` in the draft holds a single token, of the kind `inner`. -/
inductive Draft.Singles (outer inner : Kind) : Draft → Prop
  | token (content : Token) : Singles outer inner (.token content)
  | node {draft : Draft} {kind : Kind} {parts : List Draft}
      (hshape : draft.shape? = some (kind, parts))
      (hsingle : kind = outer → ∃ token, parts = [.token token] ∧ token.kind = inner)
      (hparts : ∀ part ∈ parts, Singles outer inner part) : Singles outer inner draft

namespace Draft.Singles

variable {outer inner : Kind} {draft : Draft}

theorem parts (h : draft.Singles outer inner) {kind : Kind} {own : List Draft}
    (hshape : draft.shape? = some (kind, own)) : ∀ part ∈ own, part.Singles outer inner := by
  cases h with
  | token content => cases hshape
  | node hown _ hparts =>
      cases hown.symm.trans hshape
      exact hparts

theorem single (h : draft.Singles outer inner) {own : List Draft}
    (hshape : draft.shape? = some (outer, own)) :
    ∃ token, own = [.token token] ∧ token.kind = inner := by
  cases h with
  | token content => cases hshape
  | node hown hsingle _ =>
      cases hown.symm.trans hshape
      exact hsingle rfl

theorem outlined (h : draft.Singles outer inner) {node : Node}
    (hnode : draft.Outlines (.node node)) (hkind : node.kind = outer) :
    ∃ token placed, node.elements = [.token placed] ∧ placed.Shows token ∧ token.kind = inner ∧
      node.text = .ok token.text := by
  cases hnode with
  | node hshape hown helements htext =>
      obtain rfl := hown.symm.trans hkind
      obtain ⟨token, rfl, htoken⟩ := h.single hshape
      obtain ⟨element, _, helement, hnil, hcons⟩ := List.forall₂_cons_left_iff.1 helements
      cases hnil
      obtain ⟨placed, rfl, hshows⟩ := Draft.outlines_token helement
      exact ⟨token, placed, hcons, hshows, htoken, htext token rfl⟩

end Draft.Singles

namespace Grammar

def kindsBehind (kinds : Kind.Set) : Grammar → Kind.Set
  | .complain _ | .note _ _ => kinds
  | _ => .full

/-- Whether nodes of the kind `outer` are only made of a token of the kind `inner`, if the
current token is of some kinds. -/
def singles (outer inner : Kind) (kinds : Kind.Set) : Grammar → Bool
  | .accept | .reject | .unreachable | .bump | .skip _ | .complain _ | .note _ _ | .call _ => true
  | .seq first second =>
      singles outer inner kinds first && singles outer inner (first.kindsBehind kinds) second
  | .ifOk test yes no =>
      singles outer inner kinds test &&
        (singles outer inner .full yes && singles outer inner .full no)
  | .ifAt among yes no =>
      singles outer inner (kinds.inter among) yes && singles outer inner (kinds.diff among) no
  | .ifText _ yes no => singles outer inner kinds yes && singles outer inner kinds no
  | .marked body => singles outer inner kinds body
  | .loop body => singles outer inner .full body
  | .group body accepted rejected =>
      if accepted = outer ∨ rejected = outer then
        body matches .bump && (kinds.diff (.singleton inner)).isEmpty
      else singles outer inner kinds body
  | .grow first kind rest | .growAll first kind rest =>
      singles outer inner kinds first && (singles outer inner .full rest && kind != outer)

end Grammar

structure Reading.Singles (outer inner : Kind) (reading : Reading) (cursor : Cursor) : Prop where
  eof : reading.cursor.eof = cursor.eof
  drafts : ∀ draft ∈ reading.drafts, draft.Singles outer inner

namespace Reading

variable {outer inner : Kind}

theorem idle_singles (accepted : Bool) (cursor : Cursor) :
    (idle accepted cursor).Singles outer inner cursor :=
  ⟨rfl, List.forall_mem_nil _⟩

theorem taking_singles (count : Nat) (cursor : Cursor) :
    (taking count cursor).Singles outer inner cursor := by
  refine ⟨rfl, fun draft hmem => ?_⟩
  obtain ⟨token, -, rfl⟩ := List.mem_map.1 hmem
  exact .token token

theorem reporting_singles (diagnostic : Diagnostic) (cursor : Cursor) :
    (reporting diagnostic cursor).Singles outer inner cursor :=
  ⟨rfl, List.forall_mem_nil _⟩

theorem bump_singles {cursor : Cursor} (heof : cursor.eof.kind = .eof) (hinner : inner ≠ .eof)
    (hkind : cursor.kind = inner) (kind : Kind) :
    ((taking 1 cursor).grouped kind kind).Singles outer inner cursor := by
  obtain ⟨token, rest, htokens⟩ :=
    List.exists_cons_of_length_pos (cursor.tokens_ne_nil heof (hkind ▸ hinner))
  have htoken : token.kind = inner := by
    rw [← hkind, Cursor.kind, Cursor.current, htokens]
    rfl
  have hparts : (taking 1 cursor).drafts = [.token token] := by simp [taking, htokens]
  refine ⟨rfl, List.forall_mem_singleton.2 (.node rfl (fun _ => ⟨token, hparts, htoken⟩) ?_)⟩
  exact (taking_singles 1 cursor).drafts

namespace Singles

variable {first second reading : Reading} {cursor : Cursor}

theorem followedBy (h : first.Singles outer inner cursor)
    (h' : second.Singles outer inner first.cursor) :
    (first.followedBy second).Singles outer inner cursor :=
  ⟨h'.eof.trans h.eof, List.forall_mem_append.2 ⟨h.drafts, h'.drafts⟩⟩

theorem withAccepted (h : reading.Singles outer inner cursor) (accepted : Bool) :
    (reading.withAccepted accepted).Singles outer inner cursor := ⟨h.eof, h.drafts⟩

theorem grownBy (h : first.Singles outer inner cursor)
    (h' : second.Singles outer inner first.cursor) {kind : Kind} (hkind : kind ≠ outer) :
    (first.grownBy second kind).Singles outer inner cursor where
  eof := h'.eof.trans h.eof
  drafts := Draft.forall_mem_growLast
    (fun hshape hparts => .node hshape (fun heq => absurd heq hkind) hparts) h.drafts h'.drafts

theorem grouped (h : reading.Singles outer inner cursor) {accepted rejected : Kind}
    (haccepted : accepted ≠ outer) (hrejected : rejected ≠ outer) :
    (reading.grouped accepted rejected).Singles outer inner cursor := by
  have hkind : (if reading.accepted then accepted else rejected) ≠ outer := by
    split <;> assumption
  exact ⟨h.eof,
    List.forall_mem_singleton.2 (.node rfl (fun heq => absurd heq hkind) h.drafts)⟩

end Singles

end Reading

def Reader.Singles (outer inner : Kind) (reader : Reader) : Prop :=
  ∀ cursor reading, cursor.eof.kind = .eof → reader cursor = some reading →
    reading.Singles outer inner cursor

namespace Reader

variable {outer inner : Kind} {body : Reader}

theorem loop_singles (h : body.Singles outer inner) (rounds : Nat) :
    (loop body rounds).Singles outer inner := by
  intro cursor reading heof hread
  exact loop_induction h (fun heof hround => hround.eof ▸ heof) .followedBy
    (fun hround => hround.withAccepted true) rounds heof hread

theorem growAll_singles (h : body.Singles outer inner) {kind : Kind} (hkind : kind ≠ outer)
    (rounds : Nat) {sofar reading : Reading} {cursor : Cursor} (heof : cursor.eof.kind = .eof)
    (hsofar : sofar.Singles outer inner cursor)
    (hread : growAll kind body rounds sofar = some reading) :
    reading.Singles outer inner cursor :=
  growAll_induction h (fun heof hround => hround.eof ▸ heof) .followedBy
    (fun hround => hround.withAccepted true)
    (fun hfirst hsecond => hfirst.grownBy hsecond hkind) rounds cursor heof hsofar hread

end Reader

namespace Grammar

variable {call : Rule → Reader} {outer inner : Kind}

theorem read_kindsBehind {grammar : Grammar} {kinds : Kind.Set} {mark : Token} {cursor : Cursor}
    {reading : Reading} (hkind : kinds.contains cursor.kind = true)
    (hread : grammar.read call mark cursor = some reading) :
    (grammar.kindsBehind kinds).contains reading.cursor.kind = true := by
  cases grammar with
  | complain problem =>
      simp only [read] at hread
      split at hread <;> cases hread <;> exact hkind
  | note place problem =>
      cases hread
      exact hkind
  | _ => exact Kind.Set.contains_full _

theorem read_singles (hcall : ∀ rule, (call rule).Singles outer inner) (hinner : inner ≠ .eof)
    (grammar : Grammar) {kinds : Kind.Set} (h : grammar.singles outer inner kinds = true)
    (mark : Token) {cursor : Cursor} {reading : Reading}
    (hkind : kinds.contains cursor.kind = true) (heof : cursor.eof.kind = .eof)
    (hread : grammar.read call mark cursor = some reading) :
    reading.Singles outer inner cursor := by
  have hfull (cursor : Cursor) : Kind.Set.full.contains cursor.kind = true :=
    Kind.Set.contains_full _
  induction grammar generalizing kinds mark cursor reading with
  | accept | reject =>
      cases hread
      exact Reading.idle_singles _ cursor
  | bump | skip =>
      cases hread
      exact Reading.taking_singles _ cursor
  | unreachable => cases hread
  | complain problem =>
      simp only [read] at hread
      split at hread <;> cases hread
      · exact Reading.idle_singles _ cursor
      · exact Reading.reporting_singles _ cursor
  | note place problem =>
      cases hread
      exact Reading.reporting_singles _ cursor
  | seq first second ihFirst ihSecond =>
      simp only [singles, Bool.and_eq_true] at h
      obtain ⟨one, hone, two, htwo, rfl⟩ := read_seq_eq_some_iff.1 hread
      have hfirst := ihFirst h.1 mark hkind heof hone
      exact hfirst.followedBy
        (ihSecond h.2 mark (read_kindsBehind hkind hone) (hfirst.eof ▸ heof) htwo)
  | ifOk test yes no ihTest ihYes ihNo =>
      simp only [singles, Bool.and_eq_true] at h
      obtain ⟨one, hone, two, htwo, rfl⟩ := read_ifOk_eq_some_iff.1 hread
      have htest := ihTest h.1 mark hkind heof hone
      have hnext := htest.eof ▸ heof
      split at htwo
      · exact htest.followedBy (ihYes h.2.1 mark (hfull _) hnext htwo)
      · exact htest.followedBy (ihNo h.2.2 mark (hfull _) hnext htwo)
  | ifAt among yes no ihYes ihNo =>
      simp only [singles, Bool.and_eq_true] at h
      rw [read_ifAt] at hread
      split at hread
      case isTrue hamong => exact ihYes h.1 mark (by simp [hkind, hamong]) heof hread
      case isFalse hamong => exact ihNo h.2 mark (by simp [hkind, hamong]) heof hread
  | ifText test yes no ihYes ihNo =>
      simp only [singles, Bool.and_eq_true] at h
      rw [read_ifText] at hread
      split at hread
      · exact ihYes h.1 mark hkind heof hread
      · exact ihNo h.2 mark hkind heof hread
  | marked body ih => exact ih h cursor.current hkind heof hread
  | group body accepted rejected ih =>
      obtain ⟨made, hmade, rfl⟩ := read_group_eq_some_iff.1 hread
      unfold singles at h
      split at h
      case isTrue houter =>
        simp only [Bool.and_eq_true] at h
        obtain ⟨hbump, hinside⟩ := h
        obtain rfl : body = .bump := by
          split at hbump
          · rfl
          · cases hbump
        cases hmade
        have hcurrent := Kind.Set.contains_of_isEmpty hinside cursor.kind
        simp only [Kind.Set.contains_diff, hkind, Bool.true_and, Bool.not_eq_false',
          Kind.Set.contains_singleton, decide_eq_true_eq] at hcurrent
        exact Reading.bump_singles heof hinner hcurrent.symm accepted
      case isFalse houter =>
        simp only [not_or] at houter
        exact (ih h mark hkind heof hmade).grouped houter.1 houter.2
  | grow first kind rest ihFirst ihRest =>
      simp only [singles, Bool.and_eq_true, bne_iff_ne] at h
      obtain ⟨one, hone, hread⟩ := read_grow_eq_some_iff.1 hread
      have hfirst := ihFirst h.1 mark hkind heof hone
      split at hread
      · obtain ⟨two, htwo, rfl⟩ := hread
        have hrest := ihRest h.2.1 mark (hfull _) (hfirst.eof ▸ heof) htwo
        split
        · exact hfirst.grownBy hrest h.2.2
        · exact (hfirst.followedBy hrest).withAccepted true
      · rw [hread]
        exact hfirst
  | growAll first kind rest ihFirst ihRest =>
      simp only [singles, Bool.and_eq_true, bne_iff_ne] at h
      obtain ⟨one, hone, hread⟩ := read_growAll_eq_some_iff.1 hread
      have hfirst := ihFirst h.1 mark hkind heof hone
      split at hread
      · refine Reader.growAll_singles ?_ h.2.2 _ heof hfirst hread
        exact fun _ _ hend hround => ihRest h.2.1 mark (hfull _) hend hround
      · rw [hread]
        exact hfirst
  | loop body ih =>
      refine Reader.loop_singles ?_ _ _ _ heof hread
      exact fun _ _ hend hround => ih h mark (hfull _) hend hround
  | call rule => exact hcall rule _ _ heof hread

end Grammar

theorem Rule.read_singles {outer inner : Kind} (hinner : inner ≠ .eof)
    (h : ∀ rule : Rule, rule.grammar.singles outer inner .full = true) (depth : Nat)
    (rule : Rule) : (Rule.read depth rule).Singles outer inner := by
  induction depth generalizing rule with
  | zero =>
      intro cursor reading _ hread
      cases hread
  | succ depth ih =>
      intro cursor reading heof hread
      exact Grammar.read_singles ih hinner rule.grammar (h rule) _ (Kind.Set.contains_full _) heof
        hread

end TdSyntax
