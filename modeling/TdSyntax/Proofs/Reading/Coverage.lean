import TdSyntax.Proofs.Event.Written
import TdSyntax.Proofs.Reading.Steps

/-!
# What a reading covers

Whatever a grammar makes of the tokens before a cursor, its drafts hold exactly the
tokens between this cursor and the one behind the reading, in their order.
-/

namespace TdSyntax

namespace Draft

theorem tokensAll_append (first second : List Draft) :
    tokensAll (first ++ second) = tokensAll first ++ tokensAll second := by
  induction first with
  | nil => rfl
  | cons draft first ih => simp [tokensAll, ih]

theorem wellFormedAll_append {first second : List Draft} :
    WellFormedAll (first ++ second) ↔ WellFormedAll first ∧ WellFormedAll second := by
  induction first with
  | nil => simp [WellFormedAll]
  | cons draft first ih => simp [WellFormedAll, ih, and_assoc]

theorem tokensAll_map_token (tokens : List Token) : tokensAll (tokens.map .token) = tokens := by
  induction tokens with
  | nil => rfl
  | cons token tokens ih => simp [tokensAll, Draft.tokens, ih]

theorem wellFormedAll_map_token (tokens : List Token) : WellFormedAll (tokens.map .token) := by
  induction tokens with
  | nil => trivial
  | cons token tokens ih => exact ⟨trivial, ih⟩

theorem tokens_grow (kind : Kind) (first : Draft) (rest : List Draft) :
    (grow kind first rest).tokens = first.tokens ++ tokensAll rest := by
  cases first <;> simp [grow, tokens, tokensAll]

theorem wellFormed_grow {kind : Kind} (hkind : kind ≠ .tombstone) {first : Draft}
    (hfirst : first.WellFormed) {rest : List Draft} (hrest : WellFormedAll rest) :
    (grow kind first rest).WellFormed := by
  cases first with
  | token content => exact ⟨hkind, hfirst, hrest⟩
  | node inner children => exact ⟨hkind, rfl, hfirst, hrest⟩
  | grown inner first others => exact ⟨hkind, rfl, hfirst, hrest⟩

theorem growLast_nil (kind : Kind) (rest : List Draft) :
    growLast kind [] rest = [.node kind rest] := rfl

theorem growLast_append_singleton (kind : Kind) (drafts : List Draft) (last : Draft)
    (rest : List Draft) :
    growLast kind (drafts ++ [last]) rest = drafts ++ [grow kind last rest] := by
  simp [growLast]

theorem tokensAll_growLast (kind : Kind) (drafts rest : List Draft) :
    tokensAll (growLast kind drafts rest) = tokensAll drafts ++ tokensAll rest := by
  rcases List.eq_nil_or_concat drafts with rfl | ⟨before, last, rfl⟩
  · simp [growLast_nil, tokensAll, tokens]
  · simp [growLast_append_singleton, tokensAll_append, tokensAll, tokens_grow]

theorem wellFormedAll_growLast {kind : Kind} (hkind : kind ≠ .tombstone)
    {drafts rest : List Draft} (hdrafts : WellFormedAll drafts) (hrest : WellFormedAll rest) :
    WellFormedAll (growLast kind drafts rest) := by
  rcases List.eq_nil_or_concat drafts with rfl | ⟨before, last, rfl⟩
  · exact ⟨⟨hkind, hrest⟩, trivial⟩
  · rw [List.concat_eq_append] at hdrafts ⊢
    rw [growLast_append_singleton]
    have hparts := wellFormedAll_append.1 hdrafts
    exact wellFormedAll_append.2 ⟨hparts.1, wellFormed_grow hkind hparts.2.1 hrest, trivial⟩

end Draft

/-- A reading takes the next tokens and nothing else. -/
structure Reading.Covers (reading : Reading) (cursor : Cursor) : Prop where
  tokens : cursor.tokens = Draft.tokensAll reading.drafts ++ reading.cursor.tokens
  eof : reading.cursor.eof = cursor.eof
  wellFormed : Draft.WellFormedAll reading.drafts

namespace Reading

theorem idle_covers (accepted : Bool) (cursor : Cursor) :
    (idle accepted cursor).Covers cursor := ⟨rfl, rfl, trivial⟩

theorem reporting_covers (diagnostic : Diagnostic) (cursor : Cursor) :
    (reporting diagnostic cursor).Covers cursor := ⟨rfl, rfl, trivial⟩

theorem taking_covers (count : Nat) (cursor : Cursor) :
    (taking count cursor).Covers cursor := by
  refine ⟨?_, rfl, Draft.wellFormedAll_map_token _⟩
  rw [taking, Draft.tokensAll_map_token, List.take_append_drop]

namespace Covers

variable {first second reading : Reading} {cursor : Cursor}

theorem followedBy (h : first.Covers cursor) (h' : second.Covers first.cursor) :
    (first.followedBy second).Covers cursor where
  tokens := by
    rw [h.tokens, h'.tokens]
    simp [Reading.followedBy, Draft.tokensAll_append]
  eof := h'.eof.trans h.eof
  wellFormed := Draft.wellFormedAll_append.2 ⟨h.wellFormed, h'.wellFormed⟩

theorem withAccepted (h : reading.Covers cursor) (accepted : Bool) :
    (reading.withAccepted accepted).Covers cursor := ⟨h.tokens, h.eof, h.wellFormed⟩

theorem grouped (h : reading.Covers cursor) {accepted rejected : Kind}
    (haccepted : accepted ≠ .tombstone) (hrejected : rejected ≠ .tombstone) :
    (reading.grouped accepted rejected).Covers cursor where
  tokens := by
    rw [h.tokens]
    simp [Reading.grouped, Draft.tokensAll, Draft.tokens]
  eof := h.eof
  wellFormed := by
    refine ⟨⟨?_, h.wellFormed⟩, trivial⟩
    split <;> assumption

theorem grownBy (h : first.Covers cursor) (h' : second.Covers first.cursor) {kind : Kind}
    (hkind : kind ≠ .tombstone) : (first.grownBy second kind).Covers cursor where
  tokens := by
    rw [h.tokens, h'.tokens]
    simp [Reading.grownBy, Reading.followedBy, Draft.tokensAll_growLast]
  eof := h'.eof.trans h.eof
  wellFormed := Draft.wellFormedAll_growLast hkind h.wellFormed h'.wellFormed

end Covers

end Reading

namespace Reader

def Covers (reader : Reader) : Prop :=
  ∀ cursor reading, reader cursor = some reading → reading.Covers cursor

variable {body : Reader}

theorem loop_covers (h : body.Covers) (rounds : Nat) : (loop body rounds).Covers := by
  intro cursor reading hread
  exact loop_induction (fun cursor reading (_ : True) => h cursor reading) (fun _ _ => trivial)
    .followedBy (fun hround => hround.withAccepted true) rounds trivial hread

theorem growAll_covers (h : body.Covers) {kind : Kind} (hkind : kind ≠ .tombstone)
    (rounds : Nat) {sofar reading : Reading} {cursor : Cursor} (hsofar : sofar.Covers cursor)
    (hread : growAll kind body rounds sofar = some reading) : reading.Covers cursor :=
  growAll_induction (fun cursor reading (_ : True) => h cursor reading) (fun _ _ => trivial)
    .followedBy (fun hround => hround.withAccepted true)
    (fun hfirst hsecond => hfirst.grownBy hsecond hkind) rounds cursor trivial hsofar hread

end Reader

namespace Grammar

def isNamed : Grammar → Bool
  | .accept | .reject | .unreachable | .bump | .skip _ | .complain _ | .note _ _
  | .call _ => true
  | .seq first second => isNamed first && isNamed second
  | .ifOk test yes no => isNamed test && (isNamed yes && isNamed no)
  | .ifAt _ yes no | .ifText _ yes no => isNamed yes && isNamed no
  | .marked body | .loop body => isNamed body
  | .group body accepted rejected =>
      isNamed body && (accepted ≠ .tombstone && rejected ≠ .tombstone)
  | .grow first kind rest | .growAll first kind rest =>
      isNamed first && (isNamed rest && kind ≠ .tombstone)

theorem read_covers {call : Rule → Reader} (hcall : ∀ rule, (call rule).Covers)
    {grammar : Grammar} (h : grammar.isNamed = true) (mark : Token) :
    Reader.Covers (grammar.read call mark) := by
  induction grammar generalizing mark with
  | accept | reject | bump | skip | note =>
      intro cursor reading hread
      cases hread
      first
        | exact Reading.idle_covers _ cursor
        | exact Reading.taking_covers _ cursor
        | exact Reading.reporting_covers _ cursor
  | unreachable =>
      intro cursor reading hread
      cases hread
  | complain problem =>
      intro cursor reading hread
      simp only [read] at hread
      split at hread <;> cases hread
      · exact Reading.idle_covers _ cursor
      · exact Reading.reporting_covers _ cursor
  | seq first second ihFirst ihSecond =>
      intro cursor reading hread
      simp only [isNamed, Bool.and_eq_true] at h
      obtain ⟨one, hone, two, htwo, rfl⟩ := read_seq_eq_some_iff.1 hread
      exact (ihFirst h.1 mark _ _ hone).followedBy (ihSecond h.2 mark _ _ htwo)
  | ifOk test yes no ihTest ihYes ihNo =>
      intro cursor reading hread
      simp only [isNamed, Bool.and_eq_true] at h
      obtain ⟨one, hone, two, htwo, rfl⟩ := read_ifOk_eq_some_iff.1 hread
      have htest := ihTest h.1 mark _ _ hone
      split at htwo
      · exact htest.followedBy (ihYes h.2.1 mark _ _ htwo)
      · exact htest.followedBy (ihNo h.2.2 mark _ _ htwo)
  | ifAt kinds yes no ihYes ihNo =>
      intro cursor reading hread
      simp only [isNamed, Bool.and_eq_true] at h
      rw [read_ifAt] at hread
      split at hread
      · exact ihYes h.1 mark _ _ hread
      · exact ihNo h.2 mark _ _ hread
  | ifText test yes no ihYes ihNo =>
      intro cursor reading hread
      simp only [isNamed, Bool.and_eq_true] at h
      rw [read_ifText] at hread
      split at hread
      · exact ihYes h.1 mark _ _ hread
      · exact ihNo h.2 mark _ _ hread
  | marked body ih =>
      intro cursor reading hread
      exact ih h cursor.current _ _ hread
  | group body accepted rejected ih =>
      intro cursor reading hread
      simp only [isNamed, Bool.and_eq_true, decide_eq_true_eq] at h
      obtain ⟨inner, hinner, rfl⟩ := read_group_eq_some_iff.1 hread
      exact (ih h.1 mark _ _ hinner).grouped h.2.1 h.2.2
  | grow first kind rest ihFirst ihRest =>
      intro cursor reading hread
      simp only [isNamed, Bool.and_eq_true, decide_eq_true_eq] at h
      obtain ⟨one, hone, hread⟩ := read_grow_eq_some_iff.1 hread
      have hfirst := ihFirst h.1 mark _ _ hone
      split at hread
      · obtain ⟨two, htwo, rfl⟩ := hread
        have hrest := ihRest h.2.1 mark _ _ htwo
        split
        · exact hfirst.grownBy hrest h.2.2
        · exact (hfirst.followedBy hrest).withAccepted true
      · rw [hread]
        exact hfirst
  | growAll first kind rest ihFirst ihRest =>
      intro cursor reading hread
      simp only [isNamed, Bool.and_eq_true, decide_eq_true_eq] at h
      obtain ⟨one, hone, hread⟩ := read_growAll_eq_some_iff.1 hread
      have hfirst := ihFirst h.1 mark _ _ hone
      split at hread
      · exact Reader.growAll_covers (ihRest h.2.1 mark) h.2.2 _ hfirst hread
      · rw [hread]
        exact hfirst
  | loop body ih =>
      intro cursor reading hread
      exact Reader.loop_covers (ih h mark) _ _ _ hread
  | call rule => exact hcall rule

end Grammar

theorem Rule.isNamed (rule : Rule) : rule.grammar.isNamed = true := by
  rcases rule with _ | place | place
  · rfl
  · cases place <;> rfl
  · cases place <;> rfl

theorem Rule.read_covers (depth : Nat) (rule : Rule) : (Rule.read depth rule).Covers := by
  induction depth generalizing rule with
  | zero =>
      intro cursor reading hread
      cases hread
  | succ depth ih =>
      intro cursor reading hread
      exact Grammar.read_covers ih rule.isNamed cursor.current cursor reading hread

end TdSyntax
