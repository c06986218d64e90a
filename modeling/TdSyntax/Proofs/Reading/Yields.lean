import TdSyntax.Proofs.Reading.Steps
import TdSyntax.Proofs.Term.ValueTree

/-!
# What a grammar makes of atoms

A grammar yields trees from some atoms if every reading of the tokens of these atoms,
with a token of a certain kind behind them, makes these trees, reports nothing and
stands behind the atoms.  Each way to compose grammars has a rule for this judgement.
-/

namespace TdSyntax

structure Cursor.Spans (cursor : Cursor) (words : List Word) (later : Cursor) : Prop where
  tokens : ∃ taken, cursor.tokens = taken ++ later.tokens ∧ taken.map Token.word = words
  eof : later.eof = cursor.eof
  reported : later.reported = cursor.reported

namespace Cursor.Spans

variable {cursor later : Cursor}

theorem eq_of_nil (h : cursor.Spans [] later) : later = cursor := by
  obtain ⟨⟨taken, htokens, hwords⟩, heof, hreported⟩ := h
  obtain rfl := List.map_eq_nil_iff.1 hwords
  obtain ⟨tokens, eof, reported⟩ := cursor
  obtain ⟨tokens', eof', reported'⟩ := later
  simp only [List.nil_append] at htokens heof hreported
  rw [htokens, heof, hreported]

theorem refl (cursor : Cursor) : cursor.Spans [] cursor := ⟨⟨[], rfl, rfl⟩, rfl, rfl⟩

theorem split {first second : List Word} (h : cursor.Spans (first ++ second) later) :
    ∃ middle, cursor.Spans first middle ∧ Spans middle second later := by
  obtain ⟨⟨taken, htokens, hwords⟩, heof, hreported⟩ := h
  obtain ⟨one, two, rfl, hone, htwo⟩ := List.map_eq_append_iff.1 hwords
  exact ⟨{ cursor with tokens := two ++ later.tokens },
    ⟨⟨one, by rw [htokens, List.append_assoc], hone⟩, rfl, rfl⟩,
    ⟨⟨two, rfl, htwo⟩, heof, hreported⟩⟩

theorem cons {word : Word} {words : List Word} (h : cursor.Spans (word :: words) later) :
    ∃ token tokens, cursor.tokens = token :: tokens ∧ token.word = word ∧
      Spans { cursor with tokens := tokens } words later := by
  obtain ⟨⟨taken, htokens, hwords⟩, heof, hreported⟩ := h
  obtain ⟨token, rest, rfl, hword, hrest⟩ := List.map_eq_cons_iff.1 hwords
  exact ⟨token, rest ++ later.tokens, htokens, hword, ⟨⟨rest, rfl, hrest⟩, heof, hreported⟩⟩

end Cursor.Spans

namespace Atom

theorem words_ne_nil (atom : Atom) : ∃ rest, atom.words = atom.word :: rest := by
  cases atom <;> exact ⟨_, rfl⟩

@[simp] theorem wordsAll_nil : wordsAll [] = [] := rfl

@[simp] theorem wordsAll_cons (atom : Atom) (rest : List Atom) :
    wordsAll (atom :: rest) = atom.words ++ wordsAll rest := rfl

@[simp] theorem wordsAll_append (first second : List Atom) :
    wordsAll (first ++ second) = wordsAll first ++ wordsAll second := by
  simp [wordsAll]

@[simp] theorem headKind_nil (next : Kind) : headKind [] next = next := rfl

@[simp] theorem headKind_cons (atom : Atom) (rest : List Atom) (next : Kind) :
    headKind (atom :: rest) next = atom.kind := rfl

@[simp] theorem headKind_append (first second : List Atom) (next : Kind) :
    headKind (first ++ second) next = headKind first (headKind second next) := by
  cases first <;> rfl

end Atom

def Word.headKind (words : List Word) (next : Kind) : Kind := (words.head?.map Word.kind).getD next

theorem Atom.headKind_eq (atoms : List Atom) (next : Kind) :
    headKind atoms next = Word.headKind (wordsAll atoms) next := by
  cases atoms with
  | nil => rfl
  | cons atom rest =>
      obtain ⟨words, hwords⟩ := atom.words_ne_nil
      rw [wordsAll_cons, hwords]
      rfl

theorem Cursor.Spans.headKind {cursor later : Cursor} {words : List Word}
    (h : cursor.Spans words later) : cursor.kind = Word.headKind words later.kind := by
  cases words with
  | nil => rw [h.eq_of_nil]; rfl
  | cons word words =>
      obtain ⟨token, tokens, htokens, rfl, -⟩ := h.cons
      rw [Cursor.kind, Cursor.current, htokens]
      rfl

/-- A reading makes some trees, reports nothing and stands at a cursor. -/
structure Reading.Gives (reading : Reading) (accepted : Bool) (trees : List BareTree)
    (later : Cursor) : Prop where
  accepted : reading.accepted = accepted
  drafts : Draft.bareAll reading.drafts = trees
  diagnostics : reading.diagnostics = []
  cursor : reading.cursor = later

namespace Reading.Gives

variable {first second reading : Reading} {one two : Bool} {trees others : List BareTree}
  {middle later : Cursor}

theorem followedBy (h : first.Gives one trees middle) (h' : second.Gives two others later) :
    (first.followedBy second).Gives two (trees ++ others) later where
  accepted := h'.accepted
  drafts := by simp only [Reading.followedBy, Draft.bareAll_append, h.drafts, h'.drafts]
  diagnostics := by simp only [Reading.followedBy, h.diagnostics, h'.diagnostics, List.append_nil]
  cursor := h'.cursor

theorem withAccepted (h : reading.Gives one trees later) (accepted : Bool) :
    (reading.withAccepted accepted).Gives accepted trees later :=
  ⟨rfl, h.drafts, h.diagnostics, h.cursor⟩

theorem grouped (h : reading.Gives one trees later) (accepted rejected : Kind) :
    (reading.grouped accepted rejected).Gives true
      [.node (if one then accepted else rejected) trees] later where
  accepted := rfl
  drafts := by simp only [Reading.grouped, Draft.bareAll, Draft.bare, h.drafts, h.accepted]
  diagnostics := h.diagnostics
  cursor := h.cursor

theorem grownBy (h : first.Gives one trees middle) (h' : second.Gives two others later)
    (kind : Kind) :
    (first.grownBy second kind).Gives two (BareTree.growLast kind trees others) later where
  accepted := h'.accepted
  drafts := by simp only [Reading.grownBy, Draft.bareAll_growLast, h.drafts, h'.drafts]
  diagnostics := by
    simp only [Reading.grownBy, Reading.followedBy, h.diagnostics, h'.diagnostics,
      List.append_nil]
  cursor := h'.cursor

end Reading.Gives

namespace Grammar

/-- What a reading of the words gives, with a token of the kind `next` behind them. -/
def Builds (grammar : Grammar) (words : List Word) (next : Kind) (trees : List BareTree)
    (accepted : Bool) : Prop :=
  ∀ ⦃depth : Nat⦄ ⦃mark : Token⦄ ⦃cursor later : Cursor⦄ ⦃reading : Reading⦄,
    cursor.Spans words later → later.kind = next →
    grammar.read (Rule.read depth) mark cursor = some reading →
    reading.Gives accepted trees later

def LoopBuilds (body : Grammar) (words : List Word) (next : Kind) (trees : List BareTree) :
    Prop :=
  ∀ ⦃depth rounds : Nat⦄ ⦃mark : Token⦄ ⦃cursor later : Cursor⦄ ⦃reading : Reading⦄,
    cursor.Spans words later → later.kind = next →
    Reader.loop (body.read (Rule.read depth) mark) rounds cursor = some reading →
    reading.Gives true trees later

def GrowBuilds (rest : Grammar) (kind : Kind) (start : List BareTree) (words : List Word)
    (next : Kind) (trees : List BareTree) : Prop :=
  ∀ ⦃depth rounds : Nat⦄ ⦃mark : Token⦄ ⦃cursor later : Cursor⦄ ⦃sofar reading : Reading⦄,
    sofar.Gives true start cursor → cursor.Spans words later →
    later.kind = next →
    Reader.growAll kind (rest.read (Rule.read depth) mark) rounds sofar = some reading →
    reading.Gives true trees later

section

variable {first second test yes no body rest : Grammar} {words more : List Word} {word : Word}
  {next kind : Kind} {trees others : List BareTree} {one two : Bool}

theorem accept_builds (next : Kind) : Grammar.accept.Builds [] next [] true := by
  intro depth mark cursor later reading hspans _ hread
  cases hread
  exact ⟨rfl, rfl, rfl, hspans.eq_of_nil.symm⟩

theorem reject_builds (next : Kind) : Grammar.reject.Builds [] next [] false := by
  intro depth mark cursor later reading hspans _ hread
  cases hread
  exact ⟨rfl, rfl, rfl, hspans.eq_of_nil.symm⟩

theorem bump_builds (word : Word) (next : Kind) :
    Grammar.bump.Builds [word] next [.token word] true := by
  intro depth mark cursor later reading hspans _ hread
  obtain ⟨token, tokens, htokens, hword, hrest⟩ := hspans.cons
  cases hread
  refine ⟨rfl, ?_, rfl, ?_⟩
  · simp [Reading.taking, htokens, Draft.bareAll, Draft.bare, hword]
  · rw [hrest.eq_of_nil]
    simp [Reading.taking, htokens]

theorem seq_builds (h : first.Builds words (Word.headKind more next) trees one)
    (h' : second.Builds more next others two) :
    (Grammar.seq first second).Builds (words ++ more) next (trees ++ others) two := by
  intro depth mark cursor later reading hspans hnext hread
  obtain ⟨middle, hwords, hmore⟩ := hspans.split
  obtain ⟨before, hbefore, after, hafter, rfl⟩ := read_seq_eq_some_iff.1 hread
  have hone := h hwords (by rw [hmore.headKind, hnext]) hbefore
  rw [hone.cursor] at hafter
  exact hone.followedBy (h' hmore hnext hafter)

theorem ifOk_builds (h : test.Builds words (Word.headKind more next) trees one)
    (h' : (if one then yes else no).Builds more next others two) :
    (Grammar.ifOk test yes no).Builds (words ++ more) next (trees ++ others) two := by
  intro depth mark cursor later reading hspans hnext hread
  obtain ⟨middle, hwords, hmore⟩ := hspans.split
  obtain ⟨before, hbefore, after, hafter, rfl⟩ := read_ifOk_eq_some_iff.1 hread
  have hone := h hwords (by rw [hmore.headKind, hnext]) hbefore
  rw [hone.cursor, hone.accepted] at hafter
  exact hone.followedBy (h' hmore hnext hafter)

theorem ifAt_builds {kinds : Kind.Set}
    (h : (if kinds.contains (Word.headKind words next) then yes else no).Builds words next trees
      one) : (Grammar.ifAt kinds yes no).Builds words next trees one := by
  intro depth mark cursor later reading hspans hnext hread
  rw [read_ifAt, hspans.headKind, hnext] at hread
  exact h hspans hnext hread

theorem marked_builds (h : body.Builds words next trees one) :
    (Grammar.marked body).Builds words next trees one := by
  intro depth mark cursor later reading hspans hnext hread
  exact h hspans hnext hread

theorem group_builds {accepted rejected : Kind} (h : body.Builds words next trees one) :
    (Grammar.group body accepted rejected).Builds words next
      [.node (if one then accepted else rejected) trees] true := by
  intro depth mark cursor later reading hspans hnext hread
  obtain ⟨inner, hinner, rfl⟩ := read_group_eq_some_iff.1 hread
  exact (h hspans hnext hinner).grouped accepted rejected

theorem grow_builds (h : first.Builds words (Word.headKind more next) trees true)
    (h' : rest.Builds more next others true) :
    (Grammar.grow first kind rest).Builds (words ++ more) next
      (BareTree.growLast kind trees others) true := by
  intro depth mark cursor later reading hspans hnext hread
  obtain ⟨middle, hwords, hmore⟩ := hspans.split
  obtain ⟨before, hbefore, hread⟩ := read_grow_eq_some_iff.1 hread
  have hone := h hwords (by rw [hmore.headKind, hnext]) hbefore
  rw [hone.accepted, if_pos rfl, hone.cursor] at hread
  obtain ⟨after, hafter, rfl⟩ := hread
  have htwo := h' hmore hnext hafter
  rw [htwo.accepted, if_pos rfl]
  exact hone.grownBy htwo kind

theorem grow_alone_builds (h : first.Builds words next trees true)
    (h' : rest.Builds [] next [] false) :
    (Grammar.grow first kind rest).Builds words next trees true := by
  intro depth mark cursor later reading hspans hnext hread
  obtain ⟨before, hbefore, hread⟩ := read_grow_eq_some_iff.1 hread
  have hone := h hspans hnext hbefore
  rw [hone.accepted, if_pos rfl, hone.cursor] at hread
  obtain ⟨after, hafter, rfl⟩ := hread
  have htwo := h' (.refl later) hnext hafter
  rw [htwo.accepted, if_neg (by simp)]
  have hboth := (hone.followedBy htwo).withAccepted true
  rwa [List.append_nil] at hboth

theorem call_builds {rule : Rule} (h : rule.grammar.Builds words next trees one) :
    (Grammar.call rule).Builds words next trees one := by
  intro depth mark cursor later reading hspans hnext hread
  cases depth with
  | zero => cases hread
  | succ depth => exact h hspans hnext hread

theorem loop_last_builds (h : body.Builds words next trees false) :
    body.LoopBuilds words next trees := by
  intro depth rounds mark cursor later reading hspans hnext hread
  cases rounds with
  | zero => cases hread
  | succ rounds =>
      obtain ⟨round, hround, hread⟩ := Reader.loop_succ_eq_some_iff.1 hread
      have hone := h hspans hnext hround
      rw [hone.accepted, if_neg (by simp)] at hread
      rw [hread]
      exact hone.withAccepted true

theorem loop_cons_builds (h : body.Builds words (Word.headKind more next) trees true)
    (h' : body.LoopBuilds more next others) :
    body.LoopBuilds (words ++ more) next (trees ++ others) := by
  intro depth rounds mark cursor later reading hspans hnext hread
  cases rounds with
  | zero => cases hread
  | succ rounds =>
      obtain ⟨middle, hwords, hmore⟩ := hspans.split
      obtain ⟨round, hround, hread⟩ := Reader.loop_succ_eq_some_iff.1 hread
      have hone := h hwords (by rw [hmore.headKind, hnext]) hround
      rw [hone.accepted, if_pos rfl, hone.cursor] at hread
      obtain ⟨remaining, hremaining, rfl⟩ := hread
      exact hone.followedBy (h' hmore hnext hremaining)

theorem loop_builds (h : body.LoopBuilds words next trees) :
    (Grammar.loop body).Builds words next trees true := by
  intro depth mark cursor later reading hspans hnext hread
  exact h hspans hnext hread

theorem growAll_nil_builds (h : rest.Builds [] next [] false) :
    rest.GrowBuilds kind trees [] next trees := by
  intro depth rounds mark cursor later sofar reading hsofar hspans hnext hread
  cases rounds with
  | zero => cases hread
  | succ rounds =>
      obtain ⟨round, hround, hread⟩ := Reader.growAll_succ_eq_some_iff.1 hread
      rw [hsofar.cursor] at hround
      have hone := h hspans hnext hround
      rw [hone.accepted, if_neg (by simp)] at hread
      rw [hread]
      have hboth := (hsofar.followedBy hone).withAccepted true
      rwa [List.append_nil] at hboth

theorem growAll_cons_builds {start : List BareTree}
    (h : rest.Builds words (Word.headKind more next) others true)
    (h' : rest.GrowBuilds kind (BareTree.growLast kind start others) more next trees) :
    rest.GrowBuilds kind start (words ++ more) next trees := by
  intro depth rounds mark cursor later sofar reading hsofar hspans hnext hread
  cases rounds with
  | zero => cases hread
  | succ rounds =>
      obtain ⟨middle, hwords, hmore⟩ := hspans.split
      obtain ⟨round, hround, hread⟩ := Reader.growAll_succ_eq_some_iff.1 hread
      rw [hsofar.cursor] at hround
      have hone := h hwords (by rw [hmore.headKind, hnext]) hround
      rw [hone.accepted, if_pos rfl] at hread
      exact h' (hsofar.grownBy hone kind) hmore hnext hread

theorem growAll_builds {start : List BareTree}
    (h : first.Builds words (Word.headKind more next) start true)
    (h' : rest.GrowBuilds kind start more next trees) :
    (Grammar.growAll first kind rest).Builds (words ++ more) next trees true := by
  intro depth mark cursor later reading hspans hnext hread
  obtain ⟨middle, hwords, hmore⟩ := hspans.split
  obtain ⟨before, hbefore, hread⟩ := read_growAll_eq_some_iff.1 hread
  have hone := h hwords (by rw [hmore.headKind, hnext]) hbefore
  rw [hone.accepted, if_pos rfl] at hread
  exact h' hone hmore hnext hread

end

/-! ## Atoms -/

/-- What a reading of the atoms gives, with a token of the kind `next` behind them. -/
def Yields (grammar : Grammar) (atoms : List Atom) (next : Kind) (trees : List BareTree)
    (accepted : Bool) : Prop :=
  ∀ ⦃depth : Nat⦄ ⦃mark : Token⦄ ⦃cursor later : Cursor⦄ ⦃reading : Reading⦄,
    cursor.Spans (Atom.wordsAll atoms) later → later.kind = next →
    grammar.read (Rule.read depth) mark cursor = some reading →
    reading.Gives accepted trees later

def LoopYields (body : Grammar) (atoms : List Atom) (next : Kind) (trees : List BareTree) :
    Prop :=
  ∀ ⦃depth rounds : Nat⦄ ⦃mark : Token⦄ ⦃cursor later : Cursor⦄ ⦃reading : Reading⦄,
    cursor.Spans (Atom.wordsAll atoms) later → later.kind = next →
    Reader.loop (body.read (Rule.read depth) mark) rounds cursor = some reading →
    reading.Gives true trees later

def GrowYields (rest : Grammar) (kind : Kind) (start : List BareTree) (atoms : List Atom)
    (next : Kind) (trees : List BareTree) : Prop :=
  ∀ ⦃depth rounds : Nat⦄ ⦃mark : Token⦄ ⦃cursor later : Cursor⦄ ⦃sofar reading : Reading⦄,
    sofar.Gives true start cursor → cursor.Spans (Atom.wordsAll atoms) later →
    later.kind = next →
    Reader.growAll kind (rest.read (Rule.read depth) mark) rounds sofar = some reading →
    reading.Gives true trees later

variable {first second test yes no body rest : Grammar} {atoms more : List Atom} {atom : Atom}
  {next kind : Kind} {trees others : List BareTree} {one two : Bool}

theorem accept_yields (next : Kind) : Grammar.accept.Yields [] next [] true := accept_builds next

theorem reject_yields (next : Kind) : Grammar.reject.Yields [] next [] false := reject_builds next

theorem bump_yields {word : Word} (h : atom.words = [word]) (next : Kind) :
    Grammar.bump.Yields [atom] next [.token word] true := by
  have hwords : Atom.wordsAll [atom] = [word] := by rw [Atom.wordsAll_cons, h]; rfl
  have hbuilds := bump_builds word next
  rwa [← hwords] at hbuilds

theorem seq_yields (h : first.Yields atoms (Atom.headKind more next) trees one)
    (h' : second.Yields more next others two) :
    (Grammar.seq first second).Yields (atoms ++ more) next (trees ++ others) two := by
  rw [Atom.headKind_eq] at h
  have hbuilds := seq_builds h h'
  rwa [← Atom.wordsAll_append] at hbuilds

theorem ifOk_yields (h : test.Yields atoms (Atom.headKind more next) trees one)
    (h' : (if one then yes else no).Yields more next others two) :
    (Grammar.ifOk test yes no).Yields (atoms ++ more) next (trees ++ others) two := by
  rw [Atom.headKind_eq] at h
  have hbuilds := ifOk_builds h h'
  rwa [← Atom.wordsAll_append] at hbuilds

theorem ifAt_yields {kinds : Kind.Set}
    (h : (if kinds.contains (Atom.headKind atoms next) then yes else no).Yields atoms next trees
      one) : (Grammar.ifAt kinds yes no).Yields atoms next trees one := by
  rw [Atom.headKind_eq] at h
  exact ifAt_builds h

theorem marked_yields (h : body.Yields atoms next trees one) :
    (Grammar.marked body).Yields atoms next trees one := marked_builds h

theorem group_yields {accepted rejected : Kind} (h : body.Yields atoms next trees one) :
    (Grammar.group body accepted rejected).Yields atoms next
      [.node (if one then accepted else rejected) trees] true := group_builds h

theorem grow_yields (h : first.Yields atoms (Atom.headKind more next) trees true)
    (h' : rest.Yields more next others true) :
    (Grammar.grow first kind rest).Yields (atoms ++ more) next
      (BareTree.growLast kind trees others) true := by
  rw [Atom.headKind_eq] at h
  have hbuilds := @grow_builds first rest _ _ next kind _ _ h h'
  rwa [← Atom.wordsAll_append] at hbuilds

theorem grow_alone (h : first.Yields atoms next trees true)
    (h' : rest.Yields [] next [] false) :
    (Grammar.grow first kind rest).Yields atoms next trees true := grow_alone_builds h h'

theorem call_yields {rule : Rule} (h : rule.grammar.Yields atoms next trees one) :
    (Grammar.call rule).Yields atoms next trees one := call_builds h

theorem loop_last (h : body.Yields atoms next trees false) : body.LoopYields atoms next trees :=
  loop_last_builds h

theorem loop_cons (h : body.Yields atoms (Atom.headKind more next) trees true)
    (h' : body.LoopYields more next others) :
    body.LoopYields (atoms ++ more) next (trees ++ others) := by
  rw [Atom.headKind_eq] at h
  have hbuilds := loop_cons_builds h h'
  rwa [← Atom.wordsAll_append] at hbuilds

theorem loop_yields (h : body.LoopYields atoms next trees) :
    (Grammar.loop body).Yields atoms next trees true := loop_builds h

theorem growAll_nil (h : rest.Yields [] next [] false) :
    rest.GrowYields kind trees [] next trees := growAll_nil_builds h

theorem growAll_cons {start : List BareTree}
    (h : rest.Yields atoms (Atom.headKind more next) others true)
    (h' : rest.GrowYields kind (BareTree.growLast kind start others) more next trees) :
    rest.GrowYields kind start (atoms ++ more) next trees := by
  rw [Atom.headKind_eq] at h
  have hbuilds := growAll_cons_builds h h'
  rwa [← Atom.wordsAll_append] at hbuilds

theorem growAll_pair {tree other : BareTree}
    (h : rest.Yields atoms (Atom.headKind more next) [other] true)
    (h' : rest.GrowYields kind [.node kind [tree, other]] more next trees) :
    rest.GrowYields kind [tree] (atoms ++ more) next trees := growAll_cons h h'

theorem growAll_yields {start : List BareTree}
    (h : first.Yields atoms (Atom.headKind more next) start true)
    (h' : rest.GrowYields kind start more next trees) :
    (Grammar.growAll first kind rest).Yields (atoms ++ more) next trees true := by
  rw [Atom.headKind_eq] at h
  have hbuilds := growAll_builds h h'
  rwa [← Atom.wordsAll_append] at hbuilds

end Grammar

end TdSyntax
