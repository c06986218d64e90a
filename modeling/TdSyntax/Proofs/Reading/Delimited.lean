import TdSyntax.Proofs.Reading.Yields

/-!
# What composed grammars make of atoms

Rules for the grammars that are put together from others: the choice by the next
token, expected and optional tokens, nodes, and lists between delimiters.
-/

namespace TdSyntax.Grammar

def facing (kind : Kind) : Grammar → Grammar
  | .ifAt kinds yes no => if kinds.contains kind then facing kind yes else facing kind no
  | grammar => grammar

theorem builds_of_facing {grammar : Grammar} {words : List Word} {next : Kind}
    {trees : List BareTree} {accepted : Bool}
    (h : (grammar.facing (Word.headKind words next)).Builds words next trees accepted) :
    grammar.Builds words next trees accepted := by
  induction grammar with
  | ifAt kinds yes no ihYes ihNo =>
      refine ifAt_builds ?_
      simp only [facing] at h
      split
      · rename_i hkind
        rw [if_pos hkind] at h
        exact ihYes h
      · rename_i hkind
        rw [if_neg hkind] at h
        exact ihNo h
  | _ => exact h

theorem choose_builds {grammar : Grammar} {words : List Word} {next : Kind}
    {trees : List BareTree} {accepted : Bool} (kind : Kind)
    (hkind : Word.headKind words next = kind)
    (h : (grammar.facing kind).Builds words next trees accepted) :
    grammar.Builds words next trees accepted := by
  refine builds_of_facing ?_
  rw [hkind]
  exact h

variable {grammar first second body element test yes no : Grammar} {atoms more : List Atom}
  {atom : Atom} {next kind : Kind} {tree : BareTree} {trees others : List BareTree}
  {one two : Bool}

theorem choose (kind : Kind) (hkind : Atom.headKind atoms next = kind)
    (h : (grammar.facing kind).Yields atoms next trees one) :
    grammar.Yields atoms next trees one :=
  choose_builds kind ((Atom.headKind_eq atoms next).symm.trans hkind) h

theorem ifAt_pos {kinds : Kind.Set} (hkind : kinds.contains (Atom.headKind atoms next) = true)
    (h : yes.Yields atoms next trees one) :
    (Grammar.ifAt kinds yes no).Yields atoms next trees one := by
  refine ifAt_yields ?_
  rw [if_pos hkind]
  exact h

theorem ifAt_neg {kinds : Kind.Set} (hkind : kinds.contains (Atom.headKind atoms next) = false)
    (h : no.Yields atoms next trees one) :
    (Grammar.ifAt kinds yes no).Yields atoms next trees one := by
  refine ifAt_yields ?_
  rw [if_neg (by simp [hkind])]
  exact h

theorem ifKind_pos (hkind : Atom.headKind atoms next = kind) (h : yes.Yields atoms next trees one) :
    (ifKind kind yes no).Yields atoms next trees one :=
  ifAt_pos (by simp [hkind]) h

theorem ifKind_neg (hkind : Atom.headKind atoms next ≠ kind)
    (h : no.Yields atoms next trees one) : (ifKind kind yes no).Yields atoms next trees one :=
  ifAt_neg (by simp [Ne.symm hkind]) h

/-! ## Tokens -/

theorem bump_leaf (h : atom.words = [atom.word]) (next : Kind) :
    Grammar.bump.Yields [atom] next [atom.leaf] true := bump_yields h next

theorem take_mark (h : kind.isMark = true) (next : Kind) :
    (take kind).Yields [.mark kind h] next [Atom.leaf (.mark kind h)] true :=
  ifKind_pos rfl (bump_leaf rfl next)

theorem eat_mark (h : kind.isMark = true) (next : Kind) :
    (eat kind).Yields [.mark kind h] next [Atom.leaf (.mark kind h)] true :=
  ifKind_pos rfl (bump_leaf rfl next)

theorem expect_mark (h : kind.isMark = true) (next : Kind) :
    (expect kind).Yields [.mark kind h] next [Atom.leaf (.mark kind h)] true :=
  ifKind_pos rfl (bump_leaf rfl next)

theorem eat_rejects (h : next ≠ kind) : (eat kind).Yields [] next [] false :=
  ifKind_neg (by simpa using h) (reject_yields next)

theorem optional_none (h : next ≠ kind) : (optional kind grammar).Yields [] next [] true :=
  ifKind_neg (by simpa using h) (accept_yields next)

/-! ## Sequences and nodes -/

theorem seq_atom (h : first.Yields [atom] (Atom.headKind more next) [tree] one)
    (h' : second.Yields more next others two) :
    (Grammar.seq first second).Yields (atom :: more) next (tree :: others) two :=
  seq_yields h h'

theorem seq_tree (h : first.Yields atoms (Atom.headKind more next) [tree] one)
    (h' : second.Yields more next others two) :
    (Grammar.seq first second).Yields (atoms ++ more) next (tree :: others) two :=
  seq_yields h h'

theorem seq_none (h : first.Yields [] (Atom.headKind more next) [] one)
    (h' : second.Yields more next others two) :
    (Grammar.seq first second).Yields more next others two :=
  seq_yields h h'

theorem seq_last (h : first.Yields atoms next trees one)
    (h' : second.Yields [] next [] two) :
    (Grammar.seq first second).Yields atoms next trees two := by
  have hboth := @seq_yields first second atoms [] next trees [] one two h h'
  rwa [List.append_nil, List.append_nil] at hboth

theorem group_accepted {accepted rejected : Kind} (h : body.Yields atoms next trees true) :
    (Grammar.group body accepted rejected).Yields atoms next [.node accepted trees] true :=
  group_yields h

theorem group_rejected {accepted rejected : Kind} (h : body.Yields atoms next trees false) :
    (Grammar.group body accepted rejected).Yields atoms next [.node rejected trees] true :=
  group_yields h

theorem node_yields (h : body.Yields atoms next trees true) :
    (node kind body).Yields atoms next [.node kind trees] true := group_accepted h

theorem ifOk_true (h : test.Yields atoms (Atom.headKind more next) trees true)
    (h' : yes.Yields more next others two) :
    (Grammar.ifOk test yes no).Yields (atoms ++ more) next (trees ++ others) two :=
  ifOk_yields h h'

theorem ifOk_false (h : test.Yields atoms (Atom.headKind more next) trees false)
    (h' : no.Yields more next others two) :
    (Grammar.ifOk test yes no).Yields (atoms ++ more) next (trees ++ others) two :=
  ifOk_yields h (by simpa using h')

theorem ifOk_eat (hmark : kind.isMark = true) (h : yes.Yields more next others two) :
    (Grammar.ifOk (eat kind) yes no).Yields (.mark kind hmark :: more) next
      (Atom.leaf (.mark kind hmark) :: others) two :=
  ifOk_true (eat_mark hmark _) h

theorem ifOk_eat_none (hkind : Atom.headKind atoms next ≠ kind)
    (h : no.Yields atoms next trees two) :
    (Grammar.ifOk (eat kind) yes no).Yields atoms next trees two :=
  ifOk_false (eat_rejects hkind) h

theorem ifOk_accept (h : test.Yields atoms next trees true) :
    (Grammar.ifOk test .accept no).Yields atoms next trees true := by
  have hboth := @ifOk_true test .accept no atoms [] next trees [] true h (accept_yields next)
  rwa [List.append_nil, List.append_nil] at hboth

/-! ## Lists -/

open Term

/-- A round of a loop over a list: an element, with a comma or at the end. -/
structure Round (body : Grammar) (next : Kind) (part : List Atom) (tree : BareTree) : Prop where
  comma : ∀ behind, body.Yields (part ++ [.mark .comma]) behind
    [tree, Atom.leaf (.mark .comma)] true
  last : body.Yields part next [tree] false

theorem loop_commas {parts : List (List Atom)} (hne : parts ≠ [])
    (h : List.Forall₂ (Round body next) parts trees) :
    body.LoopYields (commas parts) next (commaTrees trees) := by
  induction h with
  | nil => exact absurd rfl hne
  | cons hround hrest ih =>
      rename_i part tree parts trees
      cases hrest with
      | nil =>
          have hlast := loop_last hround.last
          simpa using hlast
      | cons hsecond hmore =>
          rw [commas_cons _ _ (by simp), commaTrees_cons _ _ (by simp)]
          exact loop_cons (hround.comma _) (ih (by simp))

/-- An element of a list: it starts with a token that an element may start with, and
is read as a tree in front of a comma or of the end. -/
structure Element (element : Grammar) (starts : Kind.Set) (close : Kind) (part : List Atom)
    (tree : BareTree) : Prop where
  starts : ∀ next, starts.contains (Atom.headKind part next) = true
  yields : ∀ next, next = .comma ∨ next = close → element.Yields part next [tree] true

theorem headKind_ne_of_starts {starts : Kind.Set} {kind : Kind} {part : List Atom}
    (h : ∀ next, starts.contains (Atom.headKind part next) = true)
    (hkind : starts.contains kind = false) (next : Kind) : Atom.headKind part next ≠ kind := by
  intro heq
  have hstarts := h next
  rw [heq, hkind] at hstarts
  cases hstarts

theorem starts_headKind_commas {starts : Kind.Set} {close : Kind} {parts : List (List Atom)}
    (hne : parts ≠ []) (h : List.Forall₂ (Element element starts close) parts trees)
    (next : Kind) : starts.contains (Atom.headKind (commas parts) next) = true := by
  cases h with
  | nil => exact absurd rfl hne
  | cons hfirst hrest =>
      rename_i part tree parts trees
      cases parts with
      | nil => simpa using hfirst.starts next
      | cons second parts =>
          rw [commas_cons part (second :: parts) (by simp), List.append_assoc,
            Atom.headKind_append]
          exact hfirst.starts _

theorem Element.round {what : Expectation} {starts : Kind.Set} {close : Kind}
    {part : List Atom} (hcomma : starts.contains .comma = false)
    (hclose : starts.contains close = false) (hne : close ≠ .comma)
    (h : Element element starts close part tree) :
    Round (ifKind .comma (strayToken what)
      (.ifOk element (.ifOk (eat .comma) .accept
        (.ifAt starts (missing (.token .comma)) .reject)) .reject)) close part tree := by
  have hhead := headKind_ne_of_starts h.starts hcomma
  constructor
  · intro behind
    refine ifKind_neg (by simpa using hhead _) ?_
    exact ifOk_true (h.yields .comma (.inl rfl)) (ifOk_accept (eat_mark (by decide) behind))
  · refine ifKind_neg (hhead close) ?_
    have hend : (Grammar.ifOk (eat .comma) .accept
        (.ifAt starts (missing (.token .comma)) .reject)).Yields [] close [] false :=
      ifOk_eat_none (by simpa using hne) (ifAt_neg (by simpa using hclose) (reject_yields close))
    have hboth := @ifOk_true element _ .reject part [] close [tree] [] false
      (h.yields close (.inr rfl)) hend
    rwa [List.append_nil, List.append_nil] at hboth

theorem items_yields {what : Expectation} {starts : Kind.Set} {close : Kind}
    {parts : List (List Atom)} (hcomma : starts.contains .comma = false)
    (hclose : starts.contains close = false) (hne : close ≠ .comma)
    (hnone : element.Yields [] close [] false)
    (h : List.Forall₂ (Element element starts close) parts trees) :
    (items element .comma what starts).Yields (commas parts) close (commaTrees trees) true := by
  cases parts with
  | nil =>
      cases h
      exact loop_yields (loop_last (ifKind_neg (by simpa using hne)
        (ifOk_false hnone (reject_yields close))))
  | cons part parts =>
      exact loop_yields (loop_commas (by simp) (h.imp fun _ _ helement =>
        helement.round hcomma hclose hne))

theorem delimited_yields {what : Expectation} {starts : Kind.Set} {opening close : Kind}
    {parts : List (List Atom)} (hopening : opening.isMark = true) (hmark : close.isMark = true)
    (hcomma : starts.contains .comma = false) (hclose : starts.contains close = false)
    (hne : close ≠ .comma) (hnone : element.Yields [] close [] false)
    (h : List.Forall₂ (Element element starts close) parts trees) (next : Kind) :
    (delimited opening close element what starts).Yields
      (.mark opening hopening :: (commas parts ++ [.mark close hmark])) next
      (Atom.leaf (.mark opening hopening) ::
        (commaTrees trees ++ [Atom.leaf (.mark close hmark)])) true :=
  seq_atom (take_mark hopening _)
    (seq_yields (items_yields hcomma hclose hne hnone h) (expect_mark hmark next))

/-- Parts one behind the other.  The token behind each of them may be one of a class
that holds the first tokens of all parts. -/
theorem loop_parts (good : Kind → Prop) {close : Kind} {parts : List (List Atom)}
    (hgood : good close) (hend : body.Yields [] close [] false)
    (h : List.Forall₂ (fun part tree => (∀ next, good (Atom.headKind part next)) ∧
      ∀ next, good next → body.Yields part next [tree] true) parts trees) :
    body.LoopYields parts.flatten close trees := by
  induction h with
  | nil => exact loop_last hend
  | cons hpart hrest ih =>
      rename_i part tree parts trees
      have hnext : good (Atom.headKind parts.flatten close) := by
        cases hrest with
        | nil => exact hgood
        | cons hsecond hmore =>
            rw [List.flatten_cons, Atom.headKind_append]
            exact hsecond.1 _
      exact loop_cons (hpart.2 _ hnext) ih

theorem loop_each {close : Kind} {parts : List (List Atom)}
    (hend : body.Yields [] close [] false)
    (h : List.Forall₂ (fun part tree => ∀ next, body.Yields part next [tree] true) parts trees) :
    body.LoopYields parts.flatten close trees := by
  refine loop_parts (fun _ => True) trivial hend (h.imp fun part tree hpart => ?_)
  exact ⟨fun _ => trivial, fun next _ => hpart next⟩

theorem round_of_eat {what : Grammar} {part : List Atom} (hne : next ≠ .comma)
    (hcomma : element.Yields part .comma [tree] true)
    (hlast : element.Yields part next [tree] true) :
    Round (.ifOk element (eat .comma) what) next part tree := by
  refine ⟨fun behind => ifOk_true hcomma (eat_mark (by decide) behind), ?_⟩
  have hboth := @ifOk_true element _ what part [] next [tree] [] false hlast (eat_rejects hne)
  rwa [List.append_nil, List.append_nil] at hboth

end TdSyntax.Grammar
