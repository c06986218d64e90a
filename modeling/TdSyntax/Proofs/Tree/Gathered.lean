import Mathlib.Data.List.Chain
import TdSyntax.Proofs.Tree.Wrappers

/-!
# Keywords and strays

A statement begins with its keyword, and outside of error nodes the keywords of statements
stand nowhere else.  Tokens that fit nowhere between statements are gathered: where statements
are listed, no error node of tokens only stands beside another one.
-/

namespace TdSyntax

namespace Kind

def opener? : Kind → Option Kind
  | .assertStmt => some .assertKw
  | .classStmt => some .classKw
  | .defStmt => some .defKw
  | .defmStmt => some .defmKw
  | .defsetStmt => some .defsetKw
  | .defvarStmt => some .defvarKw
  | .foreachStmt => some .foreachKw
  | .ifStmt => some .ifKw
  | .includeStmt => some .includeKw
  | .letStmt | .letInstruction => some .letKw
  | .multiclassStmt => some .multiclassKw
  | _ => none

def listsStatements : Kind → Bool
  | .sourceFile | .block | .defsetStmt | .multiclassBody => true
  | _ => false

end Kind

/-- An error node with no node in it. -/
def Element.isStray : Element → Bool
  | .node inner => inner.kind == .error && inner.nodes.isEmpty
  | .token _ => false

namespace Draft

def isKeyword : Draft → Bool
  | .token content => Grammar.statementFirst.contains content.kind
  | _ => false

def isStray (draft : Draft) : Bool :=
  match draft.shape? with
  | some (.error, parts) => parts.all fun part => part.shape?.isNone
  | _ => false

def Apart (drafts : List Draft) : Prop :=
  drafts.IsChain fun first second => (first.isStray && second.isStray) = false

def endsStray (drafts : List Draft) : Bool := drafts.getLast?.any isStray

/-- Where the keywords of statements stand among the parts of a node: in an error node
anywhere, in a node that a keyword opens at its start, and in other nodes nowhere. -/
inductive Opened : Kind → List Draft → Prop
  | error (parts : List Draft) : Opened .error parts
  | plain {kind : Kind} {parts : List Draft} (hkind : kind.opener? = none)
      (hparts : ∀ part ∈ parts, part.isKeyword = false) : Opened kind parts
  | keyword {kind : Kind} {token : Token} {parts : List Draft}
      (hkind : kind.opener? = some token.kind)
      (hparts : ∀ part ∈ parts, part.isKeyword = false) : Opened kind (.token token :: parts)

/-- In all nodes of the draft the keywords of statements stand where they may, and where
statements are listed the strays are apart. -/
inductive Gathered : Draft → Prop
  | token (content : Token) : Gathered (.token content)
  | node {draft : Draft} {kind : Kind} {parts : List Draft}
      (hshape : draft.shape? = some (kind, parts)) (hopened : Opened kind parts)
      (hapart : kind.listsStatements = true → Apart parts)
      (hparts : ∀ part ∈ parts, Gathered part) : Gathered draft

variable {draft : Draft} {kind : Kind} {parts : List Draft} {node : Node}

theorem Gathered.shape (h : draft.Gathered) (hshape : draft.shape? = some (kind, parts)) :
    Opened kind parts ∧ (kind.listsStatements = true → Apart parts) ∧
      ∀ part ∈ parts, part.Gathered := by
  cases h with
  | token content => cases hshape
  | node hown hopened hapart hparts =>
      cases hown.symm.trans hshape
      exact ⟨hopened, hapart, hparts⟩

section Apart

variable {drafts : List Draft}

@[simp] theorem endsStray_nil : endsStray [] = false := rfl

@[simp] theorem endsStray_append_singleton : endsStray (drafts ++ [draft]) = draft.isStray := by
  simp [endsStray]

theorem apart_nil : Apart [] := .nil

theorem Apart.snoc (h : Apart drafts) (hends : (endsStray drafts && draft.isStray) = false) :
    Apart (drafts ++ [draft]) := by
  refine List.isChain_append.2 ⟨h, .singleton draft, ?_⟩
  intro last hlast next hnext
  obtain rfl : draft = next := by simpa using hnext
  simpa [endsStray, Option.mem_def.1 hlast] using hends

theorem isStray_of_shape (hshape : draft.shape? = some (kind, parts)) (hkind : kind ≠ .error) :
    draft.isStray = false := by
  unfold isStray
  split
  case h_1 heq =>
    rw [hshape] at heq
    cases heq
    exact absurd rfl hkind
  case h_2 => rfl

theorem isStray_of_mem (hshape : draft.shape? = some (kind, parts)) {part : Draft}
    (hpart : part ∈ parts) (hnode : part.shape?.isSome = true) : draft.isStray = false := by
  unfold isStray
  split
  case h_1 heq =>
    rw [hshape] at heq
    cases heq
    exact List.all_eq_false.2 ⟨part, hpart, by simpa [Option.isSome_iff_ne_none] using hnode⟩
  case h_2 => rfl

theorem isStray_of_tokens (hparts : ∀ part ∈ parts, ∃ content, part = .token content) :
    (Draft.node .error parts).isStray = true := by
  refine List.all_eq_true.2 fun part hmem => ?_
  obtain ⟨content, rfl⟩ := hparts part hmem
  rfl

end Apart

theorem Opened.of_mem (h : Opened node.kind parts)
    (helements : List.Forall₂ Outlines parts node.elements) {placed : NodeToken}
    (hmem : .token placed ∈ node.elements)
    (hkeyword : Grammar.statementFirst.contains placed.kind = true) :
    node.kind = .error ∨
      node.elements.head? = some (.token placed) ∧ node.kind.opener? = some placed.kind := by
  have hloud {drafts : List Draft} {elements : List Element}
      (hrelated : List.Forall₂ Outlines drafts elements) (hplaced : .token placed ∈ elements)
      (hquiet : ∀ draft ∈ drafts, draft.isKeyword = false) : False := by
    obtain ⟨draft, hdraft, houtlines⟩ := exists_related hrelated hplaced
    cases houtlines with
    | token hshows =>
        have hsilent := hquiet _ hdraft
        rw [isKeyword, ← shows_kind hshows, hkeyword] at hsilent
        cases hsilent
  generalize node.elements = elements at helements hmem
  generalize node.kind = kind at h
  cases h with
  | error => exact .inl rfl
  | plain _ hparts => exact (hloud helements hmem hparts).elim
  | keyword hopener hparts =>
      obtain ⟨first, rest, hfirst, hrest, rfl⟩ := List.forall₂_cons_left_iff.1 helements
      obtain ⟨own, rfl, hshows⟩ := outlines_token hfirst
      rcases List.mem_cons.1 hmem with heq | hbehind
      · cases heq
        exact .inr ⟨rfl, by rw [hopener, shows_kind hshows]⟩
      · exact (hloud hrest hbehind hparts).elim

theorem Opened.exists_keyword (h : Opened node.kind parts)
    (helements : List.Forall₂ Outlines parts node.elements) {keyword : Kind}
    (hkind : node.kind.opener? = some keyword) :
    ∃ placed, node.elements.head? = some (.token placed) ∧ placed.kind = keyword := by
  generalize node.elements = elements at helements
  generalize node.kind = kind at h hkind
  cases h with
  | error => cases hkind
  | plain hnone => cases hnone.symm.trans hkind
  | keyword hopener =>
      obtain ⟨first, rest, hfirst, -, rfl⟩ := List.forall₂_cons_left_iff.1 helements
      obtain ⟨placed, rfl, hshows⟩ := outlines_token hfirst
      refine ⟨placed, rfl, ?_⟩
      rw [shows_kind hshows]
      exact Option.some.inj (hopener.symm.trans hkind)

theorem Outlines.isStray {element : Element} (h : draft.Outlines element)
    (hstray : element.isStray = true) : draft.isStray = true := by
  cases h with
  | token => cases hstray
  | node hshape hkind hparts htext =>
      simp only [Element.isStray, Bool.and_eq_true, beq_iff_eq, List.isEmpty_iff] at hstray
      obtain ⟨herror, hnodes⟩ := hstray
      rw [Draft.isStray, hshape, ← hkind, herror]
      refine List.all_eq_true.2 fun part hpart => ?_
      obtain ⟨element, hmem, houtlines⟩ := exists_related hparts.flip hpart
      cases houtlines with
      | token => rfl
      | node => cases hnodes ▸ Node.mem_nodes_iff.2 hmem

theorem Apart.elements {elements : List Element} (h : Apart parts)
    (helements : List.Forall₂ Outlines parts elements) :
    elements.IsChain fun first second => (first.isStray && second.isStray) = false := by
  induction helements with
  | nil => exact .nil
  | cons hfirst hrest ih =>
      cases hrest with
      | nil => exact .singleton _
      | cons hsecond _ =>
          obtain ⟨hpair, htail⟩ := List.isChain_cons_cons.1 h
          refine List.isChain_cons_cons.2 ⟨?_, ih htail⟩
          rw [← Bool.not_eq_true, Bool.and_eq_true]
          rintro ⟨hone, htwo⟩
          rw [hfirst.isStray hone, hsecond.isStray htwo] at hpair
          cases hpair

theorem Apart.length_le_one {elements run : List Element} (h : Apart parts)
    (helements : List.Forall₂ Outlines parts elements) (hrun : run <:+: elements)
    (hstrays : ∀ child ∈ run, child.isStray = true) : run.length ≤ 1 := by
  obtain ⟨before, behind, rfl⟩ := hrun
  have hchain := (h.elements helements).left_of_append.right_of_append
  match run with
  | [] => exact Nat.zero_le 1
  | [_] => exact Nat.le_refl 1
  | first :: second :: _ =>
      have hpair := (List.isChain_cons_cons.1 hchain).1
      rw [hstrays first (by simp), hstrays second (by simp)] at hpair
      cases hpair

end Draft

end TdSyntax
