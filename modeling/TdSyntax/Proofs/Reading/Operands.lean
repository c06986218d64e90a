import TdSyntax.Proofs.Reading.Explained
import TdSyntax.Proofs.Tree.Ranged

/-!
# The operands of a range

The rule for values makes one node where it accepts, a value or an error node with a
token in it, and nothing where it rejects, whatever the text is.
-/

namespace TdSyntax

def Kind.isOperand (kind : Kind) : Bool := kind.isValue || kind == .error

namespace Draft

theorem Operand.grow {first : Draft} (h : first.Operand) {kind : Kind}
    (hvalue : kind.isValue = true) (hinteger : kind ≠ .integer) (rest : List Draft) :
    (Draft.grow kind first rest).Operand := by
  obtain ⟨-, -, htokens, -⟩ := h
  refine .node (shape?_grow kind first rest) (.inl hvalue) ?_ fun heq => absurd heq hinteger
  rw [tokens_grow]
  exact List.append_ne_nil_of_left_ne_nil htokens _

end Draft

/-- One operand is made by an accepting reading, and nothing by a rejecting one. -/
structure Reading.MakesOperand (reading : Reading) : Prop where
  accepted : reading.accepted = true → ∃ draft, reading.drafts = [draft] ∧ draft.Operand
  rejected : reading.accepted = false → reading.drafts = []

namespace Reading.MakesOperand

variable {first rest : Reading} {kind : Kind}

theorem grownBy (h : first.MakesOperand) (haccepted : first.accepted = true)
    (hrest : rest.accepted = true) (hvalue : kind.isValue = true) (hinteger : kind ≠ .integer) :
    (first.grownBy rest kind).MakesOperand where
  accepted _ := by
    obtain ⟨draft, hdrafts, hoperand⟩ := h.accepted haccepted
    refine ⟨_, ?_, hoperand.grow hvalue hinteger rest.drafts⟩
    simp [Reading.grownBy, hdrafts, Draft.growLast]
  rejected hrejected := by cases hrest.symm.trans hrejected

theorem behind (h : rest.MakesOperand) (hfirst : first.drafts = []) :
    (first.followedBy rest).MakesOperand where
  accepted haccepted := by
    obtain ⟨draft, hdrafts, hoperand⟩ := h.accepted haccepted
    exact ⟨draft, by simp [followedBy, hdrafts, hfirst], hoperand⟩
  rejected hrejected := by simp [followedBy, h.rejected hrejected, hfirst]

theorem endedBy (h : first.MakesOperand) (haccepted : first.accepted = true)
    (hrest : rest.drafts = []) : ((first.followedBy rest).withAccepted true).MakesOperand where
  accepted _ := by
    obtain ⟨draft, hdrafts, hoperand⟩ := h.accepted haccepted
    exact ⟨draft, by simp [followedBy, withAccepted, hdrafts, hrest], hoperand⟩
  rejected hrejected := by cases hrejected

end Reading.MakesOperand

theorem Reader.growAll_makesOperand {body : Reader} {kind : Kind} (hvalue : kind.isValue = true)
    (hinteger : kind ≠ .integer)
    (hbody : ∀ cursor next, body cursor = some next → next.accepted = false → next.drafts = [])
    (rounds : Nat) {sofar reading : Reading} (hsofar : sofar.MakesOperand)
    (haccepted : sofar.accepted = true) (hread : growAll kind body rounds sofar = some reading) :
    reading.MakesOperand := by
  induction rounds generalizing sofar with
  | zero => cases hread
  | succ rounds ih =>
      obtain ⟨next, hnext, hread⟩ := growAll_succ_eq_some_iff.1 hread
      split at hread
      case isTrue hmore =>
        exact ih (hsofar.grownBy haccepted hmore hvalue hinteger) hmore hread
      case isFalse hmore =>
        rw [hread]
        exact hsofar.endedBy haccepted (hbody _ _ hnext (by simpa using hmore))

namespace Grammar

variable {call : Rule → Reader} {mark : Token} {cursor : Cursor} {reading : Reading}

def rejectsIdle : Grammar → Bool
  | .reject => true
  | .ifAt _ yes no => rejectsIdle yes && rejectsIdle no
  | grammar => (grammar.rejects .full).isEmpty

theorem read_rejectsIdle (hcall : Refuses call) {grammar : Grammar}
    (h : grammar.rejectsIdle = true) (hread : grammar.read call mark cursor = some reading)
    (hrejected : reading.accepted = false) : reading.drafts = [] := by
  induction grammar with
  | reject =>
      cases hread
      rfl
  | ifAt among yes no ihYes ihNo =>
      simp only [rejectsIdle, Bool.and_eq_true] at h
      rw [read_ifAt] at hread
      split at hread
      · exact ihYes h.1 hread
      · exact ihNo h.2 hread
  | _ =>
      have hafter := read_rejects hcall (Kind.Set.contains_full _) hread hrejected
      rw [Kind.Set.contains_of_isEmpty h] at hafter
      cases hafter

def begins (kinds : Kind.Set) : Grammar → Bool
  | .seq first _ => begins kinds first
  | .marked body => begins kinds body
  | grammar => grammar.takes kinds

theorem read_begins {grammar : Grammar} {kinds : Kind.Set} (h : grammar.begins kinds = true)
    (hkind : kinds.contains cursor.kind = true) (heof : cursor.eof.kind = .eof)
    (hread : grammar.read call mark cursor = some reading) :
    ∃ rest, Draft.tokensAll reading.drafts = cursor.current :: rest := by
  induction grammar generalizing mark reading with
  | seq first second ihFirst =>
      obtain ⟨one, hone, two, -, rfl⟩ := read_seq_eq_some_iff.1 hread
      obtain ⟨rest, htokens⟩ := ihFirst h hone
      exact ⟨_, by rw [Reading.followedBy, Draft.tokensAll_append, htokens, List.cons_append]⟩
  | marked body ih => exact ih h hread
  | _ => exact read_takes h hkind heof hread

/-- Whether the grammar makes one operand where it accepts, and nothing where it rejects,
if the current token is of some kinds. -/
def makesOperand (kinds : Kind.Set) : Grammar → Bool
  | .reject | .unreachable => true
  | .seq (.complain _) rest => makesOperand kinds rest
  | .ifAt among yes no =>
      ((kinds.inter among).isEmpty || makesOperand (kinds.inter among) yes) &&
        ((kinds.diff among).isEmpty || makesOperand (kinds.diff among) no)
  | .group body accepted rejected =>
      body.begins kinds && (accepted.isOperand && rejected.isOperand &&
        ((accepted != .integer && rejected != .integer) || body matches .bump))
  | .grow first kind rest | .growAll first kind rest =>
      makesOperand kinds first && (rest.rejectsIdle && (kind.isValue && kind != .integer))
  | _ => false

theorem group_makesOperand {body : Grammar} {accepted rejected : Kind} {kinds : Kind.Set}
    (h : (Grammar.group body accepted rejected).makesOperand kinds = true)
    (hkind : kinds.contains cursor.kind = true) (heof : cursor.eof.kind = .eof)
    (hread : (Grammar.group body accepted rejected).read call mark cursor = some reading) :
    reading.MakesOperand := by
  obtain ⟨inner, hinner, rfl⟩ := read_group_eq_some_iff.1 hread
  simp only [makesOperand, Kind.isOperand, Bool.and_eq_true, Bool.or_eq_true, bne_iff_ne,
    beq_iff_eq] at h
  obtain ⟨hbegins, ⟨haccepted, hrejected⟩, hinteger⟩ := h
  obtain ⟨rest, htokens⟩ := read_begins hbegins hkind heof hinner
  refine ⟨fun _ => ⟨_, rfl, .node rfl ?_ ?_ ?_⟩, Bool.noConfusion⟩
  · split <;> assumption
  · simp [Draft.tokens, htokens]
  · intro heq
    rcases hinteger with ⟨hone, htwo⟩ | hbump
    · split at heq
      · exact absurd heq hone
      · exact absurd heq htwo
    · obtain rfl : body = .bump := by
        split at hbump
        · rfl
        · cases hbump
      cases hinner
      obtain ⟨tokens, eof, reported⟩ := cursor
      cases tokens with
      | nil => cases htokens
      | cons token tokens => exact ⟨token, rfl⟩

theorem read_makesOperand (hcall : Refuses call) {grammar : Grammar} {kinds : Kind.Set}
    (h : grammar.makesOperand kinds = true) (hkind : kinds.contains cursor.kind = true)
    (heof : cursor.eof.kind = .eof) (hread : grammar.read call mark cursor = some reading) :
    reading.MakesOperand := by
  induction grammar generalizing kinds mark cursor reading with
  | reject =>
      cases hread
      exact ⟨nofun, fun _ => rfl⟩
  | unreachable => cases hread
  | seq first second ihFirst ihSecond =>
      cases first with
      | complain problem =>
          obtain ⟨one, hone, two, htwo, rfl⟩ := read_seq_eq_some_iff.1 hread
          obtain ⟨hdrafts, htokens, hend, -⟩ := read_complain hone
          have hsame : one.cursor.kind = cursor.kind := by
            simp [Cursor.kind, Cursor.current, htokens, hend]
          have hsecond := ihSecond h (hsame.symm ▸ hkind) (hend ▸ heof) htwo
          exact hsecond.behind hdrafts
      | _ => cases h
  | ifAt among yes no ihYes ihNo =>
      simp only [makesOperand, Bool.and_eq_true, Bool.or_eq_true] at h
      rw [read_ifAt] at hread
      split at hread
      case isTrue hamong =>
        have hinter : (kinds.inter among).contains cursor.kind = true := by simp [hkind, hamong]
        exact ihYes (h.1.resolve_left (Kind.Set.not_isEmpty hinter)) hinter heof hread
      case isFalse hamong =>
        have hdiff : (kinds.diff among).contains cursor.kind = true := by simp [hkind, hamong]
        exact ihNo (h.2.resolve_left (Kind.Set.not_isEmpty hdiff)) hdiff heof hread
  | group body accepted rejected => exact group_makesOperand h hkind heof hread
  | grow first kind rest ihFirst =>
      simp only [makesOperand, Bool.and_eq_true, bne_iff_ne] at h
      obtain ⟨hfirst, hidle, hvalue, hinteger⟩ := h
      obtain ⟨one, hone, hread⟩ := read_grow_eq_some_iff.1 hread
      have hmakes := ihFirst hfirst hkind heof hone
      split at hread
      case isTrue haccepted =>
        obtain ⟨two, htwo, rfl⟩ := hread
        split
        case isTrue hmore => exact hmakes.grownBy haccepted hmore hvalue hinteger
        case isFalse hmore =>
          exact hmakes.endedBy haccepted (read_rejectsIdle hcall hidle htwo (by simpa using hmore))
      case isFalse =>
        rw [hread]
        exact hmakes
  | growAll first kind rest ihFirst =>
      simp only [makesOperand, Bool.and_eq_true, bne_iff_ne] at h
      obtain ⟨hfirst, hidle, hvalue, hinteger⟩ := h
      obtain ⟨one, hone, hread⟩ := read_growAll_eq_some_iff.1 hread
      have hmakes := ihFirst hfirst hkind heof hone
      split at hread
      case isTrue haccepted =>
        exact Reader.growAll_makesOperand hvalue hinteger
          (fun _ _ => read_rejectsIdle hcall hidle) _ hmakes haccepted hread
      case isFalse =>
        rw [hread]
        exact hmakes
  | _ => cases h

theorem makesOperand_value (place : ValuePlace) : (value place).makesOperand .full = true := by
  cases place <;> decide +kernel

end Grammar

theorem Rule.read_value_makesOperand {depth : Nat} {place : ValuePlace} {cursor : Cursor}
    {reading : Reading} (heof : cursor.eof.kind = .eof)
    (hread : Rule.read depth (.value place) cursor = some reading) : reading.MakesOperand := by
  cases depth with
  | zero => cases hread
  | succ depth =>
      exact Grammar.read_makesOperand (Rule.read_refuses depth) (Grammar.makesOperand_value place)
        (Kind.Set.contains_full _) heof hread

end TdSyntax
