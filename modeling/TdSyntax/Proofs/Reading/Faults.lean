import TdSyntax.Proofs.Reading.Coverage
import TdSyntax.Proofs.Reading.Progress
import TdSyntax.Proofs.Reading.Reports

/-!
# Faults at the first token

A grammar that makes an error node reports a fault at the first token of the node.  It
may keep a complaint back, but only if the last report is an error at the same place;
and a note about a marked token starts there if the tokens are in order.
-/

namespace TdSyntax

def Problem.isFault (problem : Problem) : Bool :=
  problem.severity == .error && (problem.stage == .grammatical || problem.stage == .structural)

def Diagnostic.isFault (diagnostic : Diagnostic) : Bool := diagnostic.problem.isFault

def Reading.Tells (told : Nat → Prop) (reading : Reading) : Prop :=
  ∀ report ∈ reading.diagnostics, report.isFault = true → told report.span.start

theorem Reading.tells_followedBy {told : Nat → Prop} {first second : Reading} :
    (first.followedBy second).Tells told ↔ first.Tells told ∧ second.Tells told :=
  List.forall_mem_append

namespace Cursor

/-- What reports have to do with the cursors before and behind them. -/
structure Keeps (cursor : Cursor) (reports : List Diagnostic) (later : Cursor) : Prop where
  eof : later.eof = cursor.eof
  ordered : cursor.Ordered → later.Ordered
  forward : cursor.Ordered → cursor.current.start ≤ later.current.start
  reported : ∀ start, later.reported = some start → cursor.reported = some start ∨
    ∃ report ∈ reports, report.isFault = true ∧ report.span.start = start

theorem keeps_report (cursor : Cursor) (report : Diagnostic) :
    cursor.Keeps [report] (cursor.afterReport report) where
  eof := rfl
  ordered := id
  forward _ := Nat.le_refl _
  reported := by
    intro start hreported
    simp only [afterReport] at hreported
    split at hreported
    case isTrue hfault =>
      cases hreported
      refine .inr ⟨report, List.mem_singleton_self _, ?_, rfl⟩
      simp only [Diagnostic.isError, Diagnostic.severity, Diagnostic.stage, Bool.and_eq_true,
        beq_iff_eq] at hfault
      simp [Diagnostic.isFault, Problem.isFault, hfault.1, hfault.2]
    case isFalse => cases hreported

theorem reporting_keeps : Reporting (fun _ => True) (fun _ => True) Keeps where
  nil cursor := ⟨rfl, id, fun _ => Nat.le_refl _, fun _ => .inl⟩
  append h h' := by
    refine ⟨h'.eof.trans h.eof, fun hordered => h'.ordered (h.ordered hordered),
      fun hordered => Nat.le_trans (h.forward hordered) (h'.forward (h.ordered hordered)), ?_⟩
    intro start hreported
    rcases h'.reported start hreported with hmiddle | ⟨report, hmem, hfault⟩
    · rcases h.reported start hmiddle with hfirst | ⟨report, hmem, hfault⟩
      · exact .inl hfirst
      · exact .inr ⟨report, List.mem_append_left _ hmem, hfault⟩
    · exact .inr ⟨report, List.mem_append_right _ hmem, hfault⟩
  taking count cursor :=
    ⟨rfl, fun hordered => hordered.drop count, fun hordered => hordered.start_le_drop count,
      fun _ => .inl⟩
  complaint _ _ := keeps_report _ _
  note _ cursor _ := keeps_report cursor _

/-- A cursor where the last report, if it is an error, starts at a place that is told. -/
structure Ready (told : Nat → Prop) (cursor : Cursor) : Prop where
  eof : cursor.eof.kind = .eof
  ordered : cursor.Ordered
  reported : ∀ start, cursor.reported = some start → told start

theorem Ready.behind {told : Nat → Prop} {cursor : Cursor} {reading : Reading}
    (h : cursor.Ready told) (hkeeps : cursor.Keeps reading.diagnostics reading.cursor)
    (htells : reading.Tells told) : reading.cursor.Ready told where
  eof := hkeeps.eof ▸ h.eof
  ordered := hkeeps.ordered h.ordered
  reported := by
    intro start hreported
    rcases hkeeps.reported start hreported with hbefore | ⟨report, hmem, hfault, rfl⟩
    · exact h.reported start hbefore
    · exact htells report hmem hfault

end Cursor

namespace Grammar

variable {call : Rule → Reader} {mark : Token} {cursor : Cursor} {reading : Reading}

theorem read_complain {problem : Problem}
    (hread : (Grammar.complain problem).read call mark cursor = some reading) :
    reading.drafts = [] ∧ reading.cursor.tokens = cursor.tokens ∧
      reading.cursor.eof = cursor.eof ∧
      (cursor.reported = some cursor.current.start ∨
        (⟨problem, cursor.current.span⟩ : Diagnostic) ∈ reading.diagnostics) := by
  simp only [read] at hread
  split at hread
  case isTrue hreported =>
    cases hread
    exact ⟨rfl, rfl, rfl, .inl hreported⟩
  case isFalse =>
    cases hread
    exact ⟨rfl, rfl, rfl, .inr (List.mem_singleton_self _)⟩

/-! ## Readings that take the current token -/

def takes (kinds : Kind.Set) : Grammar → Bool
  | .bump => !kinds.contains .eof
  | .skip recovery => recovery.moves kinds
  | .ifAt among yes no =>
      ((kinds.inter among).isEmpty || takes (kinds.inter among) yes) &&
        ((kinds.diff among).isEmpty || takes (kinds.diff among) no)
  | _ => false

theorem taking_takes {count : Nat} (hcount : 0 < count) (htokens : 0 < cursor.tokens.length) :
    ∃ rest, Draft.tokensAll (Reading.taking count cursor).drafts = cursor.current :: rest := by
  obtain ⟨token, tokens, hcursor⟩ := List.exists_cons_of_length_pos htokens
  obtain ⟨count, rfl⟩ := Nat.exists_eq_succ_of_ne_zero (Nat.ne_of_gt hcount)
  refine ⟨tokens.take count, ?_⟩
  rw [Reading.taking, Draft.tokensAll_map_token, hcursor, Nat.succ_eq_add_one, List.take_succ_cons]
  simp [Cursor.current, hcursor]

theorem read_takes {grammar : Grammar} {kinds : Kind.Set} (h : grammar.takes kinds = true)
    (hkind : kinds.contains cursor.kind = true) (heof : cursor.eof.kind = .eof)
    (hread : grammar.read call mark cursor = some reading) :
    ∃ rest, Draft.tokensAll reading.drafts = cursor.current :: rest := by
  induction grammar generalizing kinds with
  | bump =>
      simp only [takes, Bool.not_eq_true'] at h
      cases hread
      refine taking_takes Nat.one_pos (cursor.tokens_ne_nil heof ?_)
      intro hcursor
      rw [hcursor, h] at hkind
      cases hkind
  | skip recovery =>
      have hne : cursor.kind ≠ .eof := by
        intro hcursor
        rw [hcursor, Recovery.kind_ne_eof_of_moves h] at hkind
        cases hkind
      have htokens := cursor.tokens_ne_nil heof hne
      cases hread
      refine taking_takes ?_ htokens
      obtain ⟨token, tokens, hcursor⟩ := List.exists_cons_of_length_pos htokens
      have htoken : cursor.kind = token.kind := by simp [Cursor.kind, Cursor.current, hcursor]
      rw [hcursor]
      exact Recovery.length_pos_of_moves h (htoken ▸ hkind) (tokens.map Token.kind)
  | ifAt among yes no ihYes ihNo =>
      simp only [takes, Bool.and_eq_true, Bool.or_eq_true] at h
      rw [read_ifAt] at hread
      split at hread
      case isTrue hamong =>
        have hinter : (kinds.inter among).contains cursor.kind = true := by simp [hkind, hamong]
        exact ihYes (h.1.resolve_left (Kind.Set.not_isEmpty hinter)) hinter hread
      case isFalse hamong =>
        have hdiff : (kinds.diff among).contains cursor.kind = true := by simp [hkind, hamong]
        exact ihNo (h.2.resolve_left (Kind.Set.not_isEmpty hdiff)) hdiff hread
  | _ => cases h

/-! ## Reports at the first token -/

/-- Whether the grammar notes a fault that starts at the marked token in any case.  What a
note quotes does not matter for this. -/
def notesMark : Grammar → Bool
  | .note place problem => place != .here && (problem []).isFault
  | .seq first second => notesMark first || notesMark second
  | .ifAt _ yes no | .ifText _ yes no => notesMark yes && notesMark no
  | _ => false

def opensError (kinds : Kind.Set) : Grammar → Bool
  | .seq (.complain problem) rest => problem.isFault && rest.takes kinds
  | .marked (.seq first rest) => first.takes kinds && rest.notesMark
  | _ => false

section Reports

variable {told : Nat → Prop} (hkeeps : ∀ rule, (call rule).Reports Cursor.Keeps)
include hkeeps

theorem read_keeps (grammar : Grammar) (mark : Token) :
    Reader.Reports (grammar.read call mark) Cursor.Keeps :=
  Cursor.reporting_keeps.read hkeeps grammar (fun _ _ => trivial) (fun _ _ _ => trivial) mark

theorem read_notesMark {grammar : Grammar} (h : grammar.notesMark = true)
    (hnotes : ∀ note ∈ grammar.notes, ∀ text, (note text).isFault = (note []).isFault)
    (hordered : cursor.Ordered) (hmark : mark.start ≤ cursor.current.start)
    (hread : grammar.read call mark cursor = some reading) :
    ∃ report ∈ reading.diagnostics, report.isFault = true ∧ report.span.start = mark.start := by
  induction grammar generalizing cursor reading with
  | note place problem =>
      simp only [notesMark, Bool.and_eq_true, bne_iff_ne] at h
      cases hread
      refine ⟨_, List.mem_singleton_self _, ?_, ?_⟩
      · exact (hnotes problem (by simp [notes]) _).trans h.2
      · cases place with
        | here => exact absurd rfl h.1
        | mark => rfl
        | throughHere => exact Nat.min_eq_left hmark
  | seq first second ihFirst ihSecond =>
      simp only [notesMark, Bool.or_eq_true] at h
      simp only [notes, List.forall_mem_append] at hnotes
      obtain ⟨one, hone, two, htwo, rfl⟩ := read_seq_eq_some_iff.1 hread
      rcases h with h | h
      · obtain ⟨report, hmem, hreport⟩ := ihFirst h hnotes.1 hordered hmark hone
        exact ⟨report, List.mem_append_left _ hmem, hreport⟩
      · have hbetween := read_keeps hkeeps first mark _ _ hone
        obtain ⟨report, hmem, hreport⟩ := ihSecond h hnotes.2 (hbetween.ordered hordered)
          (Nat.le_trans hmark (hbetween.forward hordered)) htwo
        exact ⟨report, List.mem_append_right _ hmem, hreport⟩
  | ifAt among yes no ihYes ihNo =>
      simp only [notesMark, Bool.and_eq_true] at h
      simp only [notes, List.forall_mem_append] at hnotes
      rw [read_ifAt] at hread
      split at hread
      · exact ihYes h.1 hnotes.1 hordered hmark hread
      · exact ihNo h.2 hnotes.2 hordered hmark hread
  | ifText test yes no ihYes ihNo =>
      simp only [notesMark, Bool.and_eq_true] at h
      simp only [notes, List.forall_mem_append] at hnotes
      rw [read_ifText] at hread
      split at hread
      · exact ihYes h.1 hnotes.1 hordered hmark hread
      · exact ihNo h.2 hnotes.2 hordered hmark hread
  | _ => cases h

theorem read_opensError {grammar : Grammar} {kinds : Kind.Set}
    (h : grammar.opensError kinds = true)
    (hnotes : ∀ note ∈ grammar.notes, ∀ text, (note text).isFault = (note []).isFault)
    (hkind : kinds.contains cursor.kind = true) (hready : cursor.Ready told)
    (hread : grammar.read call mark cursor = some reading) (htells : reading.Tells told) :
    ∃ first ∈ (Draft.tokensAll reading.drafts).head?, told first.start := by
  unfold opensError at h
  split at h
  case h_1 problem rest =>
    simp only [Bool.and_eq_true] at h
    obtain ⟨one, hone, two, htwo, rfl⟩ := read_seq_eq_some_iff.1 hread
    obtain ⟨hdrafts, htokens, heof, hreport⟩ := read_complain hone
    have hsame : one.cursor.current = cursor.current := by
      rw [Cursor.current, htokens, heof, Cursor.current]
    obtain ⟨others, htaken⟩ := read_takes h.2
      (by rwa [Cursor.kind, hsame]) (heof ▸ hready.eof) htwo
    refine ⟨cursor.current, ?_, ?_⟩
    · simp [Reading.followedBy, hdrafts, htaken, hsame]
    · rcases hreport with hreported | hmem
      · exact hready.reported _ hreported
      · exact (Reading.tells_followedBy.1 htells).1 _ hmem h.1
  case h_2 first rest =>
    simp only [Bool.and_eq_true] at h
    simp only [notes, List.forall_mem_append] at hnotes
    obtain ⟨one, hone, two, htwo, rfl⟩ := read_seq_eq_some_iff.1
      (show (Grammar.seq first rest).read call cursor.current cursor = some reading from hread)
    obtain ⟨others, htaken⟩ := read_takes h.1 hkind hready.eof hone
    have hbetween := read_keeps hkeeps first cursor.current _ _ hone
    obtain ⟨report, hmem, hfault, hstart⟩ := read_notesMark hkeeps h.2 hnotes.2
      (hbetween.ordered hready.ordered) (hbetween.forward hready.ordered) htwo
    refine ⟨cursor.current, ?_, ?_⟩
    · simp [Reading.followedBy, Draft.tokensAll_append, htaken]
    · rw [← hstart]
      exact htells report (List.mem_append_right _ hmem) hfault
  case h_3 => cases h

end Reports

end Grammar

end TdSyntax
