import TdSyntax.Proofs.Reading.Coverage
import TdSyntax.Proofs.Reading.Progress

/-!
# Reading by a rule is total

The bounds of a reading are never reached.  The number of tokens bounds the depth to
which rules are nested, since each rule stands behind a token that the rule around
it has taken, and the rounds of a loop, since each round takes a token.  The grammar
of files takes all tokens.
-/

namespace TdSyntax

namespace Grammar

def Declines (grammar : Grammar) (call : Rule → Reader) (cursor : Cursor) : Prop :=
  ∀ mark, ∃ reading, grammar.read call mark cursor = some reading ∧
    reading.cursor.eof = cursor.eof ∧ reading.accepted = false ∧
      reading.cursor.tokens = cursor.tokens

theorem reject_declines (call : Rule → Reader) (cursor : Cursor) :
    Grammar.reject.Declines call cursor :=
  fun _ => ⟨.idle false cursor, rfl, rfl, rfl, rfl⟩

theorem missing_reject_declines (what : Expectation) (call : Rule → Reader)
    (cursor : Cursor) : (Grammar.seq (missing what) .reject).Declines call cursor := by
  intro mark
  by_cases hreported : cursor.reported = some cursor.current.start
  · refine ⟨_, read_seq_eq_some_iff.2 ⟨.idle true cursor, ?_, _, rfl, rfl⟩, rfl, rfl, rfl⟩
    simp [missing, read, hreported]
  · refine ⟨_, read_seq_eq_some_iff.2
      ⟨.reporting ⟨.expected what, cursor.current.span⟩ cursor, ?_, _, rfl, rfl⟩, rfl, rfl, rfl⟩
    simp [missing, read, hreported]

theorem ifAt_declines {kinds : Kind.Set} {yes no : Grammar} {call : Rule → Reader}
    {cursor : Cursor} (hkind : kinds.contains cursor.kind = false)
    (h : no.Declines call cursor) : (Grammar.ifAt kinds yes no).Declines call cursor := by
  intro mark
  rw [read_ifAt, hkind]
  exact h mark

end Grammar

namespace Rule

theorem grammar_declines {rule : Rule} {cursor : Cursor}
    (h : rule.first.contains cursor.kind = false) (call : Rule → Reader) :
    rule.grammar.Declines call cursor := by
  cases rule with
  | type =>
      simp only [first, Grammar.typeFirst, Kind.Set.contains_ofList, List.mem_cons,
        List.not_mem_nil, or_false, decide_eq_false_iff_not, not_or] at h
      refine Grammar.ifAt_declines ?_ (Grammar.ifAt_declines ?_ (Grammar.ifAt_declines ?_
        (Grammar.ifAt_declines ?_ (Grammar.missing_reject_declines .type call cursor)))) <;>
        simp [h, @eq_comm _ _ cursor.kind]
  | value place =>
      exact Grammar.ifAt_declines h (Grammar.missing_reject_declines .value call cursor)
  | statement place =>
      have hstatement : (Grammar.ifAt Grammar.statementFirst
          (Grammar.statementByKeyword place) .reject).Declines call cursor :=
        Grammar.ifAt_declines h (Grammar.reject_declines call cursor)
      cases place with
      | topLevel => exact hstatement
      | multiclass =>
          refine Grammar.ifAt_declines ?_ hstatement
          cases hkind : Grammar.notInMulticlass.contains cursor.kind with
          | false => rfl
          | true =>
              simp only [Grammar.notInMulticlass, Kind.Set.contains_ofList, List.mem_cons,
                List.not_mem_nil, or_false, decide_eq_true_eq] at hkind
              simp only [first, Grammar.statementFirst, Kind.Set.contains_ofList,
                decide_eq_false_iff_not] at h
              rcases hkind with hkind | hkind | hkind | hkind <;> simp [hkind] at h

def isProductive (rule : Rule) : Bool :=
  match rule.grammar.exits ⟨false, false, rule.first⟩ with
  | some exits => exits.accepted.behindStart && exits.rejected.isVoid
  | none => false

theorem isProductive_eq_true (rule : Rule) : rule.isProductive = true := by
  rcases rule with _ | place | place
  · decide +kernel
  · cases place <;> decide +kernel
  · cases place <;> decide +kernel

/-- Reading by a rule succeeds if rules may be nested as deep as there are tokens. -/
theorem read_obeys (depth : Nat) : Grammar.Obeys (Rule.read depth) depth := by
  induction depth with
  | zero =>
      intro rule cursor _ hlength
      omega
  | succ depth ih =>
      intro rule cursor heof hlength
      cases hkind : rule.first.contains cursor.kind with
      | false =>
          obtain ⟨reading, hread, hend, hrejected, htokens⟩ :=
            grammar_declines hkind (Rule.read depth) cursor.current
          exact ⟨reading, hread, hend, by simp [hkind, hrejected, htokens]⟩
      | true =>
          have hproductive := rule.isProductive_eq_true
          unfold isProductive at hproductive
          split at hproductive
          case h_2 => cases hproductive
          case h_1 exits hexits =>
            simp only [Bool.and_eq_true] at hproductive
            -- rules are called behind the first token, so fewer tokens are left for them
            have hcall : Grammar.Obeys (Rule.read depth) cursor.tokens.length :=
              fun rule later hlater hshorter => ih rule later hlater (by omega)
            obtain ⟨reading, hread, hexit⟩ := Grammar.read_leads hcall rule.grammar
              cursor.current _ _ hexits cursor.tokens.length cursor
              ⟨hkind, heof, by simp, by simp⟩
            have hcovers := Rule.read_covers (depth + 1) rule cursor reading hread
            cases haccepted : reading.accepted with
            | false =>
                rw [haccepted] at hexit
                exact absurd hexit (Flow.not_admits_of_isVoid hproductive.2)
            | true =>
                rw [haccepted] at hexit
                have hlimit := hexit.limit
                simp only [Exits.of, if_true, hproductive.1, Bool.toNat_true] at hlimit
                refine ⟨reading, hread, hcovers.eof, ?_⟩
                simp only [hkind, if_true]
                exact ⟨haccepted, by omega⟩

end Rule

theorem Grammar.run_leads {grammar : Grammar} {exits : Exits}
    (h : grammar.exits .again = some exits) {cursor : Cursor} (heof : cursor.eof.kind = .eof) :
    ∃ reading, grammar.run cursor = some reading ∧
      (exits.of reading.accepted).kinds.contains reading.cursor.kind = true := by
  have hcall : Grammar.Obeys (Rule.read (cursor.tokens.length + 2)) (cursor.tokens.length + 1) :=
    fun rule later hlater hshorter =>
      Rule.read_obeys (cursor.tokens.length + 2) rule later hlater (by omega)
  obtain ⟨reading, hread, hexit⟩ := Grammar.read_leads hcall grammar cursor.current _ _ h
    cursor.tokens.length cursor
    ⟨by simp [Flow.again], heof, by simp [Flow.again], by simp [Flow.again]⟩
  exact ⟨reading, hread, hexit.kind⟩

def Grammar.fileExits : Exits := .accepting ⟨true, false, .singleton .eof⟩

theorem Grammar.exits_file : Grammar.file.exits .again = some Grammar.fileExits := by
  decide +kernel

theorem Grammar.isNamed_file : Grammar.file.isNamed = true := rfl

/-- A file is read to its end, and all its tokens are taken. -/
theorem Grammar.run_file {tokens : List Token} {eof : Token} (heof : eof.kind = .eof)
    (htokens : ∀ token ∈ tokens, token.kind ≠ .eof) (reported : Option Nat) :
    ∃ reading, Grammar.file.run ⟨tokens, eof, reported⟩ = some reading ∧
      Draft.tokensAll reading.drafts = tokens ∧ Draft.WellFormedAll reading.drafts ∧
      reading.cursor.tokens = [] ∧ reading.cursor.eof = eof := by
  obtain ⟨reading, hread, hkind⟩ :=
    @Grammar.run_leads _ _ Grammar.exits_file ⟨tokens, eof, reported⟩ heof
  have hcovers := Grammar.read_covers (Rule.read_covers _) Grammar.isNamed_file _ _ _ hread
  have hend : reading.cursor.kind = .eof := by
    cases haccepted : reading.accepted with
    | true =>
        rw [haccepted] at hkind
        simpa [Exits.of, Grammar.fileExits, Exits.accepting, eq_comm] using hkind
    | false =>
        rw [haccepted] at hkind
        simp [Exits.of, Grammar.fileExits, Exits.accepting, Flow.void] at hkind
  have hdone : reading.cursor.tokens = [] := by
    cases hrest : reading.cursor.tokens with
    | nil => rfl
    | cons token rest =>
        have hmem : token ∈ tokens := by
          have := hcovers.tokens
          rw [hrest] at this
          simp only at this
          rw [this]
          simp
        have hcurrent : reading.cursor.kind = token.kind := by
          simp [Cursor.kind, Cursor.current, hrest]
        exact absurd (hcurrent.symm.trans hend) (htokens token hmem)
  refine ⟨reading, hread, ?_, hcovers.wellFormed, hdone, hcovers.eof⟩
  have htaken := hcovers.tokens
  rw [hdone, List.append_nil] at htaken
  exact htaken.symm

end TdSyntax
