import TdSyntax.Proofs.Token.Quotes

/-!
# The reports of unknown characters

What the lexer reports of a token and of the trivia around it starts within the part of
the text that they take; a string literal that is left open is reported at its quote.
So no report but its own has the range of a character that starts no token.
-/

namespace TdSyntax

theorem Diagnostic.filter_span_eq_nil {reports : List Diagnostic} (span : Span)
    (h : ∀ report ∈ reports, report.span.start ≠ span.start) :
    reports.filter (fun report => report.span == span) = [] := by
  refine List.filter_eq_nil_iff.2 fun report hmem => ?_
  rw [beq_iff_eq]
  exact fun heq => h report hmem (heq ▸ rfl)

namespace Lexeme

theorem word_kind_ne_unknown (first : Char) (rest : Text) : (word first rest).kind ≠ .unknown := by
  simp only [word]
  cases hword : Kind.ofKeyword? (String.ofList (first :: rest.takeWhile Text.isWordPart)) with
  | none => simp
  | some kind =>
      rintro rfl
      cases Kind.isKeyword_of_ofKeyword? hword

theorem token_unknown {previous : Option Char} {first : Char} {rest : Text}
    (h : (token previous first rest).kind = .unknown) :
    (token previous first rest).tail = 0 ∧
      (token previous first rest).problem = some (.unrecognized first) := by
  revert h
  unfold token
  extract_lets signed single
  split
  case h_3 =>
    split
    · simp [codeBlock_kind]
    · simp [single]
  case h_15 => split <;> simp [single]
  case h_17 =>
    simp only [bang]
    repeat' split
    all_goals simp
  case h_18 =>
    repeat' split
    case isFalse.isFalse.isFalse.isTrue =>
      simp only [numberOrName]
      split <;> simp
    case isFalse.isFalse.isFalse.isFalse.isTrue =>
      exact fun h => absurd h (word_kind_ne_unknown first rest)
    all_goals simp [single]
  all_goals simp [single]

end Lexeme

namespace Lexer

structure Reported (lexer later : Lexer) (report : Diagnostic) : Prop where
  offset_le : lexer.offset ≤ report.span.start
  lt_offset : report.span.start < later.offset

theorem Reported.widen {first second third fourth : Lexer} {report : Diagnostic}
    (h : second.Reported third report) (hbefore : first.offset ≤ second.offset)
    (hbehind : third.offset ≤ fourth.offset) : first.Reported fourth report := by
  obtain ⟨hle, hlt⟩ := h
  constructor <;> omega

theorem offset_lt_advance {lexer : Lexer} {count : Nat} (h : lexer.rest ≠ []) :
    lexer.offset < (lexer.advance (count + 1)).offset := by
  cases hrest : lexer.rest with
  | nil => exact absurd hrest h
  | cons first rest =>
      have hfirst := first.utf8Size_pos
      simp only [advance, hrest, List.take_succ_cons, Text.size]
      omega

theorem Reaches.offset_le {lexer later : Lexer} {taken : Text} (h : lexer.Reaches later taken) :
    lexer.offset ≤ later.offset := by
  rw [h.offset]
  omega

theorem diagnose_reported {lexer later : Lexer} (h : lexer.offset < later.offset)
    (problem : Option Problem) :
    ∀ report ∈ lexer.diagnose later problem, lexer.Reported later report := by
  intro report hmem
  obtain ⟨problem, -, rfl⟩ := List.mem_map.1 hmem
  exact ⟨Nat.le_refl _, h⟩

theorem triviaRun_reported (lexer : Lexer) :
    ∀ report ∈ lexer.triviaRun.diagnostics, lexer.Reported lexer.triviaRun.next report := by
  fun_induction triviaRun lexer with
  | case1 => simp
  | case2 lexer lexeme hlexeme next run ih =>
      have hrest : lexer.rest ≠ [] := by
        intro hnil
        rw [hnil, Lexeme.trivia?_nil] at hlexeme
        cases hlexeme
      have hlt : lexer.offset < next.offset := offset_lt_advance hrest
      have hle : next.offset ≤ run.next.offset := (triviaRun_reaches next).offset_le
      intro report hmem
      rcases List.mem_append.1 hmem with hmem | hmem
      · exact (diagnose_reported hlt _ report hmem).widen (Nat.le_refl _) hle
      · exact (ih report hmem).widen (Nat.le_of_lt hlt) (Nat.le_refl _)

theorem trivia_reported (lexer : Lexer) :
    ∀ report ∈ lexer.trivia.diagnostics, lexer.Reported lexer.trivia.next report := by
  unfold trivia
  split
  · simp
  · exact triviaRun_reported lexer

theorem bareToken_reported (lexer : Lexer) (h : lexer.bareToken.kind ≠ .eof) :
    ∀ report ∈ lexer.bareToken.diagnostics, lexer.Reported lexer.bareToken.next report := by
  cases hrest : lexer.rest with
  | nil => exact absurd ((bareToken_kind_eq_eof_iff lexer).2 hrest) h
  | cons first rest =>
      simp only [bareToken, hrest]
      have hne : lexer.rest ≠ [] := by simp [hrest]
      intro report hmem
      exact (diagnose_reported (offset_lt_advance hne) _ report hmem).widen (Nat.le_refl _)
        (Nat.le_refl _)

theorem next_reported (lexer : Lexer) (h : lexer.next.token.kind ≠ .eof) :
    ∀ report ∈ lexer.next.diagnostics, lexer.Reported lexer.next.next report := by
  have hleading := lexer.trivia_reaches.offset_le
  have hbare := lexer.trivia.next.bareToken_reaches.offset_le
  have htrailing := lexer.trivia.next.bareToken.next.trivia_reaches.offset_le
  have hend : lexer.next.next = lexer.trivia.next.bareToken.next.trivia.next := rfl
  intro report hmem
  rw [hend]
  simp only [next, List.mem_append] at hmem
  rcases hmem with (hmem | hmem) | hmem
  · exact (trivia_reported lexer report hmem).widen (Nat.le_refl _) (by omega)
  · exact (bareToken_reported _ h report hmem).widen hleading htrailing
  · exact (trivia_reported _ report hmem).widen (by omega) (Nat.le_refl _)

/-- Where a report behind a lexer may start: at the quote of an open string literal or
behind the lexer. -/
def floor (lexer : Lexer) : Nat := min (lexer.openString.getD lexer.offset) lexer.offset

theorem floor_le (lexer : Lexer) : lexer.floor ≤ lexer.offset := Nat.min_le_right _ _

theorem floor_le_of_offset_le {lexer later : Lexer} (hopen : later.openString = lexer.openString)
    (hoffset : lexer.offset ≤ later.offset) : lexer.floor ≤ later.floor := by
  rw [floor, floor, hopen]
  cases lexer.openString <;> simp only [Option.getD_none, Option.getD_some] <;> omega

theorem floor_le_of_toggle {lexer later : Lexer} {kind : Kind}
    (hopen : later.openString = lexer.toggle kind) (hoffset : lexer.offset ≤ later.offset) :
    lexer.floor ≤ later.floor := by
  rw [toggle] at hopen
  rw [floor, floor, hopen]
  cases lexer.openString with
  | none =>
      simp only [Option.getD_none, Option.isSome_none, Bool.false_eq_true, if_false]
      split <;> simp only [Option.getD_some, Option.getD_none] <;> omega
  | some quote =>
      simp only [Option.getD_some, Option.isSome_some, if_true]
      split <;> simp only [Option.getD_some, Option.getD_none] <;> omega

theorem floor_le_next (lexer : Lexer) (h : lexer.next.token.kind ≠ .eof) :
    lexer.floor ≤ lexer.next.next.floor := by
  have hbare := lexer.trivia.next.bareToken_reaches.offset_le
  have htrailing := lexer.trivia.next.bareToken.next.trivia_reaches.offset_le
  have hopen : lexer.next.next.openString = lexer.trivia.next.toggle lexer.next.token.kind :=
    (trivia_openString _).trans (bareToken_openString lexer.trivia.next h)
  exact Nat.le_trans
    (floor_le_of_offset_le lexer.trivia_openString lexer.trivia_reaches.offset_le)
    (floor_le_of_toggle hopen (Nat.le_trans hbare htrailing))

theorem bareToken_unknown {lexer : Lexer} (h : lexer.bareToken.kind = .unknown) :
    lexer.openString = none ∧ ∃ c, lexer.bareToken.text = [c] ∧
      lexer.bareToken.diagnostics = [⟨.unrecognized c, lexer.spanTo lexer.bareToken.next⟩] := by
  have hclosed : lexer.openString = none := by
    cases hopen : lexer.openString with
    | none => rfl
    | some quote =>
        have hquoted := lexer.bareToken_quoted (by simp [h]) (by simp [hopen])
        rw [h] at hquoted
        simp [Kind.Set.quoted] at hquoted
  refine ⟨hclosed, ?_⟩
  cases hrest : lexer.rest with
  | nil => simp [bareToken, hrest] at h
  | cons first rest =>
      simp only [bareToken, hrest, hclosed, Option.isSome_none, Bool.false_eq_true, if_false] at h ⊢
      obtain ⟨htail, hproblem⟩ := Lexeme.token_unknown h
      exact ⟨first, by simp [htail], by simp [hproblem, diagnose, spanTo]⟩

/-- Of all that is reported up to the next token, one report has the range of an unknown
character. -/
theorem next_unknown {lexer : Lexer} (h : lexer.next.token.kind = .unknown) :
    lexer.next.token.start < lexer.next.next.floor ∧ ∃ c, lexer.next.token.text = [c] ∧
      lexer.next.diagnostics.filter (fun report => report.span == lexer.next.token.span) =
        [⟨.unrecognized c, lexer.next.token.span⟩] := by
  have hkind : lexer.trivia.next.bareToken.kind = .unknown := h
  have heof : lexer.trivia.next.bareToken.kind ≠ .eof := by simp [hkind]
  obtain ⟨hclosed, c, htext, hreport⟩ := bareToken_unknown hkind
  have hreaches := lexer.trivia.next.bareToken_reaches
  have hspan : lexer.trivia.next.spanTo lexer.trivia.next.bareToken.next = lexer.next.token.span := by
    rw [spanTo, hreaches.offset]
    rfl
  have hstart : lexer.next.token.start < lexer.trivia.next.bareToken.next.offset := by
    have hne : lexer.next.token.text ≠ [] := lexer.trivia.next.bareToken_text_ne_nil heof
    rw [hreaches.offset]
    exact Token.start_lt_stop hne
  have htrailing := lexer.trivia.next.bareToken.next.trivia_reaches.offset_le
  refine ⟨?_, c, htext, ?_⟩
  · have hopen : lexer.next.next.openString = none := by
      have hsame := bareToken_openString lexer.trivia.next heof
      rw [toggle, if_neg (by simp [hkind]), hclosed] at hsame
      exact (trivia_openString _).trans hsame
    rw [floor, hopen, Option.getD_none, Nat.min_self]
    exact Nat.lt_of_lt_of_le hstart htrailing
  · have hbefore := Diagnostic.filter_span_eq_nil lexer.next.token.span
      fun report hmem => Nat.ne_of_lt (lexer.trivia_reported report hmem).lt_offset
    have hbehind := Diagnostic.filter_span_eq_nil lexer.next.token.span
      fun report hmem => Nat.ne_of_gt (Nat.lt_of_lt_of_le hstart
        (trivia_reported lexer.trivia.next.bareToken.next report hmem).offset_le)
    have hdiagnostics : lexer.next.diagnostics = lexer.trivia.diagnostics ++
        [⟨.unrecognized c, lexer.next.token.span⟩] ++
          lexer.trivia.next.bareToken.next.trivia.diagnostics := by
      rw [← hspan, ← hreport]
      rfl
    rw [hdiagnostics, List.filter_append, List.filter_append, hbefore, hbehind]
    simp

end Lexer

namespace TokenList

theorem floor_le_start (lexer : Lexer) :
    ∀ report ∈ (ofLexer lexer).diagnostics, lexer.floor ≤ report.span.start := by
  fun_induction ofLexer lexer with
  | case1 lexer step heof =>
      have hfloor := lexer.floor_le
      have hleading := lexer.trivia_reaches.offset_le
      have hrest := (Lexer.bareToken_kind_eq_eof_iff lexer.trivia.next).1 heof
      intro report hmem
      simp only [step, Lexer.next, List.mem_append] at hmem
      rcases hmem with (hmem | hmem) | hmem
      · have hle := (lexer.trivia_reported report hmem).offset_le
        omega
      · simp only [Lexer.bareToken, hrest, List.mem_map, Option.mem_toList,
          Lexer.trivia_openString] at hmem
        obtain ⟨quote, hopen, rfl⟩ := hmem
        rw [Lexer.floor, hopen, Option.getD_some]
        exact Nat.min_le_left _ _
      · have hle := (Lexer.trivia_reported _ report hmem).offset_le
        have hbare := lexer.trivia.next.bareToken_reaches.offset_le
        omega
  | case2 lexer step heof list ih =>
      have hfloor := lexer.floor_le
      have hnext := lexer.floor_le_next heof
      intro report hmem
      rcases List.mem_append.1 hmem with hmem | hmem
      · have hle := (lexer.next_reported heof report hmem).offset_le
        omega
      · exact Nat.le_trans hnext (ih report hmem)

theorem reports_unknown (lexer : Lexer) :
    ∀ token ∈ (ofLexer lexer).tokens, token.kind = .unknown →
      ∃ c, token.text = [c] ∧
        (ofLexer lexer).diagnostics.filter (fun report => report.span == token.span) =
          [⟨.unrecognized c, token.span⟩] := by
  fun_induction ofLexer lexer with
  | case1 => simp
  | case2 lexer step heof list ih =>
      intro token hmem hkind
      simp only [List.filter_append]
      rcases List.mem_cons.1 hmem with rfl | hmem
      · obtain ⟨hlt, c, htext, hstep⟩ := Lexer.next_unknown hkind
        have hlist := Diagnostic.filter_span_eq_nil step.token.span
          fun report hmem => Nat.ne_of_gt (Nat.lt_of_lt_of_le hlt (floor_le_start _ report hmem))
        refine ⟨c, htext, ?_⟩
        rw [hlist, List.append_nil]
        exact hstep
      · obtain ⟨c, htext, hlist⟩ := ih token hmem hkind
        have hle := Token.le_start_of_tileFrom (ofLexer_tiles step.next).1 token
          (List.mem_append_left _ hmem)
        have hstep := Diagnostic.filter_span_eq_nil token.span fun report hmem =>
          Nat.ne_of_lt (Nat.lt_of_lt_of_le (lexer.next_reported heof report hmem).lt_offset hle)
        refine ⟨c, htext, ?_⟩
        rw [hstep, List.nil_append]
        exact hlist

end TokenList

end TdSyntax
