import TdSyntax.Proofs.Token.Unclosed

/-!
# What a stream delivers

A stream delivers the reports of the tokens that it has shown, whenever it is asked for them,
and each once.  They are delivered in the order in which they were found, and that is the
order of the text, but for one report: a string literal that is left open is reported at its
quote when the text is at its end, behind the reports of the escape sequences in it.
-/

namespace TdSyntax

namespace Lexeme

theorem token_quote_problem {previous : Option Char} {first : Char} {rest : Text}
    (h : (token previous first rest).kind = .doubleQuote) :
    (token previous first rest).problem = none := by
  have htext := (token_isSpelled previous first rest).mark "\"" (by rw [h]; rfl)
  obtain ⟨rfl, -⟩ := List.cons.inj htext
  rfl

theorem stringPiece_problem (first : Char) (rest : Text) :
    ∀ problem ∈ (stringPiece first rest).problem, problem = .invalidEscape := by
  unfold stringPiece
  split
  · nofun
  · split
    · intro problem hmem
      simp only at hmem
      split at hmem <;> cases hmem
      rfl
    · nofun

end Lexeme

namespace Diagnostic

/-- One report may be found before another: it starts earlier, or it tells of an escape
sequence in the string literal that the other one leaves open. -/
def FoundBefore (first second : Diagnostic) : Prop :=
  first.span.start < second.span.start ∨
    first.problem = .invalidEscape ∧ second.problem = .unterminatedString ∧
      second.span.start < first.span.start

/-- A string literal is left open, and an escape sequence in it is invalid. -/
def OpenAround (reports : List Diagnostic) : Prop :=
  ∃ quote ∈ reports, quote.problem = .unterminatedString ∧
    ∃ escape ∈ reports, escape.problem = .invalidEscape ∧ quote.span.start < escape.span.start

theorem sorted_iff_of_foundBefore {reports : List Diagnostic}
    (h : reports.Pairwise fun first second =>
      first.problem.isUnterminated = false ∧ first.FoundBefore second) :
    reports.Pairwise (fun first second => first.span.start ≤ second.span.start) ↔
      ¬ OpenAround reports := by
  constructor
  · rintro hsorted ⟨quote, hquote, hopen, escape, hescape, hinvalid, hlt⟩
    obtain ⟨front, back, rfl⟩ := List.append_of_mem hquote
    rcases List.mem_append.1 hescape with hfront | hback
    · have hle := (List.pairwise_append.1 hsorted).2.2 escape hfront quote (by simp)
      omega
    · rcases List.mem_cons.1 hback with rfl | hback
      · cases hinvalid.symm.trans hopen
      · have hbehind := (List.pairwise_append.1 h).2.1
        have hclosed := ((List.pairwise_cons.1 hbehind).1 escape hback).1
        rw [hopen] at hclosed
        cases hclosed
  · intro hnone
    refine h.imp_of_mem fun {first second} hfirst hsecond hpair => ?_
    rcases hpair.2 with hlt | ⟨hinvalid, hopen, hlt⟩
    · exact Nat.le_of_lt hlt
    · exact absurd ⟨second, hsecond, hopen, first, hfirst, hinvalid, hlt⟩ hnone

end Diagnostic

namespace Lexer

variable {lexer next last : Lexer} {piece : Piece} {problem : Option Problem}
  {pieces : List Piece} {reports : List Diagnostic}

def IsBehindQuote (lexer : Lexer) : Prop := ∀ quote ∈ lexer.openString, quote < lexer.offset

theorem Takes.mem_openString (h : lexer.Takes piece problem next) {quote : Nat}
    (hquote : quote ∈ next.openString) : quote ∈ lexer.openString ∨ quote = lexer.offset := by
  have htoggle {kind : Kind} (hmem : quote ∈ lexer.toggle kind) :
      quote ∈ lexer.openString ∨ quote = lexer.offset := by
    unfold toggle at hmem
    split at hmem
    · split at hmem
      · cases hmem
      · exact .inr (Option.some.inj hmem).symm
    · exact .inl hmem
  cases h with
  | trivia => exact .inl hquote
  | token => exact htoggle hquote
  | quoted => exact htoggle hquote

theorem Takes.isBehindQuote (h : lexer.Takes piece problem next) (hlexer : lexer.IsBehindQuote) :
    next.IsBehindQuote := by
  intro quote hquote
  have hlt := h.offset_lt
  rcases h.mem_openString hquote with hmem | rfl
  · exact Nat.lt_trans (hlexer quote hmem) hlt
  · exact hlt

theorem Path.mem_openString (h : lexer.Path pieces reports last) {quote : Nat}
    (hquote : quote ∈ last.openString) : quote ∈ lexer.openString ∨ lexer.offset ≤ quote := by
  induction h with
  | nil => exact .inl hquote
  | cons hfirst hrest ih =>
      have hlt := hfirst.offset_lt
      rcases ih hquote with hmem | hle
      · exact (hfirst.mem_openString hmem).imp_right fun heq => Nat.le_of_eq heq.symm
      · exact .inr (by omega)

theorem Takes.of_problem {other : Problem} (h : lexer.Takes piece (some other) next) {quote : Nat}
    (hquote : quote ∈ next.openString) : quote ∈ lexer.openString ∧ other = .invalidEscape := by
  generalize hproblem : some other = problem at h
  cases h with
  | trivia hopen =>
      have hnone : quote ∈ lexer.openString := hquote
      rw [hopen] at hnone
      cases hnone
  | @token first rest lexeme hopen htrivia hrest hlexeme =>
      have hkind : lexeme.kind = .doubleQuote := by
        by_contra hkind
        have hnone : quote ∈ lexer.toggle lexeme.kind := hquote
        rw [toggle, if_neg hkind, hopen] at hnone
        cases hnone
      subst hlexeme
      rw [Lexeme.token_quote_problem hkind] at hproblem
      cases hproblem
  | @quoted first rest lexeme hopen hrest hlexeme =>
      subst hlexeme
      refine ⟨?_, Lexeme.stringPiece_problem first rest other hproblem.symm⟩
      have hmem : quote ∈ lexer.toggle (Lexeme.stringPiece first rest).kind := hquote
      rw [toggle, if_pos hopen] at hmem
      split at hmem
      · cases hmem
      · exact hmem

theorem Path.foundBefore_quote (h : lexer.Path pieces reports last) (hlexer : lexer.IsBehindQuote)
    {quote : Nat} (hquote : quote ∈ last.openString) :
    ∀ report ∈ reports, report.span.start < quote ∨
      report.problem = .invalidEscape ∧ quote < report.span.start := by
  induction h with
  | nil => nofun
  | @cons lexer middle last piece problem pieces reports hfirst hrest ih =>
      intro report hmem
      rcases List.mem_append.1 hmem with hmem | hmem
      · obtain ⟨other, hother, rfl⟩ := List.mem_map.1 hmem
        obtain rfl := Option.mem_toList.1 hother
        rcases hrest.mem_openString hquote with hinside | hle
        · obtain ⟨hopen, hescape⟩ := hfirst.of_problem hinside
          exact .inr ⟨hescape, hlexer quote hopen⟩
        · exact .inl (Nat.lt_of_lt_of_le hfirst.offset_lt hle)
      · exact ih (hfirst.isBehindQuote hlexer) hquote report hmem

theorem Path.reports_sorted (h : lexer.Path pieces reports last) :
    reports.Pairwise fun first second => first.span.start < second.span.start := by
  induction h with
  | nil => exact .nil
  | @cons lexer middle last piece problem pieces reports hfirst hrest ih =>
      refine List.pairwise_append.2 ⟨?_, ih, ?_⟩
      · cases problem with
        | none => exact .nil
        | some other => exact List.pairwise_singleton _ _
      · intro first hone second htwo
        have hbefore := (diagnose_reported hfirst.offset_lt _ first hone).lt_offset
        exact Nat.lt_of_lt_of_le hbefore (hrest.reported second htwo).offset_le

end Lexer

namespace TokenList

private theorem pairwise_toList_map {Item : Type} (item : Option Item) (report : Item → Diagnostic)
    {relation : Diagnostic → Diagnostic → Prop} :
    (item.toList.map report).Pairwise relation := by
  cases item <;> simp

theorem diagnostics_foundBefore (text : Text) :
    (ofText text).diagnostics.Pairwise fun first second =>
      first.problem.isUnterminated = false ∧ first.FoundBefore second := by
  obtain ⟨pieces, reports, last, hpath, hlast, -, hreports⟩ := ofLexer_path (Lexer.start text)
  have hseen : (Lexer.start text).Remembers text none := ⟨⟨[], rfl, rfl⟩, fun _ => nofun, nofun⟩
  have hclean : (ofText text).diagnostics.Pairwise fun first _ =>
      first.problem.isUnterminated = false := by
    obtain ⟨others, hothers, heq⟩ := hpath.reports_eq hlast hseen
    rw [ofText, hreports, heq]
    refine List.pairwise_append.2 ⟨?_, pairwise_toList_map _ _,
      fun first hfirst _ _ => hothers first hfirst⟩
    exact List.pairwise_iff_forall_sublist.2 fun hpair => hothers _ (hpair.subset (by simp))
  refine hclean.and ?_
  rw [ofText, hreports]
  refine List.pairwise_append.2 ⟨hpath.reports_sorted.imp .inl, pairwise_toList_map _ _, ?_⟩
  intro first hfirst second hsecond
  obtain ⟨quote, hquote, rfl⟩ := List.mem_map.1 hsecond
  have hstart := hpath.foundBefore_quote nofun (Option.mem_toList.1 hquote) first hfirst
  exact hstart.imp_right fun hescape => ⟨hescape.1, rfl, hescape.2⟩

end TokenList

namespace TokenStream

inductive Request where
  | next
  | peek
  | take
  deriving DecidableEq, Repr

inductive Answer where
  | token (token : Token)
  | reports (found : List Diagnostic)
  deriving DecidableEq, Repr

def Answer.delivered : Answer → List Diagnostic
  | .token _ => []
  | .reports found => found

def answer (stream : TokenStream) : Request → Answer × TokenStream
  | .next => (.token stream.next.1, stream.next.2)
  | .peek => (.token stream.current, stream)
  | .take => (.reports stream.takeDiagnostics.1, stream.takeDiagnostics.2)

def serve : TokenStream → List Request → List Answer × TokenStream
  | stream, [] => ([], stream)
  | stream, first :: rest =>
      let answered := stream.answer first
      let served := answered.2.serve rest
      (answered.1 :: served.1, served.2)

def delivered (stream : TokenStream) (requests : List Request) : List Diagnostic :=
  (stream.serve requests).1.flatMap Answer.delivered

def behind (stream : TokenStream) (requests : List Request) : TokenStream :=
  (stream.serve requests).2

section

variable {stream : TokenStream} {lexer : Lexer}

theorem delivered_cons (request : Request) (requests : List Request) :
    stream.delivered (request :: requests) =
      (stream.answer request).1.delivered ++ (stream.answer request).2.delivered requests := rfl

theorem behind_cons (request : Request) (requests : List Request) :
    stream.behind (request :: requests) = (stream.answer request).2.behind requests := rfl

theorem delivered_append (front back : List Request) :
    stream.delivered (front ++ back) =
      stream.delivered front ++ (stream.behind front).delivered back := by
  induction front generalizing stream with
  | nil => rfl
  | cons request front ih =>
      rw [List.cons_append, delivered_cons, delivered_cons, behind_cons, ih, List.append_assoc]

/-- What will be reported behind the token that a lexer comes to next. -/
def unread (lexer : Lexer) : List Diagnostic :=
  if lexer.next.token.kind = .eof then [] else (TokenList.ofLexer lexer.next.next).diagnostics

theorem diagnostics_ofLexer (lexer : Lexer) :
    (TokenList.ofLexer lexer).diagnostics = lexer.next.diagnostics ++ unread lexer := by
  unfold unread
  split
  · rename_i heof
    rw [TokenList.ofLexer_of_eof heof, List.append_nil]
  · rename_i heof
    rw [TokenList.ofLexer_of_ne_eof heof]

theorem unread_eq (lexer : Lexer) :
    unread lexer = lexer.next.next.next.diagnostics ++ unread lexer.next.next := by
  by_cases heof : lexer.next.token.kind = .eof
  · have hstays := (Lexer.next_of_eof heof).2.2
    simp [unread, heof, hstays]
  · rw [← diagnostics_ofLexer, unread, if_neg heof]

/-- Whatever a stream is asked, nothing of what is found gets lost, and nothing is delivered
twice. -/
theorem Runs.serve (h : stream.Runs lexer) (requests : List Request) :
    ∃ later, (stream.behind requests).Runs later ∧
      stream.delivered requests ++ (stream.behind requests).pending ++ unread later =
        stream.pending ++ unread lexer := by
  -- what is delivered, pending and still unread is together the same behind each request
  induction requests generalizing stream lexer with
  | nil => exact ⟨lexer, h, rfl⟩
  | cons request requests ih =>
      cases request with
      | next =>
          obtain ⟨later, hlater, heq⟩ := ih h.next
          refine ⟨later, hlater, ?_⟩
          have hpending : stream.next.2.pending =
              stream.pending ++ lexer.next.next.next.diagnostics := by rw [← h.behind]; rfl
          rw [hpending, List.append_assoc _ _ (unread lexer.next.next), ← unread_eq] at heq
          exact heq
      | peek => exact ih h
      | take =>
          have htaken : stream.takeDiagnostics.2.Runs lexer := ⟨h.current, h.behind⟩
          obtain ⟨later, hlater, heq⟩ := ih htaken
          refine ⟨later, hlater, ?_⟩
          have hdelivered : stream.delivered (.take :: requests) =
              stream.pending ++ stream.takeDiagnostics.2.delivered requests := rfl
          have hbehind : stream.behind (.take :: requests) =
              stream.takeDiagnostics.2.behind requests := rfl
          rw [hdelivered, hbehind, List.append_assoc, List.append_assoc, ← List.append_assoc _ _ (unread later), heq]
          rfl

end

/-- Whatever a stream is asked, it delivers its reports in the order in which the lexer finds
them.  When it has shown the end of the file, all reports have been delivered or are at the
next delivery.  The order is that of the text, unless a string literal is left open around an
invalid escape sequence. -/
theorem ofText_delivered (text : Text) (requests : List Request) :
    (ofText text).delivered requests <+: (TokenList.ofText text).diagnostics ∧
      (((ofText text).behind requests).current.kind = .eof → ∀ more,
        (ofText text).delivered (requests ++ .take :: more) =
          (TokenList.ofText text).diagnostics) ∧
      ((ofText text).delivered requests).Pairwise Diagnostic.FoundBefore ∧
      (((ofText text).delivered requests).Pairwise
          (fun first second => first.span.start ≤ second.span.start) ↔
        ¬ Diagnostic.OpenAround ((ofText text).delivered requests)) := by
  have hruns : (ofText text).Runs (Lexer.start text) := ⟨rfl, rfl⟩
  have hall : (ofText text).pending ++ unread (Lexer.start text) =
      (TokenList.ofText text).diagnostics := (diagnostics_ofLexer _).symm
  obtain ⟨later, hlater, hdelivered⟩ := hruns.serve requests
  rw [hall, List.append_assoc] at hdelivered
  have hfront : (ofText text).delivered requests <+: (TokenList.ofText text).diagnostics :=
    ⟨_, hdelivered⟩
  have hordered := (TokenList.diagnostics_foundBefore text).sublist hfront.sublist
  refine ⟨hfront, fun heof more => ?_, hordered.imp And.right,
    Diagnostic.sorted_iff_of_foundBefore hordered⟩
  have hnothing {lexer : Lexer} {stream : TokenStream} (h : stream.Runs lexer)
      (hkind : stream.current.kind = .eof) : unread lexer = [] := by
    rw [unread, if_pos (h.current ▸ hkind)]
  have htaken : (((ofText text).behind requests).takeDiagnostics.2).Runs later :=
    ⟨hlater.current, hlater.behind⟩
  obtain ⟨last, -, hrest⟩ := htaken.serve more
  rw [hnothing htaken heof, TokenStream.takeDiagnostics] at hrest
  rw [hnothing hlater heof, List.append_nil] at hdelivered
  have hmore := (List.append_eq_nil_iff.1 (List.append_eq_nil_iff.1 hrest).1).1
  have htake : (ofText text).delivered (requests ++ .take :: more) =
      (ofText text).delivered requests ++ (((ofText text).behind requests).pending ++
        (((ofText text).behind requests).takeDiagnostics.2).delivered more) := delivered_append _ _
  rw [htake, takeDiagnostics, hmore, List.append_nil, hdelivered]

/-- The escape sequence is reported in front of the quote that stands before it. -/
theorem ofText_delivered_unsorted :
    ¬ ((ofText "\"\\x".toList).delivered [.next, .next, .take]).Pairwise
      fun first second => first.span.start ≤ second.span.start := by
  decide +kernel

end TokenStream

end TdSyntax
