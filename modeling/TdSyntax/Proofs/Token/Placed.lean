import TdSyntax.Proofs.Token.Ranges
import TdSyntax.Proofs.Token.Unknown

/-!
# The places of lexical diagnostics

Every range that the lexer reports is a range of the text: it ends where it starts or
behind it, and both ends fall between two characters.  A lexer only remembers the place
of the quote that has opened a string literal, and that lies in front of it.
-/

namespace TdSyntax

/-- A range of the text: its ends are in order, and fall between two characters or at an
end of the text. -/
structure Span.Within (span : Span) (text : Text) : Prop where
  ordered : span.start ≤ span.stop
  cuts : span.Cuts text

namespace Text

theorem isBoundary_iff {offset : Nat} {text : Text} :
    text.isBoundary offset = true ↔
      ∃ before after, text = before ++ after ∧ offset = before.size := by
  constructor
  · intro h
    obtain ⟨⟨before, after⟩, hsplit⟩ := Option.isSome_iff_exists.1 h
    obtain ⟨happend, hsize⟩ := append_of_splitAt? hsplit
    exact ⟨before, after, happend.symm, hsize.symm⟩
  · rintro ⟨before, after, rfl, rfl⟩
    rw [isBoundary, splitAt?_size]
    rfl

theorem le_size_of_isBoundary {offset : Nat} {text : Text} (h : text.isBoundary offset = true) :
    offset ≤ text.size := by
  obtain ⟨before, after, rfl, rfl⟩ := isBoundary_iff.1 h
  rw [size_append]
  exact Nat.le_add_right _ _

end Text

namespace Lexer

/-- The lexer stands in a text: what is left is the end of the text from its offset on, and
an open string literal has started at a place in front of it. -/
structure StandsIn (lexer : Lexer) (source : Text) : Prop where
  place : ∃ before, source = before ++ lexer.rest ∧ lexer.offset = before.size
  opened : ∀ start ∈ lexer.openString, Span.Within ⟨start, lexer.offset⟩ source

namespace StandsIn

variable {lexer later : Lexer} {source taken : Text}

theorem isBoundary (h : lexer.StandsIn source) : source.isBoundary lexer.offset = true := by
  obtain ⟨before, hsource, hoffset⟩ := h.place
  exact Text.isBoundary_iff.2 ⟨before, lexer.rest, hsource, hoffset⟩

theorem place_of_reaches (h : lexer.StandsIn source) (hreaches : lexer.Reaches later taken) :
    ∃ before, source = before ++ later.rest ∧ later.offset = before.size := by
  obtain ⟨before, hsource, hoffset⟩ := h.place
  exact ⟨before ++ taken, by rw [hsource, hreaches.rest, List.append_assoc],
    by rw [hreaches.offset, hoffset, Text.size_append]⟩

theorem spanTo_within (h : lexer.StandsIn source) (hreaches : lexer.Reaches later taken) :
    (lexer.spanTo later).Within source := by
  obtain ⟨before, hsource, hoffset⟩ := h.place_of_reaches hreaches
  exact ⟨hreaches.offset_le, h.isBoundary,
    Text.isBoundary_iff.2 ⟨before, later.rest, hsource, hoffset⟩⟩

theorem opened_of_reaches (h : lexer.StandsIn source) (hreaches : lexer.Reaches later taken) :
    ∀ start ∈ lexer.openString, Span.Within ⟨start, later.offset⟩ source := by
  intro start hmem
  obtain ⟨hordered, hcuts⟩ := h.opened start hmem
  exact ⟨Nat.le_trans hordered hreaches.offset_le, hcuts.start,
    (h.spanTo_within hreaches).cuts.stop⟩

theorem of_reaches (h : lexer.StandsIn source) (hreaches : lexer.Reaches later taken)
    (hopen : later.openString = lexer.openString) : later.StandsIn source :=
  ⟨h.place_of_reaches hreaches, hopen ▸ h.opened_of_reaches hreaches⟩

theorem toggle_of_reaches (h : lexer.StandsIn source) (hreaches : lexer.Reaches later taken)
    (kind : Kind) : ∀ start ∈ lexer.toggle kind, Span.Within ⟨start, later.offset⟩ source := by
  unfold toggle
  split
  · split
    · nofun
    · rintro _ ⟨rfl⟩
      exact h.spanTo_within hreaches
  · exact h.opened_of_reaches hreaches

theorem diagnose (h : lexer.StandsIn source) (hreaches : lexer.Reaches later taken)
    (problem : Option Problem) :
    ∀ report ∈ lexer.diagnose later problem, report.span.Within source := by
  intro report hmem
  obtain ⟨problem, -, rfl⟩ := List.mem_map.1 hmem
  exact h.spanTo_within hreaches

theorem triviaRun (h : lexer.StandsIn source) :
    ∀ report ∈ lexer.triviaRun.diagnostics, report.span.Within source := by
  fun_induction Lexer.triviaRun lexer with
  | case1 => exact List.forall_mem_nil _
  | case2 lexer lexeme _ next run ih =>
      have hreaches := advance_reaches lexer (lexeme.tail + 1)
      exact List.forall_mem_append.2
        ⟨h.diagnose hreaches lexeme.problem, ih (h.of_reaches hreaches rfl)⟩

theorem trivia (h : lexer.StandsIn source) : lexer.trivia.next.StandsIn source ∧
    ∀ report ∈ lexer.trivia.diagnostics, report.span.Within source := by
  refine ⟨h.of_reaches lexer.trivia_reaches lexer.trivia_openString, ?_⟩
  unfold Lexer.trivia
  split
  · exact List.forall_mem_nil _
  · exact h.triviaRun

theorem bareToken (h : lexer.StandsIn source) : lexer.bareToken.next.StandsIn source ∧
    ∀ report ∈ lexer.bareToken.diagnostics, report.span.Within source := by
  have hplace := h.place_of_reaches lexer.bareToken_reaches
  cases hrest : lexer.rest with
  | nil =>
      simp only [Lexer.bareToken, hrest] at hplace ⊢
      refine ⟨⟨hplace, ?_⟩, ?_⟩
      · intro start hstart
        cases hstart
      · intro report hmem
        obtain ⟨start, hstart, rfl⟩ := List.mem_map.1 hmem
        exact h.opened start (Option.mem_toList.1 hstart)
  | cons first rest =>
      have hkind : lexer.bareToken.kind ≠ .eof := by
        rw [ne_eq, bareToken_kind_eq_eof_iff, hrest]
        exact List.cons_ne_nil first rest
      refine ⟨⟨hplace, ?_⟩, ?_⟩
      · rw [bareToken_openString lexer hkind]
        exact h.toggle_of_reaches lexer.bareToken_reaches _
      · simp only [Lexer.bareToken, hrest]
        exact h.diagnose (advance_reaches lexer _) _

theorem next (h : lexer.StandsIn source) : lexer.next.next.StandsIn source ∧
    ∀ report ∈ lexer.next.diagnostics, report.span.Within source := by
  obtain ⟨hone, hleading⟩ := h.trivia
  obtain ⟨htwo, hbare⟩ := hone.bareToken
  obtain ⟨hthree, htrailing⟩ := htwo.trivia
  exact ⟨hthree, List.forall_mem_append.2 ⟨List.forall_mem_append.2 ⟨hleading, hbare⟩, htrailing⟩⟩

end StandsIn

end Lexer

namespace TokenList

theorem ofLexer_within {lexer : Lexer} {source : Text} (h : lexer.StandsIn source) :
    ∀ report ∈ (ofLexer lexer).diagnostics, report.span.Within source := by
  fun_induction ofLexer lexer with
  | case1 lexer step heof => exact h.next.2
  | case2 lexer step heof list ih => exact List.forall_mem_append.2 ⟨h.next.2, ih h.next.1⟩

theorem ofText_within (text : Text) :
    ∀ report ∈ (ofText text).diagnostics, report.span.Within text :=
  ofLexer_within ⟨⟨[], rfl, rfl⟩, nofun⟩

end TokenList

theorem Token.span_within {text : Text} {token : Token} (h : token ∈ tokenize text) :
    token.span.Within text := by
  obtain ⟨htiles, hjoined⟩ := tokenize_tiles text
  have hsource : text.HasAt 0 (Token.joined (tokenize text)) := ⟨[], [], by simp [hjoined], rfl⟩
  have hparts := Token.parts_of_tileFrom htiles hsource
  refine ⟨Nat.le_add_right _ _, (hparts token h).2 token.span ?_⟩
  exact List.mem_append_right _ List.mem_cons_self

end TdSyntax
