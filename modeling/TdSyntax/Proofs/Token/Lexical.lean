import TdSyntax.Token.Lexer

/-!
# The diagnostics of the lexer

Whatever the lexer reports belongs to the lexical stage and is an error.
-/

namespace TdSyntax

def Problem.IsLexical (problem : Problem) : Prop :=
  problem.stage = .lexical ∧ problem.severity = .error

namespace Lexeme

def IsLexical {Class : Type} (lexeme : Lexeme Class) : Prop :=
  ∀ problem, lexeme.problem = some problem → problem.IsLexical

theorem isLexical_none {Class : Type} (kind : Class) (tail : Nat) :
    IsLexical ⟨kind, tail, none⟩ := by
  simp [IsLexical]

theorem trivia?_isLexical {text : Text} {lexeme : Lexeme TriviaKind}
    (h : trivia? text = some lexeme) : lexeme.IsLexical := by
  unfold trivia? at h
  split at h
  · cases h
  · cases h
    exact isLexical_none _ _
  · cases h
    intro problem hproblem
    simp only at hproblem
    split at hproblem <;> cases hproblem
    exact ⟨rfl, rfl⟩
  · split at h
    · simp only [Option.map_eq_some_iff] at h
      obtain ⟨directive, -, rfl⟩ := h
      intro problem hproblem
      simp only at hproblem
      split at hproblem <;> cases hproblem
      exact ⟨rfl, rfl⟩
    · split at h <;> cases h
      exact isLexical_none _ _

theorem codeBlock_isLexical (rest : Text) : (codeBlock rest).IsLexical := by
  unfold codeBlock
  split
  · exact isLexical_none _ _
  · intro problem hproblem
    cases hproblem
    exact ⟨rfl, rfl⟩

theorem bang_isLexical (rest : Text) : (bang rest).IsLexical := by
  simp only [bang]
  repeat' split
  all_goals exact isLexical_none _ _

theorem numberOrName_isLexical (text : Text) : (numberOrName text).IsLexical := by
  simp only [numberOrName]
  split <;> exact isLexical_none _ _

theorem token_isLexical (previous : Option Char) (first : Char) (rest : Text) :
    (token previous first rest).IsLexical := by
  unfold token
  extract_lets signed single
  split
  case h_3 =>
    split
    · exact codeBlock_isLexical rest
    · exact isLexical_none _ _
  case h_15 => split <;> exact isLexical_none _ _
  case h_17 => exact bang_isLexical rest
  case h_18 =>
    repeat' split
    case isFalse.isFalse.isFalse.isTrue => exact numberOrName_isLexical _
    case isFalse.isFalse.isFalse.isFalse.isFalse =>
      intro problem hproblem
      cases hproblem
      exact ⟨rfl, rfl⟩
    all_goals exact isLexical_none _ _
  all_goals exact isLexical_none _ _

theorem stringPiece_isLexical (first : Char) (rest : Text) :
    (stringPiece first rest).IsLexical := by
  unfold stringPiece
  split
  · exact isLexical_none _ _
  · split
    · intro problem hproblem
      simp only at hproblem
      split at hproblem <;> cases hproblem
      exact ⟨rfl, rfl⟩
    · exact isLexical_none _ _

end Lexeme

namespace Lexer

theorem diagnose_isLexical {Class : Type} {lexeme : Lexeme Class} (h : lexeme.IsLexical)
    (lexer later : Lexer) :
    ∀ diagnostic ∈ lexer.diagnose later lexeme.problem, diagnostic.problem.IsLexical := by
  intro diagnostic hmem
  simp only [diagnose, List.mem_map, Option.mem_toList] at hmem
  obtain ⟨problem, hproblem, rfl⟩ := hmem
  exact h problem hproblem

theorem triviaRun_diagnostics (lexer : Lexer) :
    ∀ diagnostic ∈ lexer.triviaRun.diagnostics, diagnostic.problem.IsLexical := by
  fun_induction triviaRun lexer with
  | case1 => simp
  | case2 lexer lexeme hlexeme next run ih =>
      intro diagnostic hmem
      rcases List.mem_append.1 hmem with hmem | hmem
      · exact diagnose_isLexical (Lexeme.trivia?_isLexical hlexeme) lexer next diagnostic hmem
      · exact ih diagnostic hmem

theorem trivia_diagnostics (lexer : Lexer) :
    ∀ diagnostic ∈ lexer.trivia.diagnostics, diagnostic.problem.IsLexical := by
  unfold trivia
  split
  · simp
  · exact triviaRun_diagnostics lexer

theorem bareToken_diagnostics (lexer : Lexer) :
    ∀ diagnostic ∈ lexer.bareToken.diagnostics, diagnostic.problem.IsLexical := by
  cases hrest : lexer.rest with
  | nil =>
      simp only [bareToken, hrest, List.mem_map, Option.mem_toList]
      rintro diagnostic ⟨start, -, rfl⟩
      exact ⟨rfl, rfl⟩
  | cons first rest =>
      simp only [bareToken, hrest]
      refine diagnose_isLexical ?_ lexer _
      split
      · exact Lexeme.stringPiece_isLexical first rest
      · exact Lexeme.token_isLexical lexer.previous first rest

theorem next_diagnostics (lexer : Lexer) :
    ∀ diagnostic ∈ lexer.next.diagnostics, diagnostic.problem.IsLexical := by
  intro diagnostic hmem
  rcases List.mem_append.1 hmem with hmem | hmem
  · rcases List.mem_append.1 hmem with hmem | hmem
    · exact trivia_diagnostics lexer diagnostic hmem
    · exact bareToken_diagnostics _ diagnostic hmem
  · exact trivia_diagnostics _ diagnostic hmem

end Lexer

namespace TokenList

theorem ofLexer_diagnostics (lexer : Lexer) :
    ∀ diagnostic ∈ (ofLexer lexer).diagnostics, diagnostic.problem.IsLexical := by
  fun_induction ofLexer lexer with
  | case1 lexer step heof => exact lexer.next_diagnostics
  | case2 lexer step heof list ih =>
      intro diagnostic hmem
      rcases List.mem_append.1 hmem with hmem | hmem
      · exact lexer.next_diagnostics diagnostic hmem
      · exact ih diagnostic hmem

theorem ofText_diagnostics (text : Text) :
    ∀ diagnostic ∈ (ofText text).diagnostics, diagnostic.stage = .lexical :=
  fun diagnostic hmem => (ofLexer_diagnostics (Lexer.start text) diagnostic hmem).1

theorem ofText_isError (text : Text) :
    ∀ diagnostic ∈ (ofText text).diagnostics, diagnostic.isError = true := by
  intro diagnostic hmem
  have hlexical := ofLexer_diagnostics (Lexer.start text) diagnostic hmem
  rw [Diagnostic.isError, Diagnostic.severity, hlexical.2]
  rfl

end TokenList

end TdSyntax
