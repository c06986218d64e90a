import TdSyntax.Kind.Set
import TdSyntax.Proofs.Token.Tiling

/-!
# Quotes pair up

If the lexer has nothing to report, every string literal is closed: behind an opening
quote there are only pieces of the literal up to a closing one.  Each token is of a kind
of tokens, the token of an operator names one, and an escape sequence starts with a
backslash.
-/

namespace TdSyntax

/-- What the lexer guarantees of a single token. -/
structure Token.Sound (token : Token) : Prop where
  isToken : token.kind.isToken = true
  operator : token.kind = .bangOperator →
    ∃ name operator, token.text = '!' :: name ∧
      BangOperator.ofName? (String.ofList name) = some operator
  escape : token.kind = .escapeSequence → ∃ rest, token.text = '\\' :: rest

def Kind.Set.quoted : Kind.Set := .ofList [.stringContent, .escapeSequence, .doubleQuote]

/-- The tokens of a text in which string literals are closed, from a place inside or
outside of a literal on. -/
inductive Token.Quoted : Bool → List Token → Prop
  | nil : Quoted false []
  | cons {quoted : Bool} {token : Token} {rest : List Token} (hsound : token.Sound)
      (heof : token.kind ≠ .eof)
      (hkind : quoted = true → Kind.Set.quoted.contains token.kind = true)
      (hrest : Quoted (if token.kind = .doubleQuote then !quoted else quoted) rest) :
      Quoted quoted (token :: rest)

namespace Kind

theorem isToken_of_ofKeyword? {word : String} {kind : Kind} (h : ofKeyword? word = some kind) :
    kind.isToken = true := by
  have hkeyword := (spelling?_of_ofKeyword? h).1
  cases kind <;> first | rfl | exact absurd hkeyword (by decide)

theorem isKeyword_of_ofKeyword? {word : String} {kind : Kind} (h : ofKeyword? word = some kind) :
    kind.isKeyword = true :=
  (spelling?_of_ofKeyword? h).1

end Kind

namespace Lexeme

structure Sound (first : Char) (rest : Text) (lexeme : Lexeme Kind) : Prop where
  isToken : lexeme.kind.isToken = true
  operator : lexeme.kind = .bangOperator → first = '!' ∧
    ∃ operator, BangOperator.ofName? (String.ofList (rest.take lexeme.tail)) = some operator
  escape : lexeme.kind = .escapeSequence → first = '\\'

def IsPlain (lexeme : Lexeme Kind) : Prop :=
  lexeme.kind.isToken = true ∧ lexeme.kind ≠ .bangOperator ∧ lexeme.kind ≠ .escapeSequence

theorem IsPlain.sound {lexeme : Lexeme Kind} (h : lexeme.IsPlain) (first : Char) (rest : Text) :
    lexeme.Sound first rest :=
  ⟨h.1, fun heq => absurd heq h.2.1, fun heq => absurd heq h.2.2⟩

theorem word_isPlain (first : Char) (rest : Text) : (word first rest).IsPlain := by
  simp only [word, IsPlain]
  cases hword : Kind.ofKeyword? (String.ofList (first :: rest.takeWhile Text.isWordPart)) with
  | none => decide
  | some kind =>
      have hkeyword := Kind.isKeyword_of_ofKeyword? hword
      refine ⟨Kind.isToken_of_ofKeyword? hword, ?_, ?_⟩
      all_goals
        rintro rfl
        cases hkeyword

theorem numberOrName_isPlain (text : Text) : (numberOrName text).IsPlain := by
  simp only [numberOrName]
  split <;> exact ⟨rfl, by simp⟩

theorem codeBlock_isPlain (rest : Text) : (codeBlock rest).IsPlain := by
  rw [IsPlain, codeBlock_kind]
  decide

theorem stringPiece_sound (first : Char) (rest : Text) : (stringPiece first rest).Sound first rest := by
  unfold stringPiece
  split
  · exact IsPlain.sound ⟨rfl, by simp⟩ first rest
  · split
    case isTrue hbackslash => exact ⟨rfl, nofun, fun _ => hbackslash⟩
    case isFalse => exact IsPlain.sound ⟨rfl, by simp⟩ first rest

theorem stringPiece_quoted (first : Char) (rest : Text) :
    Kind.Set.quoted.contains (stringPiece first rest).kind = true := by
  unfold stringPiece
  repeat' split
  all_goals simp [Kind.Set.quoted]

theorem bang_sound (rest : Text) : (bang rest).Sound '!' rest := by
  have htake : rest.take (rest.takeWhile Text.isWordPart).length =
      rest.takeWhile Text.isWordPart := by
    exact (List.prefix_iff_eq_take.1 (List.takeWhile_prefix _)).symm
  unfold bang
  extract_lets name
  split
  · exact IsPlain.sound ⟨rfl, by simp⟩ _ rest
  · split
    case isTrue hname =>
      refine ⟨rfl, fun _ => ⟨rfl, ?_⟩, nofun⟩
      simp only [name, htake] at hname ⊢
      exact Option.isSome_iff_exists.1 hname
    case isFalse => exact IsPlain.sound ⟨rfl, by simp⟩ _ rest

theorem token_sound (previous : Option Char) (first : Char) (rest : Text) :
    (token previous first rest).Sound first rest := by
  unfold token
  extract_lets signed single
  split
  case h_3 =>
    split
    · exact (codeBlock_isPlain rest).sound _ rest
    · exact IsPlain.sound ⟨rfl, by simp [single]⟩ _ rest
  case h_15 => split <;> exact IsPlain.sound ⟨rfl, by simp [single]⟩ _ rest
  case h_17 => exact bang_sound rest
  case h_18 =>
    repeat' split
    case isFalse.isFalse.isFalse.isTrue => exact (numberOrName_isPlain _).sound first rest
    case isFalse.isFalse.isFalse.isFalse.isTrue => exact (word_isPlain first rest).sound first rest
    all_goals exact IsPlain.sound ⟨rfl, by simp [single]⟩ first rest
  all_goals exact IsPlain.sound ⟨rfl, by simp [single]⟩ _ rest

end Lexeme

namespace Lexer

theorem triviaRun_openString (lexer : Lexer) :
    lexer.triviaRun.next.openString = lexer.openString := by
  fun_induction triviaRun lexer with
  | case1 => rfl
  | case2 lexer lexeme _ next run ih => exact ih

theorem trivia_openString (lexer : Lexer) : lexer.trivia.next.openString = lexer.openString := by
  unfold trivia
  split
  · rfl
  · exact triviaRun_openString lexer

theorem bareToken_openString (lexer : Lexer) (h : lexer.bareToken.kind ≠ .eof) :
    lexer.bareToken.next.openString = lexer.toggle lexer.bareToken.kind := by
  cases hrest : lexer.rest with
  | nil => exact absurd ((bareToken_kind_eq_eof_iff lexer).2 hrest) h
  | cons first rest => simp [bareToken, hrest]

theorem toggle_isSome (lexer : Lexer) (kind : Kind) :
    (lexer.toggle kind).isSome =
      if kind = .doubleQuote then !lexer.openString.isSome else lexer.openString.isSome := by
  unfold toggle
  split
  · cases lexer.openString <;> rfl
  · rfl

theorem bareToken_isOpen (lexer : Lexer) (h : lexer.bareToken.kind ≠ .eof) :
    lexer.bareToken.next.openString.isSome =
      if lexer.bareToken.kind = .doubleQuote then !lexer.openString.isSome
      else lexer.openString.isSome := by
  rw [bareToken_openString lexer h, toggle_isSome]

theorem next_isOpen (lexer : Lexer) (h : lexer.next.token.kind ≠ .eof) :
    lexer.next.next.openString.isSome =
      if lexer.next.token.kind = .doubleQuote then !lexer.openString.isSome
      else lexer.openString.isSome := by
  have hbare := bareToken_isOpen lexer.trivia.next h
  rw [lexer.trivia_openString] at hbare
  exact (congrArg Option.isSome (trivia_openString _)).trans hbare

theorem bareToken_quoted (lexer : Lexer) (h : lexer.bareToken.kind ≠ .eof)
    (hopen : lexer.openString.isSome = true) :
    Kind.Set.quoted.contains lexer.bareToken.kind = true := by
  cases hrest : lexer.rest with
  | nil => exact absurd ((bareToken_kind_eq_eof_iff lexer).2 hrest) h
  | cons first rest =>
      simp only [bareToken, hrest, hopen, if_true]
      exact Lexeme.stringPiece_quoted first rest

theorem next_sound (lexer : Lexer) : lexer.next.token.Sound := by
  simp only [next]
  generalize lexer.trivia.next = lexer
  cases hrest : lexer.rest with
  | nil =>
      have hkind : lexer.bareToken.kind = .eof := (bareToken_kind_eq_eof_iff lexer).2 hrest
      refine ⟨?_, ?_, ?_⟩
      · simp only [hkind]
        rfl
      · simp [hkind]
      · simp [hkind]
  | cons first rest =>
      have hsound {lexeme : Lexeme Kind} (h : lexeme.Sound first rest) (start : Nat)
          (leading trailing : List TriviaText) :
          Token.Sound ⟨leading, lexeme.kind, start, first :: rest.take lexeme.tail, trailing⟩ := by
        refine ⟨h.isToken, fun hkind => ?_, fun hkind => ?_⟩
        · obtain ⟨rfl, operator, hname⟩ := h.operator hkind
          exact ⟨_, operator, rfl, hname⟩
        · obtain rfl := h.escape hkind
          exact ⟨_, rfl⟩
      simp only [bareToken, hrest]
      split
      · exact hsound (Lexeme.stringPiece_sound first rest) _ _ _
      · exact hsound (Lexeme.token_sound lexer.previous first rest) _ _ _

theorem openString_of_next_eof (lexer : Lexer) (heof : lexer.next.token.kind = .eof)
    (h : lexer.next.diagnostics = []) : lexer.openString = none := by
  have hrest := (bareToken_kind_eq_eof_iff lexer.trivia.next).1 heof
  have hbare : lexer.trivia.next.bareToken.diagnostics = [] := by
    simp only [next, List.append_eq_nil_iff] at h
    exact h.1.2
  rw [← trivia_openString]
  cases hopen : lexer.trivia.next.openString with
  | none => rfl
  | some start => simp [bareToken, hrest, hopen] at hbare

end Lexer

namespace TokenList

theorem ofLexer_quoted (lexer : Lexer) (h : (ofLexer lexer).diagnostics = []) :
    Token.Quoted lexer.openString.isSome (ofLexer lexer).tokens := by
  fun_induction ofLexer lexer with
  | case1 lexer step heof =>
      rw [lexer.openString_of_next_eof heof h]
      exact .nil
  | case2 lexer step heof list ih =>
      obtain ⟨-, hlist⟩ := List.append_eq_nil_iff.1 h
      have hbare : lexer.trivia.next.bareToken.kind ≠ .eof := heof
      have hopen := lexer.next_isOpen heof
      refine .cons lexer.next_sound heof (fun hquoted => ?_) (hopen ▸ ih hlist)
      exact Lexer.bareToken_quoted _ hbare (by rw [Lexer.trivia_openString, hquoted])

theorem ofText_quoted {text : Text} (h : (ofText text).diagnostics = []) :
    Token.Quoted false (ofText text).tokens :=
  ofLexer_quoted (Lexer.start text) h

theorem eof_sound (lexer : Lexer) : (ofLexer lexer).eof.Sound := by
  fun_induction ofLexer lexer with
  | case1 lexer step heof => exact lexer.next_sound
  | case2 lexer step heof list ih => exact ih

end TokenList

end TdSyntax
