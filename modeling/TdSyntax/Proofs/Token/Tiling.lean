import TdSyntax.Token.Lexer

/-!
# Tokens tile the text

The lexer drops nothing and takes nothing twice.  The texts of the tokens, trivia
included, follow one another without a gap from the start of the text to its end,
and the only token of the kind `eof` is the last one.
-/

namespace TdSyntax

def Token.TileFrom : Nat → List Token → Prop
  | _, [] => True
  | offset, first :: rest =>
      first.start = offset + (TriviaText.joined first.leading).size ∧
        TileFrom (offset + first.fullText.size) rest

structure Token.Precedes (first second : Token) : Prop where
  start_lt_stop : first.start < first.stop
  stop_le_start : first.stop ≤ second.start

def Token.joined (tokens : List Token) : Text := tokens.flatMap Token.fullText

theorem Token.joined_append (first second : List Token) :
    joined (first ++ second) = joined first ++ joined second := List.flatMap_append

theorem Token.tileFrom_append {offset : Nat} {first second : List Token} :
    TileFrom offset (first ++ second) ↔
      TileFrom offset first ∧ TileFrom (offset + (joined first).size) second := by
  induction first generalizing offset with
  | nil => simp [TileFrom, joined]
  | cons token first ih =>
      simp only [List.cons_append, TileFrom, ih, joined, List.flatMap_cons,
        Text.size_append, Nat.add_assoc, and_assoc]

theorem Token.start_lt_stop {token : Token} (h : token.text ≠ []) : token.start < token.stop := by
  cases htext : token.text with
  | nil => exact absurd htext h
  | cons first rest =>
      have hfirst := first.utf8Size_pos
      simp only [stop, htext, Text.size]
      omega

theorem Token.le_start_of_tileFrom {offset : Nat} {tokens : List Token}
    (h : TileFrom offset tokens) : ∀ token ∈ tokens, offset ≤ token.start := by
  induction tokens generalizing offset with
  | nil => simp
  | cons first rest ih =>
      intro token hmem
      rcases List.mem_cons.1 hmem with rfl | hmem
      · have := h.1
        omega
      · have := ih h.2 token hmem
        omega

theorem Token.pairwise_precedes {offset : Nat} {tokens : List Token} {last : Token}
    (h : TileFrom offset (tokens ++ [last])) (htext : ∀ token ∈ tokens, token.text ≠ []) :
    (tokens ++ [last]).Pairwise Precedes := by
  induction tokens generalizing offset with
  | nil => simp
  | cons first rest ih =>
      refine List.pairwise_cons.2 ⟨fun token hmem => ⟨?_, ?_⟩,
        ih h.2 fun token hmem => htext token (List.mem_cons_of_mem first hmem)⟩
      · exact start_lt_stop (htext first (by simp))
      · have hstart := h.1
        have hle := le_start_of_tileFrom h.2 token hmem
        simp only [fullText, Text.size_append] at hle
        simp only [stop]
        omega

def Kind.isOutside : Kind → Bool
  | .eof | .stringContent | .escapeSequence => false
  | _ => true

namespace Lexeme

theorem word_isOutside (first : Char) (rest : Text) : (word first rest).kind.isOutside = true := by
  simp only [word]
  cases hword : Kind.ofKeyword? (String.ofList (first :: rest.takeWhile Text.isWordPart)) with
  | none => rfl
  | some kind =>
      have hkeyword := (Kind.spelling?_of_ofKeyword? hword).1
      cases kind <;> first | rfl | exact absurd hkeyword (by decide)

theorem bang_isOutside (rest : Text) : (bang rest).kind.isOutside = true := by
  simp only [bang]
  split
  · rfl
  · split <;> rfl

theorem numberOrName_isOutside (text : Text) : (numberOrName text).kind.isOutside = true := by
  simp only [numberOrName]
  split <;> rfl

theorem codeBlock_kind (rest : Text) : (codeBlock rest).kind = .codeBlock := by
  unfold codeBlock
  split <;> rfl

theorem token_isOutside (previous : Option Char) (first : Char) (rest : Text) :
    (token previous first rest).kind.isOutside = true := by
  unfold token
  extract_lets signed single
  split
  case h_3 =>
    split
    · rw [codeBlock_kind]
      rfl
    · rfl
  case h_15 => split <;> rfl
  case h_17 => exact bang_isOutside rest
  case h_18 =>
    repeat' split
    case isFalse.isFalse.isFalse.isTrue => exact numberOrName_isOutside _
    case isFalse.isFalse.isFalse.isFalse.isTrue => exact word_isOutside first rest
    all_goals rfl
  all_goals rfl

theorem token_kind_ne_eof (previous : Option Char) (first : Char) (rest : Text) :
    (token previous first rest).kind ≠ .eof := by
  intro heof
  have houtside := token_isOutside previous first rest
  rw [heof] at houtside
  cases houtside

theorem stringPiece_kind_ne_eof (first : Char) (rest : Text) :
    (stringPiece first rest).kind ≠ .eof := by
  unfold stringPiece
  repeat' split
  all_goals simp

end Lexeme

namespace Lexer

structure Reaches (lexer later : Lexer) (taken : Text) : Prop where
  rest : lexer.rest = taken ++ later.rest
  offset : later.offset = lexer.offset + taken.size

theorem Reaches.refl (lexer : Lexer) : lexer.Reaches lexer [] := ⟨by simp, by simp⟩

theorem Reaches.trans {first second third : Lexer} {taken more : Text}
    (h : first.Reaches second taken) (h' : second.Reaches third more) :
    first.Reaches third (taken ++ more) := by
  constructor
  · rw [h.rest, h'.rest, List.append_assoc]
  · rw [h'.offset, h.offset, Text.size_append, Nat.add_assoc]

theorem advance_reaches (lexer : Lexer) (count : Nat) :
    lexer.Reaches (lexer.advance count) (lexer.rest.take count) :=
  ⟨by simp [advance], rfl⟩

theorem triviaRun_of_none {lexer : Lexer} (h : Lexeme.trivia? lexer.rest = none) :
    lexer.triviaRun = ⟨[], [], lexer⟩ := by
  unfold triviaRun
  split
  · rfl
  · rename_i hsome
    rw [h] at hsome
    cases hsome

theorem triviaRun_of_some {lexer : Lexer} {lexeme : Lexeme TriviaKind}
    (h : Lexeme.trivia? lexer.rest = some lexeme) :
    lexer.triviaRun =
      ⟨⟨lexeme.kind, lexer.rest.take (lexeme.tail + 1)⟩ ::
          (lexer.advance (lexeme.tail + 1)).triviaRun.trivia,
        lexer.diagnose (lexer.advance (lexeme.tail + 1)) lexeme.problem ++
          (lexer.advance (lexeme.tail + 1)).triviaRun.diagnostics,
        (lexer.advance (lexeme.tail + 1)).triviaRun.next⟩ := by
  rw [triviaRun]
  split
  · rename_i hnone
    rw [h] at hnone
    cases hnone
  · rename_i other hsome
    rw [h] at hsome
    cases hsome
    rfl

theorem trivia_of_none {lexer : Lexer} (h : Lexeme.trivia? lexer.rest = none) :
    lexer.trivia = ⟨[], [], lexer⟩ := by
  unfold trivia
  split
  · rfl
  · exact triviaRun_of_none h

theorem trivia_of_open {lexer : Lexer} (h : lexer.openString.isSome = true) :
    lexer.trivia = ⟨[], [], lexer⟩ := by
  simp [trivia, h]

theorem triviaRun_reaches (lexer : Lexer) :
    lexer.Reaches lexer.triviaRun.next (TriviaText.joined lexer.triviaRun.trivia) := by
  fun_induction triviaRun lexer with
  | case1 lexer => exact .refl lexer
  | case2 lexer lexeme _ next run ih =>
      exact (advance_reaches lexer (lexeme.tail + 1)).trans ih

theorem trivia_reaches (lexer : Lexer) :
    lexer.Reaches lexer.trivia.next (TriviaText.joined lexer.trivia.trivia) := by
  unfold trivia
  split
  · exact .refl lexer
  · exact triviaRun_reaches lexer

theorem bareToken_reaches (lexer : Lexer) :
    lexer.Reaches lexer.bareToken.next lexer.bareToken.text := by
  cases hrest : lexer.rest with
  | nil => constructor <;> simp [bareToken, hrest]
  | cons first rest =>
      constructor <;> simp [bareToken, hrest, advance]

theorem bareToken_kind_eq_eof_iff (lexer : Lexer) :
    lexer.bareToken.kind = .eof ↔ lexer.rest = [] := by
  cases hrest : lexer.rest with
  | nil => simp [bareToken, hrest]
  | cons first rest =>
      simp only [bareToken, hrest, reduceCtorEq, iff_false]
      split
      · exact Lexeme.stringPiece_kind_ne_eof first rest
      · exact Lexeme.token_kind_ne_eof lexer.previous first rest

theorem bareToken_text_ne_nil (lexer : Lexer) (h : lexer.bareToken.kind ≠ .eof) :
    lexer.bareToken.text ≠ [] := by
  cases hrest : lexer.rest with
  | nil => exact absurd ((bareToken_kind_eq_eof_iff lexer).2 hrest) h
  | cons first rest => simp [bareToken, hrest]

theorem next_reaches (lexer : Lexer) :
    lexer.Reaches lexer.next.next lexer.next.token.fullText :=
  ((trivia_reaches lexer).trans (bareToken_reaches _)).trans (trivia_reaches _)

theorem next_start (lexer : Lexer) :
    lexer.next.token.start =
      lexer.offset + (TriviaText.joined lexer.next.token.leading).size :=
  (trivia_reaches lexer).offset

theorem next_of_rest_nil {lexer : Lexer} (hrest : lexer.rest = [])
    (hopen : lexer.openString = none) :
    lexer.next = ⟨⟨[], .eof, lexer.offset, [], []⟩, [], lexer⟩ := by
  have htrivia : lexer.trivia = ⟨[], [], lexer⟩ :=
    trivia_of_none (by rw [hrest, Lexeme.trivia?_nil])
  have hbare : lexer.bareToken = ⟨.eof, [], [], lexer⟩ := by
    obtain ⟨previous, offset, rest, openString⟩ := lexer
    obtain rfl : rest = [] := hrest
    obtain rfl : openString = none := hopen
    rfl
  simp [next, htrivia, hbare]

theorem rest_eq_of_next_eof (lexer : Lexer) (h : lexer.next.token.kind = .eof) :
    lexer.rest = lexer.next.token.fullText := by
  have hrest := (bareToken_kind_eq_eof_iff lexer.trivia.next).1 h
  have hlast : lexer.next.next.rest = [] := by
    have hle := Nat.le_trans (trivia_rest_le lexer.trivia.next.bareToken.next)
      (bareToken_rest_le lexer.trivia.next)
    rw [hrest] at hle
    exact List.length_eq_zero_iff.1 (Nat.le_zero.1 hle)
  simpa [hlast] using (next_reaches lexer).rest

end Lexer

namespace TokenList

theorem ofLexer_of_ne_eof {lexer : Lexer} (h : lexer.next.token.kind ≠ .eof) :
    ofLexer lexer = ⟨lexer.next.token :: (ofLexer lexer.next.next).tokens,
      (ofLexer lexer.next.next).eof,
      lexer.next.diagnostics ++ (ofLexer lexer.next.next).diagnostics⟩ := by
  rw [ofLexer]
  simp [h]

theorem ofLexer_of_eof {lexer : Lexer} (h : lexer.next.token.kind = .eof) :
    ofLexer lexer = ⟨[], lexer.next.token, lexer.next.diagnostics⟩ := by
  rw [ofLexer]
  simp [h]

theorem ofLexer_tiles (lexer : Lexer) :
    Token.TileFrom lexer.offset (ofLexer lexer).all ∧
      Token.joined (ofLexer lexer).all = lexer.rest := by
  fun_induction ofLexer lexer with
  | case1 lexer step heof =>
      refine ⟨⟨lexer.next_start, trivial⟩, ?_⟩
      simpa [all, Token.joined] using (lexer.rest_eq_of_next_eof heof).symm
  | case2 lexer step heof list ih =>
      have hstep := lexer.next_reaches
      refine ⟨⟨lexer.next_start, ?_⟩, ?_⟩
      · rw [← hstep.offset]
        exact ih.1
      · rw [hstep.rest, ← ih.2]
        rfl

theorem eof_kind (lexer : Lexer) : (ofLexer lexer).eof.kind = .eof := by
  fun_induction ofLexer lexer with
  | case1 lexer step heof => exact heof
  | case2 lexer step heof list ih => exact ih

theorem kind_ne_eof (lexer : Lexer) : ∀ token ∈ (ofLexer lexer).tokens, token.kind ≠ .eof := by
  fun_induction ofLexer lexer with
  | case1 => simp
  | case2 lexer step heof list ih =>
      intro token hmem
      rcases List.mem_cons.1 hmem with rfl | hmem
      · exact heof
      · exact ih token hmem

theorem text_ne_nil (lexer : Lexer) : ∀ token ∈ (ofLexer lexer).tokens, token.text ≠ [] := by
  fun_induction ofLexer lexer with
  | case1 => simp
  | case2 lexer step heof list ih =>
      intro token hmem
      rcases List.mem_cons.1 hmem with rfl | hmem
      · exact lexer.trivia.next.bareToken_text_ne_nil heof
      · exact ih token hmem

end TokenList

theorem tokenize_tiles (text : Text) :
    Token.TileFrom 0 (tokenize text) ∧ Token.joined (tokenize text) = text :=
  TokenList.ofLexer_tiles (Lexer.start text)

theorem tokenize_pairwise_precedes (text : Text) : (tokenize text).Pairwise Token.Precedes :=
  Token.pairwise_precedes (tokenize_tiles text).1 (TokenList.text_ne_nil (Lexer.start text))

end TdSyntax
