import TdSyntax.Proofs.Token.Quotes
import TdSyntax.Proofs.Tree.Places
import TdSyntax.Token.Stream

/-!
# The ranges of tokens

The ranges of the tokens, trivia included, tile the text, and so do the ranges of the
pieces of each token.  Only the first token may own trivia in front of it, and no trivia
stands inside a string literal.  A stream hands out the tokens of the text and then the
empty end of the file again and again.
-/

namespace TdSyntax

/-- Spans that follow one another without a gap from one offset to another. -/
def Span.Tile : Nat → List Span → Nat → Prop
  | offset, [], stop => offset = stop
  | offset, first :: rest, stop =>
      first.start = offset ∧ offset ≤ first.stop ∧ Tile first.stop rest stop

theorem Span.Tile.append {first second : List Span} {start middle stop : Nat}
    (h : Tile start first middle) (h' : Tile middle second stop) :
    Tile start (first ++ second) stop := by
  induction first generalizing start with
  | nil =>
      obtain rfl : start = middle := h
      exact h'
  | cons span first ih => exact ⟨h.1, h.2.1, ih h.2.2⟩

/-- Both ends of a span fall between two characters or at an end of the text. -/
structure Span.Cuts (span : Span) (text : Text) : Prop where
  start : text.isBoundary span.start = true
  stop : text.isBoundary span.stop = true

theorem Text.HasAt.cuts {source part : Text} {offset : Nat} (h : source.HasAt offset part) :
    Span.Cuts ⟨offset, offset + part.size⟩ source := by
  obtain ⟨before, after, rfl, rfl⟩ := h
  constructor
  · simp [isBoundary, List.append_assoc, splitAt?_size]
  · simp only [isBoundary]
    rw [← size_append, splitAt?_size]
    rfl

def TriviaText.spans : Nat → List TriviaText → List Span
  | _, [] => []
  | offset, first :: rest =>
      ⟨offset, offset + first.text.size⟩ :: spans (offset + first.text.size) rest

namespace TriviaText

theorem tile_spans (trivia : List TriviaText) (offset : Nat) :
    Span.Tile offset (spans offset trivia) (offset + (joined trivia).size) := by
  induction trivia generalizing offset with
  | nil => rfl
  | cons first rest ih =>
      refine ⟨rfl, Nat.le_add_right _ _, ?_⟩
      rw [joined, List.flatMap_cons, Text.size_append, ← Nat.add_assoc]
      exact ih (offset + first.text.size)

theorem cuts_spans {source : Text} {trivia : List TriviaText} {offset : Nat}
    (h : source.HasAt offset (joined trivia)) :
    ∀ span ∈ spans offset trivia, span.Cuts source := by
  induction trivia generalizing offset with
  | nil => simp [spans]
  | cons first rest ih =>
      rw [joined, List.flatMap_cons] at h
      exact List.forall_mem_cons.2 ⟨h.left.cuts, ih h.right⟩

end TriviaText

namespace Token

def parts (token : Token) : List Span :=
  TriviaText.spans token.fullSpan.start token.leading ++
    token.span :: TriviaText.spans token.stop token.trailing

variable {source : Text} {offset : Nat} {token : Token}

theorem fullSpan_eq (h : token.start = offset + (TriviaText.joined token.leading).size) :
    token.fullSpan = ⟨offset, offset + token.fullText.size⟩ := by
  simp only [fullSpan, fullText, stop, Text.size_append, h, Span.mk.injEq]
  omega

theorem tile_parts (h : token.start = offset + (TriviaText.joined token.leading).size) :
    Span.Tile token.fullSpan.start token.parts token.fullSpan.stop := by
  have hstart : token.fullSpan.start = offset := by rw [fullSpan_eq h]
  have hleading := TriviaText.tile_spans token.leading offset
  rw [← h] at hleading
  rw [parts, hstart]
  apply hleading.append
  refine ⟨rfl, Nat.le_add_right _ _, ?_⟩
  exact TriviaText.tile_spans token.trailing token.stop

theorem cuts_parts (h : token.start = offset + (TriviaText.joined token.leading).size)
    (hsource : source.HasAt offset token.fullText) : ∀ part ∈ token.parts, part.Cuts source := by
  have hstart : token.fullSpan.start = offset := by rw [fullSpan_eq h]
  have hspan : source.HasAt token.start token.text := by
    rw [h]
    exact hsource.left.right
  have htrailing : source.HasAt token.stop (TriviaText.joined token.trailing) := by
    have hright := hsource.right
    rw [Text.size_append, ← Nat.add_assoc, ← h] at hright
    exact hright
  rw [parts, hstart]
  refine List.forall_mem_append.2 ⟨TriviaText.cuts_spans hsource.left.left, ?_⟩
  exact List.forall_mem_cons.2 ⟨hspan.cuts, TriviaText.cuts_spans htrailing⟩

theorem tile_fullSpan {tokens : List Token} (h : TileFrom offset tokens) :
    Span.Tile offset (tokens.map fullSpan) (offset + (joined tokens).size) := by
  induction tokens generalizing offset with
  | nil => rfl
  | cons first rest ih =>
      rw [List.map_cons, fullSpan_eq h.1]
      refine ⟨rfl, Nat.le_add_right _ _, ?_⟩
      rw [joined, List.flatMap_cons, Text.size_append, ← Nat.add_assoc]
      exact ih h.2

theorem parts_of_tileFrom {tokens : List Token} (h : TileFrom offset tokens)
    (hsource : source.HasAt offset (joined tokens)) :
    ∀ token ∈ tokens, Span.Tile token.fullSpan.start token.parts token.fullSpan.stop ∧
      ∀ part ∈ token.parts, part.Cuts source := by
  induction tokens generalizing offset with
  | nil => simp
  | cons first rest ih =>
      rw [joined, List.flatMap_cons] at hsource
      refine List.forall_mem_cons.2 ⟨⟨tile_parts h.1, ?_⟩, ih h.2 hsource.right⟩
      exact cuts_parts h.1 hsource.left

def isOpenBehind (isOpen : Bool) : List Token → Bool
  | [] => isOpen
  | first :: rest =>
      isOpenBehind (if first.kind = .doubleQuote then !isOpen else isOpen) rest

/-- A token in a text where a string literal may be open in front of it: no trivia
stands behind an opening quote or around a piece of a string literal. -/
structure Tight (isOpen : Bool) (token : Token) : Prop where
  opening : isOpen = false → token.kind = .doubleQuote → token.trailing = []
  piece : token.kind = .stringContent ∨ token.kind = .escapeSequence →
    token.leading = [] ∧ token.trailing = []

end Token

namespace Lexer

theorem triviaRun_text_ne_nil (lexer : Lexer) :
    ∀ trivia ∈ lexer.triviaRun.trivia, trivia.text ≠ [] := by
  fun_induction triviaRun lexer with
  | case1 => simp
  | case2 lexer lexeme hlexeme next run ih =>
      refine List.forall_mem_cons.2 ⟨fun hnil => ?_, ih⟩
      rcases List.take_eq_nil_iff.1 hnil with hzero | hrest
      · omega
      · rw [hrest, Lexeme.trivia?_nil] at hlexeme
        cases hlexeme

theorem trivia_text_ne_nil (lexer : Lexer) :
    ∀ trivia ∈ lexer.trivia.trivia, trivia.text ≠ [] := by
  unfold trivia
  split
  · simp
  · exact triviaRun_text_ne_nil lexer

theorem trivia?_triviaRun (lexer : Lexer) : Lexeme.trivia? lexer.triviaRun.next.rest = none := by
  fun_induction triviaRun lexer with
  | case1 lexer hnone => exact hnone
  | case2 lexer lexeme hlexeme next run ih => exact ih

theorem trivia_trivia (lexer : Lexer) :
    lexer.trivia.next.trivia = ⟨[], [], lexer.trivia.next⟩ := by
  by_cases hopen : lexer.openString.isSome
  · rw [trivia_of_open hopen]
    exact trivia_of_open hopen
  · have hrun : lexer.trivia = lexer.triviaRun := by simp [trivia, hopen]
    rw [hrun]
    exact trivia_of_none (trivia?_triviaRun lexer)

theorem next_next_leading (lexer : Lexer) : lexer.next.next.next.token.leading = [] := by
  have hsettled := trivia_trivia lexer.trivia.next.bareToken.next
  exact congrArg TriviaRun.trivia hsettled

theorem isOpen_of_piece {lexer : Lexer}
    (h : lexer.bareToken.kind = .stringContent ∨ lexer.bareToken.kind = .escapeSequence) :
    lexer.openString.isSome = true := by
  by_contra hclosed
  have houtside : lexer.bareToken.kind = .eof ∨ lexer.bareToken.kind.isOutside = true := by
    cases hrest : lexer.rest with
    | nil => exact .inl ((bareToken_kind_eq_eof_iff lexer).2 hrest)
    | cons first rest =>
        right
        simp only [bareToken, hrest, hclosed]
        exact Lexeme.token_isOutside lexer.previous first rest
  rcases h with hkind | hkind <;> rw [hkind] at houtside <;> simp [Kind.isOutside] at houtside

theorem next_tight (lexer : Lexer) : lexer.next.token.Tight lexer.openString.isSome := by
  have hopen := lexer.trivia_openString
  constructor
  · intro hclosed hquote
    have hbehind : lexer.trivia.next.bareToken.next.openString.isSome = true := by
      have hkind : lexer.trivia.next.bareToken.kind = .doubleQuote := hquote
      rw [bareToken_isOpen _ (by simp [hkind]), if_pos hkind, hopen, hclosed]
      rfl
    exact congrArg TriviaRun.trivia (trivia_of_open hbehind)
  · intro hpiece
    have hinside := isOpen_of_piece hpiece
    have hneither {kind : Kind} (hkind : kind = .stringContent ∨ kind = .escapeSequence) :
        kind ≠ .eof ∧ kind ≠ .doubleQuote := by
      rcases hkind with rfl | rfl <;> exact ⟨by simp, by simp⟩
    obtain ⟨hnotEof, hnotQuote⟩ : lexer.trivia.next.bareToken.kind ≠ .eof ∧
        lexer.trivia.next.bareToken.kind ≠ .doubleQuote := hneither hpiece
    have hbehind : lexer.trivia.next.bareToken.next.openString.isSome = true := by
      rw [bareToken_isOpen _ hnotEof, if_neg hnotQuote]
      exact hinside
    rw [hopen] at hinside
    exact ⟨congrArg TriviaRun.trivia (trivia_of_open hinside),
      congrArg TriviaRun.trivia (trivia_of_open hbehind)⟩

theorem next_of_eof {lexer : Lexer} (h : lexer.next.token.kind = .eof) :
    lexer.next.token.text = [] ∧
      lexer.next.token.span = Span.empty (lexer.offset + lexer.rest.size) ∧
      lexer.next.next.next =
        ⟨⟨[], .eof, lexer.offset + lexer.rest.size, [], []⟩, [], lexer.next.next⟩ := by
  have hrest := (bareToken_kind_eq_eof_iff lexer.trivia.next).1 h
  have hbare : lexer.trivia.next.bareToken.text = [] ∧
      lexer.trivia.next.bareToken.next = { lexer.trivia.next with openString := none } := by
    simp [bareToken, hrest]
  have htrailing : lexer.trivia.next.bareToken.next.trivia =
      ⟨[], [], { lexer.trivia.next with openString := none }⟩ := by
    rw [hbare.2]
    exact trivia_of_none (by rw [hrest, Lexeme.trivia?_nil])
  have hstart : lexer.trivia.next.offset = lexer.offset + lexer.rest.size := by
    have hreaches := lexer.trivia_reaches
    have htaken := hreaches.rest
    rw [hrest, List.append_nil] at htaken
    rw [hreaches.offset, ← htaken]
  have hlast : lexer.next.next = { lexer.trivia.next with openString := none } :=
    congrArg TriviaRun.next htrailing
  refine ⟨hbare.1, ?_, ?_⟩
  · show Span.mk lexer.trivia.next.offset
      (lexer.trivia.next.offset + lexer.trivia.next.bareToken.text.size) = _
    rw [hbare.1, hstart]
    rfl
  · have hstays := @next_of_rest_nil lexer.next.next (by rw [hlast, hrest]) (by rw [hlast])
    rw [hstays, ← hstart, hlast]

end Lexer

namespace TokenList

theorem all_ofLexer (lexer : Lexer) :
    (ofLexer lexer).all = lexer.next.token ::
      if lexer.next.token.kind = .eof then [] else (ofLexer lexer.next.next).all := by
  split
  · rename_i heof
    rw [ofLexer_of_eof heof]
    rfl
  · rename_i heof
    rw [ofLexer_of_ne_eof heof]
    rfl

theorem trivia_text_ne_nil (lexer : Lexer) :
    ∀ token ∈ (ofLexer lexer).all, ∀ trivia ∈ token.leading ++ token.trailing,
      trivia.text ≠ [] := by
  have hnext (lexer : Lexer) : ∀ trivia ∈ lexer.next.token.leading ++ lexer.next.token.trailing,
      trivia.text ≠ [] :=
    List.forall_mem_append.2 ⟨lexer.trivia_text_ne_nil, Lexer.trivia_text_ne_nil _⟩
  fun_induction ofLexer lexer with
  | case1 lexer step heof => exact List.forall_mem_singleton.2 (hnext lexer)
  | case2 lexer step heof list ih => exact List.forall_mem_cons.2 ⟨hnext lexer, ih⟩

theorem eof_span (lexer : Lexer) :
    (ofLexer lexer).eof.span = Span.empty (lexer.offset + lexer.rest.size) := by
  fun_induction ofLexer lexer with
  | case1 lexer step heof => exact (Lexer.next_of_eof heof).2.1
  | case2 lexer step heof list ih =>
      have hreaches := lexer.next_reaches
      rw [ih, hreaches.rest, Text.size_append, ← Nat.add_assoc, ← hreaches.offset]

theorem leading_of_mem_tail (lexer : Lexer) :
    ∀ token ∈ (ofLexer lexer).all.tail, token.leading = [] := by
  fun_induction ofLexer lexer with
  | case1 => simp [all]
  | case2 lexer step heof list ih =>
      have hsettled : ∀ token ∈ (ofLexer step.next).all, token.leading = [] := by
        rw [all_ofLexer] at ih ⊢
        exact List.forall_mem_cons.2 ⟨lexer.next_next_leading, ih⟩
      exact hsettled

theorem tight_ofLexer (lexer : Lexer) {before after : List Token} {token : Token}
    (h : (ofLexer lexer).all = before ++ token :: after) :
    token.Tight (Token.isOpenBehind lexer.openString.isSome before) := by
  induction before generalizing lexer with
  | nil =>
      rw [all_ofLexer] at h
      obtain ⟨rfl, -⟩ := List.cons.inj h
      exact lexer.next_tight
  | cons first before ih =>
      rw [all_ofLexer] at h
      obtain ⟨rfl, hrest⟩ := List.cons.inj h
      split at hrest
      · simp at hrest
      · rename_i heof
        rw [Token.isOpenBehind, ← lexer.next_isOpen heof]
        exact ih lexer.next.next hrest

end TokenList

namespace TokenStream

def nth (stream : TokenStream) : Nat → Token
  | 0 => stream.next.1
  | count + 1 => stream.next.2.nth count

/-- The stream hands out the tokens from a lexer on. -/
structure Runs (stream : TokenStream) (lexer : Lexer) : Prop where
  current : stream.current = lexer.next.token
  behind : stream.lexer = lexer.next.next

theorem Runs.next {stream : TokenStream} {lexer : Lexer} (h : stream.Runs lexer) :
    stream.next.2.Runs lexer.next.next := by
  constructor
  · simp [TokenStream.next, h.behind]
  · simp [TokenStream.next, h.behind]

theorem Runs.nth_eq {stream : TokenStream} {lexer : Lexer} (h : stream.Runs lexer) (count : Nat) :
    stream.nth count = ((TokenList.ofLexer lexer).all[count]?).getD
      ⟨[], .eof, lexer.offset + lexer.rest.size, [], []⟩ := by
  induction count generalizing stream lexer with
  | zero =>
      rw [TokenList.all_ofLexer]
      exact h.current
  | succ count ih =>
      have hreaches := lexer.next_reaches
      have hend : lexer.next.next.offset + lexer.next.next.rest.size =
          lexer.offset + lexer.rest.size := by
        rw [hreaches.offset, hreaches.rest, Text.size_append, Nat.add_assoc]
      rw [nth, ih h.next, TokenList.all_ofLexer lexer, List.getElem?_cons_succ, hend]
      by_cases heof : lexer.next.token.kind = .eof
      · rw [if_pos heof, TokenList.all_ofLexer lexer.next.next, (Lexer.next_of_eof heof).2.2]
        cases count <;> rfl
      · rw [if_neg heof]

end TokenStream

/-- The tokens of a text and the pieces of each of them are laid out without a gap, and
the stream of the text goes through them and stays at its end. -/
theorem tokenize_layout (text : Text) :
    Span.Tile 0 ((tokenize text).map Token.fullSpan) text.size ∧
      (∀ token ∈ tokenize text,
        Span.Tile token.fullSpan.start token.parts token.fullSpan.stop ∧
          (∀ part ∈ token.parts, part.Cuts text) ∧
          ∀ trivia ∈ token.leading ++ token.trailing, trivia.text ≠ []) ∧
      (∃ tokens eof, tokenize text = tokens ++ [eof] ∧
        eof.kind = .eof ∧ eof.span = Span.empty text.size ∧
        ∀ token ∈ tokens, token.kind ≠ .eof ∧ token.span.start < token.span.stop) ∧
      (∀ token ∈ (tokenize text).tail, token.leading = []) ∧
      (∀ before token after, tokenize text = before ++ token :: after →
        token.Tight (Token.isOpenBehind false before)) ∧
      ∀ count, (TokenStream.ofText text).nth count =
        ((tokenize text)[count]?).getD ⟨[], .eof, text.size, [], []⟩ := by
  obtain ⟨htiles, hjoined⟩ := tokenize_tiles text
  have hsource : text.HasAt 0 (Token.joined (tokenize text)) := ⟨[], [], by simp [hjoined], rfl⟩
  have hparts := Token.parts_of_tileFrom htiles hsource
  refine ⟨?_, ?_, ?_, ?_, ?_, ?_⟩
  · have htile := Token.tile_fullSpan htiles
    rw [hjoined, Nat.zero_add] at htile
    exact htile
  · intro token hmem
    obtain ⟨htile, hcuts⟩ := hparts token hmem
    exact ⟨htile, hcuts, TokenList.trivia_text_ne_nil (Lexer.start text) token hmem⟩
  · have hspan := TokenList.eof_span (Lexer.start text)
    rw [show (Lexer.start text).offset = 0 from rfl, Nat.zero_add] at hspan
    refine ⟨_, _, rfl, TokenList.eof_kind _, hspan, ?_⟩
    intro token hmem
    exact ⟨TokenList.kind_ne_eof _ token hmem,
      Token.start_lt_stop (TokenList.text_ne_nil _ token hmem)⟩
  · exact TokenList.leading_of_mem_tail (Lexer.start text)
  · intro before token after hsplit
    exact TokenList.tight_ofLexer (Lexer.start text) hsplit
  · intro count
    have hruns : (TokenStream.ofText text).Runs (Lexer.start text) := ⟨rfl, rfl⟩
    have hnth := hruns.nth_eq count
    rw [show (Lexer.start text).offset = 0 from rfl, Nat.zero_add] at hnth
    exact hnth

end TdSyntax
