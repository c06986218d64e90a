import TdSyntax.Proofs.Token.Joined
import TdSyntax.Proofs.Token.Unknown

/-!
# The pieces of a text

The lexer takes one lexeme after the other, and each makes a piece of the text: trivia, a
token, or a piece of an open string literal.  A path tells which lexemes it has taken on
its way, and what it has reported of each.  The pieces of the tokens of a text are those
of one path through the whole text, and the empty end of the file.
-/

namespace TdSyntax

inductive PieceKind where
  | trivia (kind : TriviaKind)
  | token (kind : Kind)
  deriving DecidableEq, Repr

/-- A part of the text that the lexer takes at once. -/
structure Piece where
  kind : PieceKind
  start : Nat
  text : Text
  deriving DecidableEq, Repr

def Piece.span (piece : Piece) : Span := ⟨piece.start, piece.start + piece.text.size⟩

def Piece.eof (offset : Nat) : Piece := ⟨.token .eof, offset, []⟩

def TriviaText.pieces : Nat → List TriviaText → List Piece
  | _, [] => []
  | offset, first :: rest =>
      ⟨.trivia first.kind, offset, first.text⟩ :: pieces (offset + first.text.size) rest

namespace Token

def piece (token : Token) : Piece := ⟨.token token.kind, token.start, token.text⟩

def pieces (token : Token) : List Piece :=
  TriviaText.pieces token.fullSpan.start token.leading ++
    token.piece :: TriviaText.pieces token.stop token.trailing

theorem piece_mem_pieces (token : Token) : token.piece ∈ token.pieces := by
  simp [pieces]

end Token

namespace Lexer

def pieceOf (lexer : Lexer) (kind : PieceKind) (tail : Nat) : Piece :=
  ⟨kind, lexer.offset, lexer.rest.take (tail + 1)⟩

def behindLexeme (lexer : Lexer) (lexeme : Lexeme Kind) : Lexer :=
  { lexer.advance (lexeme.tail + 1) with openString := lexer.toggle lexeme.kind }

theorem behindLexeme_reaches (lexer : Lexer) (lexeme : Lexeme Kind) :
    lexer.Reaches (lexer.behindLexeme lexeme) (lexer.rest.take (lexeme.tail + 1)) :=
  ⟨(advance_reaches lexer _).rest, (advance_reaches lexer _).offset⟩

/-- A lexer takes one lexeme, of which a problem may be reported. -/
inductive Takes (lexer : Lexer) : Piece → Option Problem → Lexer → Prop
  | trivia {lexeme : Lexeme TriviaKind} (hopen : lexer.openString = none)
      (hlexeme : Lexeme.trivia? lexer.rest = some lexeme) :
      Takes lexer (lexer.pieceOf (.trivia lexeme.kind) lexeme.tail) lexeme.problem
        (lexer.advance (lexeme.tail + 1))
  | token {first : Char} {rest : Text} {lexeme : Lexeme Kind} (hopen : lexer.openString = none)
      (htrivia : Lexeme.trivia? lexer.rest = none) (hrest : lexer.rest = first :: rest)
      (hlexeme : Lexeme.token lexer.previous first rest = lexeme) :
      Takes lexer (lexer.pieceOf (.token lexeme.kind) lexeme.tail) lexeme.problem
        (lexer.behindLexeme lexeme)
  | quoted {first : Char} {rest : Text} {lexeme : Lexeme Kind}
      (hopen : lexer.openString.isSome = true) (hrest : lexer.rest = first :: rest)
      (hlexeme : Lexeme.stringPiece first rest = lexeme) :
      Takes lexer (lexer.pieceOf (.token lexeme.kind) lexeme.tail) lexeme.problem
        (lexer.behindLexeme lexeme)

/-- A lexer takes some pieces one after the other, with all that is reported of them. -/
inductive Path : Lexer → List Piece → List Diagnostic → Lexer → Prop
  | nil (lexer : Lexer) : Path lexer [] [] lexer
  | cons {lexer middle last : Lexer} {piece : Piece} {problem : Option Problem}
      {pieces : List Piece} {reports : List Diagnostic} (h : lexer.Takes piece problem middle)
      (hrest : middle.Path pieces reports last) :
      Path lexer (piece :: pieces) (lexer.diagnose middle problem ++ reports) last

section

variable {lexer middle last : Lexer} {piece : Piece} {problem : Option Problem}
  {pieces : List Piece} {reports : List Diagnostic}

theorem Takes.start (h : lexer.Takes piece problem last) : piece.start = lexer.offset := by
  cases h <;> rfl

theorem Takes.reaches (h : lexer.Takes piece problem last) : lexer.Reaches last piece.text := by
  cases h with
  | trivia => exact advance_reaches lexer _
  | token => exact behindLexeme_reaches lexer _
  | quoted => exact behindLexeme_reaches lexer _

theorem Takes.text_ne_nil (h : lexer.Takes piece problem last) : piece.text ≠ [] := by
  have hrest : lexer.rest ≠ [] := by
    cases h with
    | trivia hopen hlexeme =>
        intro hnil
        rw [hnil, Lexeme.trivia?_nil] at hlexeme
        cases hlexeme
    | token hopen htrivia hrest => simp [hrest]
    | quoted hopen hrest => simp [hrest]
  cases h <;> simp [pieceOf, hrest]

theorem Takes.offset_lt (h : lexer.Takes piece problem last) : lexer.offset < last.offset := by
  have hpos : 0 < piece.text.size := by
    cases htext : piece.text with
    | nil => exact absurd htext h.text_ne_nil
    | cons first rest =>
        have := first.utf8Size_pos
        simp only [Text.size_cons]
        omega
  rw [h.reaches.offset]
  omega

theorem Takes.spanTo (h : lexer.Takes piece problem last) : lexer.spanTo last = piece.span := by
  rw [Lexer.spanTo, Piece.span, h.start, h.reaches.offset]

theorem Path.single (h : lexer.Takes piece problem last) :
    lexer.Path [piece] (lexer.diagnose last problem) last := by
  have hpath := Path.cons h (.nil last)
  rwa [List.append_nil] at hpath

theorem Path.append (h : lexer.Path pieces reports middle) {more : List Piece}
    {reports' : List Diagnostic} (h' : middle.Path more reports' last) :
    lexer.Path (pieces ++ more) (reports ++ reports') last := by
  induction h with
  | nil => exact h'
  | cons hfirst hrest ih =>
      rw [List.append_assoc]
      exact .cons hfirst (ih h')

theorem Path.split {front back : List Piece}
    (h : lexer.Path (front ++ piece :: back) reports last) :
    ∃ one two problem before after, lexer.Path front before one ∧ one.Takes piece problem two ∧
      two.Path back after last ∧ reports = before ++ one.diagnose two problem ++ after := by
  induction front generalizing lexer reports with
  | nil =>
      cases h with
      | cons hfirst hrest => exact ⟨_, _, _, [], _, .nil lexer, hfirst, hrest, rfl⟩
  | cons first front ih =>
      cases h with
      | cons hfirst hrest =>
          obtain ⟨one, two, problem, before, after, hfront, htakes, hback, rfl⟩ := ih hrest
          exact ⟨one, two, problem, _, after, .cons hfirst hfront, htakes, hback, by simp⟩

theorem Path.reaches (h : lexer.Path pieces reports last) :
    lexer.Reaches last (pieces.flatMap Piece.text) := by
  induction h with
  | nil lexer => exact .refl lexer
  | cons hfirst hrest ih => exact hfirst.reaches.trans ih

theorem Path.reported (h : lexer.Path pieces reports last) :
    ∀ report ∈ reports, lexer.Reported last report := by
  induction h with
  | nil => nofun
  | cons hfirst hrest ih =>
      intro report hmem
      rcases List.mem_append.1 hmem with hmem | hmem
      · exact (diagnose_reported hfirst.offset_lt _ report hmem).widen (Nat.le_refl _)
          hrest.reaches.offset_le
      · exact (ih report hmem).widen (Nat.le_of_lt hfirst.offset_lt) (Nat.le_refl _)

theorem Path.le_start (h : lexer.Path pieces reports last) :
    ∀ piece ∈ pieces ++ [Piece.eof last.offset], lexer.offset ≤ piece.start := by
  induction h with
  | nil lexer => simp [Piece.eof]
  | cons hfirst hrest ih =>
      refine List.forall_mem_cons.2 ⟨Nat.le_of_eq hfirst.start.symm, fun piece hmem => ?_⟩
      exact Nat.le_trans (Nat.le_of_lt hfirst.offset_lt) (ih piece hmem)

theorem Path.sorted (h : lexer.Path pieces reports last) :
    (pieces ++ [Piece.eof last.offset]).Pairwise
      (fun one two : Piece => one.start < two.start) := by
  induction h with
  | nil => exact List.pairwise_singleton _ _
  | cons hfirst hrest ih =>
      refine List.pairwise_cons.2 ⟨fun piece hmem => ?_, ih⟩
      rw [hfirst.start]
      exact Nat.lt_of_lt_of_le hfirst.offset_lt (hrest.le_start piece hmem)

theorem Takes.floor_le (h : lexer.Takes piece problem last) : lexer.floor ≤ last.floor := by
  have hle := Nat.le_of_lt h.offset_lt
  cases h with
  | trivia => exact floor_le_of_offset_le rfl hle
  | token => exact floor_le_of_toggle rfl hle
  | quoted => exact floor_le_of_toggle rfl hle

theorem Path.floor_le (h : lexer.Path pieces reports last) : lexer.floor ≤ last.floor := by
  induction h with
  | nil => exact Nat.le_refl _
  | cons hfirst hrest ih => exact Nat.le_trans hfirst.floor_le ih

end

def leftOpen (lexer : Lexer) : List Diagnostic :=
  lexer.openString.toList.map fun start => ⟨.unterminatedString, ⟨start, lexer.offset⟩⟩

theorem floor_le_leftOpen (lexer : Lexer) :
    ∀ report ∈ lexer.leftOpen, lexer.floor ≤ report.span.start := by
  intro report hmem
  obtain ⟨start, hopen, rfl⟩ := List.mem_map.1 hmem
  rw [floor, Option.mem_toList.1 hopen]
  exact Nat.min_le_left _ _

/-- Of all that is reported only the problem of a lexeme has the range of its piece: the
reports in front of it start earlier, and those behind it later. -/
theorem Path.filter_span {lexer one two last : Lexer} {front back : List Piece} {piece : Piece}
    {before after : List Diagnostic} {problem : Option Problem}
    (hfront : lexer.Path front before one) (htakes : one.Takes piece problem two)
    (hback : two.Path back after last) (hfloor : piece.start < two.floor) :
    (before ++ one.diagnose two problem ++ after ++ last.leftOpen).filter
        (fun report => report.span == piece.span) =
      problem.toList.map fun problem => ⟨problem, piece.span⟩ := by
  have hown : one.diagnose two problem =
      problem.toList.map fun problem => ⟨problem, piece.span⟩ := by
    rw [diagnose, htakes.spanTo]
  have hbefore := Diagnostic.filter_span_eq_nil piece.span fun report hmem =>
    Nat.ne_of_lt (Nat.lt_of_lt_of_eq (hfront.reported report hmem).lt_offset htakes.start.symm)
  have hafter := Diagnostic.filter_span_eq_nil piece.span fun report hmem =>
    Nat.ne_of_gt (Nat.lt_of_lt_of_le (Nat.lt_of_lt_of_le hfloor two.floor_le)
      (hback.reported report hmem).offset_le)
  have hopen := Diagnostic.filter_span_eq_nil piece.span fun report hmem =>
    Nat.ne_of_gt (Nat.lt_of_lt_of_le hfloor
      (Nat.le_trans hback.floor_le (last.floor_le_leftOpen report hmem)))
  rw [hown]
  simp only [List.filter_append, hbefore, hafter, hopen, List.nil_append, List.append_nil]
  refine List.filter_eq_self.2 fun report hmem => ?_
  obtain ⟨problem, -, rfl⟩ := List.mem_map.1 hmem
  exact beq_self_eq_true _

theorem triviaRun_path {lexer : Lexer} (hopen : lexer.openString = none) :
    lexer.Path (TriviaText.pieces lexer.offset lexer.triviaRun.trivia)
      lexer.triviaRun.diagnostics lexer.triviaRun.next := by
  fun_induction triviaRun lexer with
  | case1 lexer => exact .nil lexer
  | case2 lexer lexeme hlexeme next run ih => exact .cons (.trivia hopen hlexeme) (ih hopen)

theorem trivia_path (lexer : Lexer) :
    lexer.Path (TriviaText.pieces lexer.offset lexer.trivia.trivia) lexer.trivia.diagnostics
      lexer.trivia.next := by
  cases hopen : lexer.openString with
  | some start =>
      rw [trivia_of_open (by simp [hopen])]
      exact .nil lexer
  | none =>
      have hrun : lexer.trivia = lexer.triviaRun := by simp [trivia, hopen]
      rw [hrun]
      exact triviaRun_path hopen

theorem bareToken_takes {lexer : Lexer} (hsettled : lexer.trivia = ⟨[], [], lexer⟩)
    (hrest : lexer.rest ≠ []) :
    ∃ problem, lexer.bareToken.diagnostics = lexer.diagnose lexer.bareToken.next problem ∧
      lexer.Takes ⟨.token lexer.bareToken.kind, lexer.offset, lexer.bareToken.text⟩ problem
        lexer.bareToken.next := by
  obtain ⟨first, rest, htext⟩ := List.exists_cons_of_ne_nil hrest
  rw [bareToken_of_rest htext]
  refine ⟨(lexer.lexeme first rest).problem, rfl, ?_⟩
  have hpiece : lexer.pieceOf (.token (lexer.lexeme first rest).kind)
      (lexer.lexeme first rest).tail =
        ⟨.token (lexer.lexeme first rest).kind, lexer.offset,
          first :: rest.take (lexer.lexeme first rest).tail⟩ := by
    simp [pieceOf, htext]
  rw [← hpiece]
  cases hopen : lexer.openString with
  | some start =>
      have hsome : lexer.openString.isSome = true := by simp [hopen]
      exact .quoted hsome htext (by rw [lexeme, if_pos hsome])
  | none =>
      have htrivia : Lexeme.trivia? lexer.rest = none := by
        have hrun : lexer.trivia = lexer.triviaRun := by simp [trivia, hopen]
        have hnext := congrArg TriviaRun.next (hrun.symm.trans hsettled)
        have hnone := trivia?_triviaRun lexer
        rwa [hnext] at hnone
      exact .token hopen htrivia htext (by simp [lexeme, hopen])

theorem next_pieces (lexer : Lexer) :
    lexer.next.token.pieces =
      TriviaText.pieces lexer.offset lexer.trivia.trivia ++ lexer.next.token.piece ::
        TriviaText.pieces lexer.trivia.next.bareToken.next.offset
          lexer.trivia.next.bareToken.next.trivia.trivia := by
  have hstop : lexer.next.token.stop = lexer.trivia.next.bareToken.next.offset :=
    (bareToken_reaches lexer.trivia.next).offset.symm
  rw [Token.pieces, Token.fullSpan_eq lexer.next_start, hstop]
  rfl

theorem next_path (lexer : Lexer) (h : lexer.next.token.kind ≠ .eof) :
    lexer.Path lexer.next.token.pieces lexer.next.diagnostics lexer.next.next := by
  have hrest : lexer.trivia.next.rest ≠ [] := mt (bareToken_kind_eq_eof_iff _).2 h
  obtain ⟨problem, hreports, htakes⟩ := bareToken_takes lexer.trivia_trivia hrest
  have hbare := Path.single htakes
  rw [← hreports] at hbare
  have hpath := (lexer.trivia_path.append hbare).append (trivia_path _)
  rw [List.append_assoc] at hpath
  rw [next_pieces]
  exact hpath

theorem next_path_of_eof (lexer : Lexer) (h : lexer.next.token.kind = .eof) :
    lexer.Path (TriviaText.pieces lexer.offset lexer.trivia.trivia) lexer.trivia.diagnostics
        lexer.trivia.next ∧
      lexer.trivia.next.rest = [] ∧
      lexer.next.token.pieces = TriviaText.pieces lexer.offset lexer.trivia.trivia ++
        [.eof lexer.trivia.next.offset] ∧
      lexer.next.diagnostics = lexer.trivia.diagnostics ++ lexer.trivia.next.leftOpen := by
  have hrest := (bareToken_kind_eq_eof_iff lexer.trivia.next).1 h
  have hbare : lexer.trivia.next.bareToken = ⟨.eof, [], lexer.trivia.next.leftOpen,
      { lexer.trivia.next with openString := none }⟩ := by
    simp only [bareToken, hrest]
    rfl
  have htrailing : lexer.trivia.next.bareToken.next.trivia =
      ⟨[], [], lexer.trivia.next.bareToken.next⟩ := by
    refine trivia_of_none ?_
    rw [hbare, hrest, Lexeme.trivia?_nil]
  refine ⟨lexer.trivia_path, hrest, ?_, ?_⟩
  · rw [next_pieces, htrailing]
    simp only [Token.piece, next, hbare, TriviaText.pieces]
    rfl
  · have hreports : lexer.next.diagnostics = lexer.trivia.diagnostics ++
        lexer.trivia.next.bareToken.diagnostics ++
          lexer.trivia.next.bareToken.next.trivia.diagnostics := rfl
    rw [hreports, htrailing, hbare, List.append_nil]

end Lexer

namespace TokenList

/-- The pieces of the tokens from a lexer on are those of a path to the end of the text. -/
theorem ofLexer_path (lexer : Lexer) :
    ∃ pieces reports last, lexer.Path pieces reports last ∧ last.rest = [] ∧
      (ofLexer lexer).all.flatMap Token.pieces = pieces ++ [.eof last.offset] ∧
      (ofLexer lexer).diagnostics = reports ++ last.leftOpen := by
  fun_induction ofLexer lexer with
  | case1 lexer step heof =>
      obtain ⟨hpath, hrest, hpieces, hreports⟩ := lexer.next_path_of_eof heof
      exact ⟨_, _, _, hpath, hrest, by simpa [all] using hpieces, hreports⟩
  | case2 lexer step heof list ih =>
      obtain ⟨pieces, reports, last, hpath, hrest, hpieces, hreports⟩ := ih
      refine ⟨_, _, last, (lexer.next_path heof).append hpath, hrest, ?_, ?_⟩
      · rw [List.append_assoc, ← hpieces]
        rfl
      · rw [List.append_assoc, ← hreports]

/-- A piece of a token is the end of the file, or the lexer takes it where it stands in
the text.  Of all that the lexer reports, only the problem of that lexeme has the range of
the piece, unless this is the quote of a string literal. -/
theorem taken_of_mem {text : Text} {token : Token} {piece : Piece} (htoken : token ∈ tokenize text)
    (hpiece : piece ∈ token.pieces) :
    piece = .eof text.size ∨
      ∃ (lexer next : Lexer) (problem : Option Problem) (front : Text),
        lexer.Takes piece problem next ∧ text = front ++ piece.text ++ next.rest ∧
          piece.start = front.size ∧
          (piece.start < next.floor →
            (ofText text).diagnostics.filter (fun report => report.span == piece.span) =
              problem.toList.map fun problem => ⟨problem, piece.span⟩) := by
  obtain ⟨pieces, reports, last, hpath, hrest, hpieces, hreports⟩ :=
    ofLexer_path (Lexer.start text)
  have hmem : piece ∈ (tokenize text).flatMap Token.pieces := List.mem_flatMap_of_mem htoken hpiece
  have hall : (tokenize text).flatMap Token.pieces = pieces ++ [.eof last.offset] := hpieces
  rw [hall] at hmem
  have hreaches := hpath.reaches
  rcases List.mem_append.1 hmem with hmem | hmem
  · obtain ⟨front, back, rfl⟩ := List.append_of_mem hmem
    obtain ⟨one, two, problem, before, after, hfront, htakes, hback, rfl⟩ := hpath.split
    have htext : text = front.flatMap Piece.text ++ one.rest := hfront.reaches.rest
    have hstart : one.offset = 0 + Text.size (front.flatMap Piece.text) := hfront.reaches.offset
    refine .inr ⟨one, two, problem, front.flatMap Piece.text, htakes, ?_, ?_, fun hfloor => ?_⟩
    · rw [List.append_assoc, ← htakes.reaches.rest]
      exact htext
    · rw [htakes.start, hstart, Nat.zero_add]
    · exact (congrArg _ hreports).trans (hfront.filter_span htakes hback hfloor)
  · left
    have htext : text = pieces.flatMap Piece.text ++ last.rest := hreaches.rest
    have hstop : last.offset = 0 + Text.size (pieces.flatMap Piece.text) := hreaches.offset
    rw [List.mem_singleton.1 hmem, hstop, Nat.zero_add]
    rw [hrest, List.append_nil] at htext
    rw [← htext]

end TokenList

end TdSyntax
