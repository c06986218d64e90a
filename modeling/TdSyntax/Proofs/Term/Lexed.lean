import TdSyntax.Proofs.Literal.Spelled
import TdSyntax.Proofs.Term.Lexemes
import TdSyntax.Proofs.Token.Tiling

/-!
# Printed atoms are lexed back

The lexer finds in printed atoms their tokens, in their order, and has nothing to
report.
-/

namespace TdSyntax

open Text

namespace Quoted

theorem stringPiece_plain {c : Char} {run after : Text} (h : ¬ isSpecial c = true)
    (hplain : ∀ d ∈ run, isPlain d = true) (hafter : after.takeWhile isPlain = []) :
    Lexeme.stringPiece c (run ++ after) = ⟨.stringContent, run.length, none⟩ := by
  have hmember : (fun d : Char => (d ≠ '"' && d ≠ '\\')) = isPlain := by
    funext d
    simp only [isPlain, isSpecial, Bool.not_or, ne_eq, decide_not]
    rfl
  have hrun : runLength isPlain (run ++ after) = run.length := by
    rw [runLength, List.takeWhile_append_of_pos hplain, hafter, List.append_nil]
  simp only [isSpecial, Bool.or_eq_true, beq_iff_eq, not_or] at h
  simp only [Lexeme.stringPiece, if_neg h.1, if_neg h.2, hmember, hrun]

theorem Escapes.stringPiece {c : Char} {sequence : Text} (h : Escapes c sequence)
    (after : Text) : Lexeme.stringPiece '\\' (sequence ++ after) =
      ⟨.escapeSequence, sequence.length, none⟩ := by
  simp [Lexeme.stringPiece, h.extent]

end Quoted

namespace Lexer

/-- The lexer gives some tokens without a report and goes on at a later place. -/
inductive Emits : Lexer → List Word → Lexer → Prop where
  | nil (lexer : Lexer) : Emits lexer [] lexer
  | cons {lexer later : Lexer} {word : Word} {words : List Word}
      (hword : lexer.next.token.word = word) (hkind : word.kind ≠ .eof)
      (hclean : lexer.next.diagnostics = []) (hrest : Emits lexer.next.next words later) :
      Emits lexer (word :: words) later

namespace Emits

variable {lexer middle later : Lexer} {first second : List Word}

theorem append (h : Emits lexer first middle) (h' : Emits middle second later) :
    Emits lexer (first ++ second) later := by
  induction h with
  | nil => exact h'
  | cons hword hkind hclean _ ih => exact .cons hword hkind hclean (ih h')

theorem ofLexer (h : Emits lexer first later) :
    (TokenList.ofLexer lexer).tokens.map Token.word =
        first ++ (TokenList.ofLexer later).tokens.map Token.word ∧
      (TokenList.ofLexer lexer).diagnostics = (TokenList.ofLexer later).diagnostics := by
  induction h with
  | nil => exact ⟨rfl, rfl⟩
  | cons hword hkind hclean _ ih =>
      rename_i lexer later word words _
      have heof : lexer.next.token.kind ≠ .eof := by
        rw [← hword] at hkind
        exact hkind
      rw [TokenList.ofLexer_of_ne_eof heof]
      simp [hword, ih, hclean]

end Emits

theorem ofLexer_of_rest_nil {lexer : Lexer} (hrest : lexer.rest = [])
    (hopen : lexer.openString = none) :
    (TokenList.ofLexer lexer).tokens = [] ∧ (TokenList.ofLexer lexer).diagnostics = [] := by
  have hnext := next_of_rest_nil hrest hopen
  rw [TokenList.ofLexer_of_eof (by rw [hnext]), hnext]
  exact ⟨rfl, rfl⟩

theorem trivia_space {lexer : Lexer} {more : Text} (hopen : lexer.openString = none)
    (hrest : lexer.rest = ' ' :: more) (hmore : Lexeme.trivia? more = none) :
    lexer.trivia.diagnostics = [] ∧ lexer.trivia.next = lexer.advance 1 := by
  have hspace : Lexeme.trivia? lexer.rest = some ⟨.whitespace, 0, none⟩ := by
    rw [hrest, ← Lexeme.runLength_isBlank_of_none hmore]
    rfl
  have hbehind : (lexer.advance 1).rest = more := by simp [advance, hrest]
  have hnext : (lexer.advance 1).triviaRun = ⟨[], [], lexer.advance 1⟩ :=
    triviaRun_of_none (hbehind ▸ hmore)
  have hrun := triviaRun_of_some hspace
  rw [hnext] at hrun
  simp [trivia, hopen, hrun, diagnose]

def behind (lexer : Lexer) (kind : Kind) (count : Nat) : Lexer :=
  { lexer.advance count with openString := lexer.toggle kind }

theorem next_of_lexeme {lexer : Lexer} {first : Char} {rest after : Text} {kind : Kind}
    (hrest : lexer.rest = first :: (rest ++ after)) (htrivia : lexer.trivia = ⟨[], [], lexer⟩)
    (hlexeme : (if lexer.openString.isSome then Lexeme.stringPiece first (rest ++ after)
      else Lexeme.token lexer.previous first (rest ++ after)) = ⟨kind, rest.length, none⟩) :
    lexer.next.token.word = ⟨kind, first :: rest⟩ ∧
      lexer.next.diagnostics = (lexer.behind kind (rest.length + 1)).trivia.diagnostics ∧
      lexer.next.next = (lexer.behind kind (rest.length + 1)).trivia.next := by
  have hbare : lexer.bareToken =
      ⟨kind, first :: rest, [], lexer.behind kind (rest.length + 1)⟩ := by
    simp only [bareToken, hrest, hlexeme]
    simp [behind, diagnose]
  simp [next, htrivia, hbare, Token.word]

/-- The lexer stands outside string literals, before a text and not directly behind an
operand. -/
structure Stands (lexer : Lexer) (text : Text) : Prop where
  rest : lexer.rest = text
  outside : lexer.openString = none
  apart : text ≠ [] → Lexeme.endsOperand lexer.previous = false

structure Parts (after more : Text) : Prop where
  after : (after = [] ∧ more = []) ∨ after = ' ' :: more
  trivia : Lexeme.trivia? more = none

namespace Parts

variable {after more : Text}

theorem isSeparated (h : Parts after more) : after.IsSeparated := by
  rcases h.after with ⟨rfl, -⟩ | rfl
  · exact .inl rfl
  · exact .inr ⟨more, rfl⟩

theorem trivia_stands (h : Parts after more) {lexer : Lexer} (hrest : lexer.rest = after)
    (hopen : lexer.openString = none) :
    lexer.trivia.diagnostics = [] ∧ lexer.trivia.next.Stands more := by
  rcases h.after with ⟨rfl, rfl⟩ | rfl
  · rw [trivia_of_none (by rw [hrest, Lexeme.trivia?_nil])]
    exact ⟨rfl, hrest, hopen, fun hne => absurd rfl hne⟩
  · obtain ⟨hclean, hnext⟩ := trivia_space hopen hrest h.trivia
    refine ⟨hclean, ?_⟩
    rw [hnext]
    refine ⟨by simp [advance, hrest], hopen, fun _ => ?_⟩
    simp only [advance, hrest]
    rfl

end Parts

theorem behind_rest {lexer : Lexer} {first : Char} {rest after : Text} (kind : Kind)
    (hrest : lexer.rest = first :: (rest ++ after)) :
    (lexer.behind kind (rest.length + 1)).rest = after := by
  simp [behind, advance, hrest]

theorem emits_word {lexer : Lexer} {word : Word} {after more : Text} (hparts : Parts after more)
    (hword : word.IsLexed after) (hquote : word.kind ≠ .doubleQuote) (heof : word.kind ≠ .eof)
    (h : lexer.Stands (word.text ++ after)) :
    ∃ later, lexer.Emits [word] later ∧ later.Stands more := by
  obtain ⟨first, rest, htext, htrivia, htoken⟩ := hword
  have hrest := h.rest
  have hapart := h.apart
  rw [htext, List.cons_append] at hrest hapart
  have hlexeme : (if lexer.openString.isSome then Lexeme.stringPiece first (rest ++ after)
      else Lexeme.token lexer.previous first (rest ++ after)) =
        ⟨word.kind, rest.length, none⟩ := by
    rw [h.outside]
    exact htoken _ (hapart (by simp))
  obtain ⟨hnext, hclean, hlater⟩ :=
    next_of_lexeme hrest (trivia_of_none (by rw [hrest]; exact htrivia)) hlexeme
  have hopen : (lexer.behind word.kind (rest.length + 1)).openString = none := by
    simp [behind, toggle, hquote, h.outside]
  obtain ⟨hquiet, hstands⟩ := hparts.trivia_stands (behind_rest _ hrest) hopen
  refine ⟨lexer.next.next, .cons ?_ heof (hclean.trans hquiet) (.nil _), ?_⟩
  · rw [hnext, ← htext]
  · rw [hlater]
    exact hstands

theorem emits_piece {lexer : Lexer} {first : Char} {rest after : Text} {kind : Kind}
    (hrest : lexer.rest = first :: (rest ++ after)) (hopen : lexer.openString.isSome = true)
    (hpiece : Lexeme.stringPiece first (rest ++ after) = ⟨kind, rest.length, none⟩)
    (hquote : kind ≠ .doubleQuote) (heof : kind ≠ .eof) :
    ∃ later, lexer.Emits [⟨kind, first :: rest⟩] later ∧ later.rest = after ∧
      later.openString.isSome = true := by
  obtain ⟨hnext, hclean, hlater⟩ := next_of_lexeme hrest (trivia_of_open hopen)
    (by rw [hopen]; exact hpiece)
  have hstill : (lexer.behind kind (rest.length + 1)).openString.isSome = true := by
    simpa [behind, toggle, hquote] using hopen
  rw [trivia_of_open hstill] at hclean hlater
  refine ⟨lexer.next.next, .cons hnext heof hclean (.nil _), ?_, ?_⟩
  · rw [hlater]
    exact behind_rest kind hrest
  · rw [hlater]
    exact hstill

def GivesPieces (body : Text) (words : List Word) (after : Text) : Prop :=
  ∀ {lexer : Lexer}, lexer.rest = body ++ '"' :: after → lexer.openString.isSome = true →
    ∃ later, lexer.Emits words later ∧ later.rest = '"' :: after ∧
      later.openString.isSome = true

theorem givesPieces (spelled : List Spelled) (after : Text) :
    GivesPieces (Spelled.written spelled) (Spelled.pieces spelled) after := by
  intro lexer hrest hopen
  fun_induction Spelled.pieces spelled generalizing lexer with
  | case1 => exact ⟨lexer, .nil _, hrest, hopen⟩
  | case2 first rest hplain ih =>
      rw [Spelled.written_cons_plain hplain, List.cons_append, List.append_assoc] at hrest
      have hrun : ∀ c ∈ Spelled.content (rest.takeWhile Spelled.isPlain),
          Quoted.isPlain c = true := List.forall_mem_map.2 fun one hmem =>
        (Spelled.eq_of_isPlain (List.mem_takeWhile_imp hmem)).2
      have hspecial : ¬ Quoted.isSpecial first.char = true := by
        simpa [Quoted.isPlain] using (Spelled.eq_of_isPlain hplain).2
      obtain ⟨later, hemits, hlater, hstill⟩ := emits_piece hrest hopen
        (Quoted.stringPiece_plain hspecial hrun (Spelled.takeWhile_written rest after))
        (by decide) (by decide)
      obtain ⟨last, hlast, hend⟩ := ih hlater hstill
      exact ⟨last, hemits.append hlast, hend⟩
  | case3 first rest hplain ih =>
      obtain ⟨sequence, htext, hescapes⟩ := Spelled.escapes_of_not_isPlain hplain
      rw [Spelled.written, List.flatMap_cons, htext, List.append_assoc, List.cons_append] at hrest
      obtain ⟨later, hemits, hlater, hstill⟩ :=
        emits_piece hrest hopen (hescapes.stringPiece _) (by decide) (by decide)
      obtain ⟨last, hlast, hend⟩ := ih hlater hstill
      exact ⟨last, htext ▸ hemits.append hlast, hend⟩

theorem emits_literal {lexer : Lexer} {body after more : Text} {words : List Word}
    (hbody : GivesPieces body words after) (hparts : Parts after more)
    (h : lexer.Stands ('"' :: (body ++ '"' :: after))) :
    ∃ later, lexer.Emits (Quoted.quote :: (words ++ [Quoted.quote])) later ∧
      later.Stands more := by
  have hrest : lexer.rest = '"' :: ([] ++ (body ++ '"' :: after)) := h.rest
  obtain ⟨first, rest, htext, htrivia, htoken⟩ := Atom.quote_isLexed (body ++ '"' :: after)
  obtain ⟨rfl, rfl⟩ := List.cons.inj htext
  have hapart := h.apart (by simp)
  obtain ⟨hnext, hclean, hlater⟩ := @next_of_lexeme lexer '"' [] _ .doubleQuote hrest
    (trivia_of_none (by rw [hrest]; exact htrivia))
    (by rw [h.outside]; exact htoken _ hapart)
  have hopen : (lexer.behind .doubleQuote 1).openString.isSome = true := by
    simp [behind, toggle, h.outside]
  rw [List.length_nil, Nat.zero_add, trivia_of_open hopen] at hclean hlater
  obtain ⟨middle, hpieces, hmiddle, hstill⟩ :=
    hbody (@behind_rest _ _ [] _ .doubleQuote hrest) hopen
  have hfirst : lexer.Emits [Quoted.quote] (lexer.behind .doubleQuote 1) := by
    have hstep : lexer.Emits [Quoted.quote] lexer.next.next :=
      .cons hnext (by decide) hclean (.nil _)
    rwa [hlater] at hstep
  obtain ⟨hquote, hquiet, hlast⟩ := @next_of_lexeme middle '"' [] after .doubleQuote hmiddle
    (trivia_of_open hstill) (by rw [hstill]; rfl)
  have hclosed : (middle.behind .doubleQuote 1).openString = none := by
    simp [behind, toggle, hstill]
  obtain ⟨hsilent, hstands⟩ :=
    hparts.trivia_stands (@behind_rest _ _ [] _ .doubleQuote hmiddle) hclosed
  have hend : middle.Emits [Quoted.quote] middle.next.next :=
    .cons hquote (by decide) (hquiet.trans hsilent) (.nil _)
  refine ⟨middle.next.next, hfirst.append (hpieces.append hend), ?_⟩
  rw [hlast]
  exact hstands

theorem emits_quoted {lexer : Lexer} {content after more : Text} (hparts : Parts after more)
    (h : lexer.Stands ((Atom.quoted content).text ++ after)) :
    ∃ later, lexer.Emits (Atom.quoted content).words later ∧ later.Stands more := by
  have hpieces : GivesPieces (Quoted.escape content) (Quoted.pieces content) after := by
    rw [← Spelled.written_printed, ← Spelled.pieces_printed]
    exact givesPieces _ after
  refine emits_literal hpieces hparts ?_
  simpa [Atom.text] using h

theorem emits_atom {lexer : Lexer} {after more : Text} (hparts : Parts after more) (atom : Atom)
    (h : lexer.Stands (atom.text ++ after)) :
    ∃ later, lexer.Emits atom.words later ∧ later.Stands more := by
  have hword := atom.word_isLexed hparts.isSeparated
  cases atom with
  | quoted content => exact emits_quoted hparts h
  | mark kind hkind =>
      have hkinds : kind ≠ .doubleQuote ∧ kind ≠ .eof := by
        constructor <;> rintro rfl <;> exact absurd hkind (by decide)
      exact emits_word hparts hword hkinds.1 hkinds.2 h
  | _ => exact emits_word hparts hword (by simp [Atom.word]) (by simp [Atom.word]) h

end Lexer

namespace Atom

theorem spaced_cons (atom : Atom) (rest : List Atom) :
    spaced (atom :: rest) = atom.text ++ (if rest = [] then [] else ' ' :: spaced rest) := by
  cases rest with
  | nil => simp [spaced, List.intercalate]
  | cons next rest => simp [spaced, List.intercalate]

theorem isSeparated_spaced (rest : List Atom) :
    IsSeparated (if rest = [] then [] else ' ' :: spaced rest) := by
  split
  · exact .inl rfl
  · exact .inr ⟨_, rfl⟩

theorem trivia?_text (atom : Atom) {after : Text} (h : after.IsSeparated) :
    Lexeme.trivia? (atom.text ++ after) = none := by
  obtain ⟨first, tail, htext, htrivia, -⟩ := atom.word_isLexed h
  cases atom with
  | quoted content =>
      obtain ⟨first, tail, htext, htrivia, -⟩ :=
        quote_isLexed (Quoted.escape content ++ ['"'] ++ after)
      obtain ⟨rfl, rfl⟩ := List.cons.inj htext
      exact htrivia
  | _ =>
      simp only [text, htext]
      exact htrivia

theorem trivia?_spaced (atoms : List Atom) : Lexeme.trivia? (spaced atoms) = none := by
  cases atoms with
  | nil => rfl
  | cons atom rest =>
      rw [spaced_cons]
      exact atom.trivia?_text (isSeparated_spaced rest)

theorem parts_spaced (rest : List Atom) :
    Lexer.Parts (if rest = [] then [] else ' ' :: spaced rest) (spaced rest) := by
  refine ⟨?_, trivia?_spaced rest⟩
  split
  · rename_i hnil
    exact .inl ⟨rfl, by rw [hnil]; rfl⟩
  · exact .inr rfl

theorem emits_spaced (atoms : List Atom) {lexer : Lexer} (h : lexer.Stands (spaced atoms)) :
    ∃ later, lexer.Emits (wordsAll atoms) later ∧ later.rest = [] ∧
      later.openString = none := by
  induction atoms generalizing lexer with
  | nil => exact ⟨lexer, .nil _, h.rest, h.outside⟩
  | cons atom rest ih =>
      rw [spaced_cons] at h
      obtain ⟨middle, hatom, hmiddle⟩ := Lexer.emits_atom (parts_spaced rest) atom h
      obtain ⟨later, hrest, hlater⟩ := ih hmiddle
      exact ⟨later, hatom.append hrest, hlater⟩

theorem emits_before (atoms : List Atom) {more : Text} (hmore : Lexeme.trivia? more = none)
    {lexer : Lexer} (h : lexer.Stands (atoms.flatMap (fun atom => atom.text ++ [' ']) ++ more)) :
    ∃ later, lexer.Emits (wordsAll atoms) later ∧ later.Stands more := by
  induction atoms generalizing lexer with
  | nil => exact ⟨lexer, .nil _, h⟩
  | cons atom rest ih =>
      rw [List.flatMap_cons, List.append_assoc, List.append_assoc] at h
      have hrest :
          Lexeme.trivia? (rest.flatMap (fun atom => atom.text ++ [' ']) ++ more) = none := by
        cases rest with
        | nil => exact hmore
        | cons next rest =>
            rw [List.flatMap_cons, List.append_assoc, List.append_assoc]
            exact next.trivia?_text (.inr ⟨_, rfl⟩)
      obtain ⟨middle, hatom, hmiddle⟩ := Lexer.emits_atom ⟨.inr rfl, hrest⟩ atom h
      obtain ⟨later, hbehind, hlater⟩ := ih hmiddle
      exact ⟨later, hatom.append hbehind, hlater⟩

end Atom

end TdSyntax
