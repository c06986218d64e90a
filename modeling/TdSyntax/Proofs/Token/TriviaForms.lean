import Mathlib.Order.Interval.Set.Basic
import TdSyntax.Proofs.Token.Forms

/-!
# The forms of trivia

What the kind of a piece of trivia says of its text: blank runs, comments and directives
go as far as they can.  What is reported of a piece is told together with its form.  No
token outside of string literals stands where trivia could start.
-/

namespace TdSyntax

namespace Text

/-- A character with the Unicode property `White_Space`. -/
def IsWhite (c : Char) : Prop :=
  c.toNat ∈ Set.Icc 0x0009 0x000D ∪ {0x0020, 0x0085, 0x00A0, 0x1680} ∪ Set.Icc 0x2000 0x200A ∪
    ({0x2028, 0x2029, 0x202F, 0x205F, 0x3000} : Set Nat)

theorem isBlank_iff {c : Char} : isBlank c = true ↔ IsWhite c := by
  simp only [isBlank, blankRanges, List.any_cons, List.any_nil, Bool.or_false, Bool.or_eq_true,
    Bool.and_eq_true, decide_eq_true_eq, IsWhite, Set.mem_union, Set.mem_Icc, Set.mem_insert_iff,
    Set.mem_singleton_iff]
  omega

theorem all_isBlank_iff {text : Text} : text.all isBlank = true ↔ ∀ c ∈ text, IsWhite c := by
  simp only [List.all_eq_true, isBlank_iff]

theorem head?_isBlank_iff {text : Text} :
    text.head?.any isBlank = true ↔ ∃ c ∈ text.head?, IsWhite c := by
  simp only [Option.any_eq_true, Option.mem_def, isBlank_iff]

end Text

open Text

/-- How a directive is spelled, with the text behind it and the problems of it: as its word
only, or together with blanks and the name of a macro. -/
inductive Directive.Spells (directive : Directive) (behind : Text) : Text → List Problem → Prop
  | bare (htakes : directive.takesName = false) (hbehind : behind.continuesWord = false) :
      Spells directive behind directive.word []
  | named {blanks name : Text} (htakes : directive.takesName = true) (hblanks : blanks ≠ [])
      (hblank : ∀ c ∈ blanks, IsWhite c) (hstart : name.head?.any isWordStart = true)
      (hword : name.all isWordPart = true) (hbehind : behind.continuesWord = false) :
      Spells directive behind (directive.word ++ blanks ++ name) []
  | nameless (htakes : directive.takesName = true) (hbehind : behind.continuesWord = false)
      (hmissing : ∀ blanks more, behind = blanks ++ more → blanks ≠ [] →
        (∀ c ∈ blanks, IsWhite c) → more.head?.any isWordStart = false) :
      Spells directive behind directive.word [.missingMacroName directive]

/-- What the kind of a piece of trivia says of its text, of what stands behind it and of
the problems of it. -/
def TriviaKind.Spells (text behind : Text) (problems : List Problem) : TriviaKind → Prop
  | .whitespace =>
      problems = [] ∧ text ≠ [] ∧ (∀ c ∈ text, IsWhite c) ∧ ¬ ∃ c ∈ behind.head?, IsWhite c
  | .lineComment =>
      problems = [] ∧ ∃ body, text = '/' :: '/' :: body ∧ '\n' ∉ body ∧ behind.StopsAt '\n'
  | .blockComment =>
      ∃ body, text = '/' :: '*' :: body ∧ EndsAtFirst '*' '/' body behind ∧
        problems = if ['*', '/'] <:+: body then [] else [.unterminatedComment]
  | .directive => ∃ directive : Directive, directive.Spells behind text problems

namespace Directive

variable {text : Text} {directive : Directive}

theorem mem_all (directive : Directive) : directive ∈ all := by
  cases directive <;> decide

theorem atStart?_eq_some (h : atStart? text = some directive) :
    ∃ rest, text = directive.word ++ rest ∧ rest.continuesWord = false := by
  have hfound := List.find?_some h
  obtain ⟨rest, rfl⟩ := word_prefix h
  have hdrop : dropWord? directive.word (directive.word ++ rest) = some rest :=
    dropWord?_eq_some_iff.2 rfl
  exact ⟨rest, rfl, by simpa [hdrop] using hfound⟩

theorem nameLength?_eq_some {count : Nat} (h : nameLength? text = some count) :
    ∃ blanks name behind, text = blanks ++ name ++ behind ∧
      count = (blanks ++ name).length ∧ blanks ≠ [] ∧ blanks.all isBlank = true ∧
      name.head?.any isWordStart = true ∧ name.all isWordPart = true ∧
      behind.continuesWord = false := by
  simp only [nameLength?, drop_runLength] at h
  split at h
  case isFalse => cases h
  case isTrue hpresent =>
    simp only [Bool.and_eq_true, decide_eq_true_eq] at hpresent
    obtain ⟨hpos, hstart⟩ := hpresent
    refine ⟨text.takeWhile isBlank, (text.dropWhile isBlank).takeWhile isWordPart,
      (text.dropWhile isBlank).dropWhile isWordPart, ?_, ?_, ?_, List.all_takeWhile, ?_,
      List.all_takeWhile, head?_any_dropWhile isWordPart _⟩
    · rw [List.append_assoc, List.takeWhile_append_dropWhile, List.takeWhile_append_dropWhile]
    · rw [List.length_append]
      exact (Option.some.inj h).symm
    · exact List.ne_nil_of_length_pos hpos
    · cases hname : text.dropWhile isBlank with
      | nil => simp [hname] at hstart
      | cons c name =>
          have hc : isWordStart c = true := by simpa [hname] using hstart
          rw [List.takeWhile_cons_of_pos (isWordPart_of_isWordStart hc)]
          simpa using hc

theorem nameLength?_isSome {blanks more : Text} (hblanks : blanks ≠ [])
    (hblank : blanks.all isBlank = true) (hmore : more.head?.any isWordStart = true) :
    (nameLength? (blanks ++ more)).isSome = true := by
  cases more with
  | nil => cases hmore
  | cons c more =>
      have hc : isWordStart c = true := by simpa using hmore
      have hnot := isBlank_eq_false_of_isWordPart (isWordPart_of_isWordStart hc)
      have hstops : Text.StopsAt (c :: more) c := .inr ⟨more, rfl⟩
      have hrun : runLength isBlank (blanks ++ c :: more) = blanks.length := by
        rw [hstops.runLength hnot, runLength_eq_length_iff.2 hblank]
      have hpos := List.length_pos_iff.2 hblanks
      simp [nameLength?, hrun, hpos, hc]

theorem extent_pos (directive : Directive) (text : Text) : 0 < (directive.extent text).1 := by
  have hword : 0 < directive.word.length := by cases directive <;> decide
  simp only [extent]
  split
  · split
    · exact Nat.add_pos_left hword _
    · exact hword
  · exact hword

theorem extent_spells (h : atStart? text = some directive) :
    directive.Spells (text.drop (directive.extent text).1) (text.take (directive.extent text).1)
      (if (directive.extent text).2 then [.missingMacroName directive] else []) := by
  obtain ⟨rest, rfl, hrest⟩ := atStart?_eq_some h
  cases htakes : directive.takesName with
  | false =>
      have hextent :
          directive.extent (directive.word ++ rest) = (directive.word.length, false) := by
        simp [extent, htakes]
      rw [hextent, List.take_left, List.drop_left]
      exact .bare htakes hrest
  | true =>
      cases hname : nameLength? rest with
      | none =>
          have hextent : directive.extent (directive.word ++ rest) =
              (directive.word.length, true) := by
            simp [extent, htakes, hname]
          rw [hextent, List.take_left, List.drop_left]
          refine .nameless htakes hrest fun blanks more hmore hblanks hblank => ?_
          by_contra hstart
          have hsome := nameLength?_isSome hblanks (all_isBlank_iff.2 hblank)
            (by simpa using hstart)
          rw [← hmore, hname] at hsome
          cases hsome
      | some count =>
          have hextent : directive.extent (directive.word ++ rest) =
              (directive.word.length + count, false) := by
            simp [extent, htakes, hname]
          obtain ⟨blanks, name, behind, rfl, rfl, hblanks, hblank, hstart, hword, hbehind⟩ :=
            nameLength?_eq_some hname
          have hlength : directive.word.length + (blanks ++ name).length =
              (directive.word ++ blanks ++ name).length := by simp
          have htext : directive.word ++ (blanks ++ name ++ behind) =
              directive.word ++ blanks ++ name ++ behind := by simp
          rw [hextent, hlength, htext, List.take_left, List.drop_left]
          exact .named htakes hblanks (all_isBlank_iff.1 hblank) hstart hword hbehind

end Directive

theorem BlockComment.extent_pos (text : Text) (h : text ≠ []) : 0 < (extent text).1 := by
  have := List.length_pos_iff.2 h
  unfold extent
  split <;> simp only <;> omega

namespace Lexeme

variable {text : Text}

theorem blockComment_spells {rest : Text} (htext : text = '/' :: '*' :: rest) :
    TriviaKind.blockComment.Spells (text.take (BlockComment.extent text).1)
      (text.drop (BlockComment.extent text).1)
      (if (BlockComment.extent text).2 then [] else [.unterminatedComment]) := by
  subst htext
  unfold BlockComment.extent
  rw [List.drop_succ_cons, List.drop_succ_cons, List.drop_zero]
  cases hpair : lengthThroughPair? '*' '/' rest with
  | some count =>
      have hends := endsAtFirst_of_some hpair
      obtain ⟨inner, behind, rfl, rfl, -⟩ := lengthThroughPair?_eq_some hpair
      simp only [Nat.add_comm 2, List.take_succ_cons, List.drop_succ_cons]
      have hlength : inner.length + 2 = (inner ++ ['*', '/']).length := by simp
      have hcut : inner ++ '*' :: '/' :: behind = inner ++ ['*', '/'] ++ behind := by simp
      rw [hlength, hcut, List.take_left] at hends ⊢
      exact ⟨_, rfl, hends, by rw [if_pos trivial, if_pos (List.suffix_append _ _).isInfix]⟩
  | none =>
      have hnot := lengthThroughPair?_eq_none_iff.1 hpair
      simp only [List.take_length, List.drop_length]
      exact ⟨rest, rfl, .unclosed rest hnot, by rw [if_neg hnot]; rfl⟩

theorem trivia?_spells {lexeme : Lexeme TriviaKind} (h : trivia? text = some lexeme) :
    lexeme.kind.Spells (text.take (lexeme.tail + 1)) (text.drop (lexeme.tail + 1))
      lexeme.problem.toList := by
  unfold trivia? at h
  split at h
  · cases h
  · rename_i rest
    cases h
    have hcount : 1 + runLength (fun c => c ≠ '\n') rest + 1 =
        runLength (fun c => c ≠ '\n') rest + 1 + 1 := by omega
    simp only [hcount, List.take_succ_cons, List.drop_succ_cons, take_runLength, drop_runLength]
    refine ⟨rfl, _, rfl, fun hmem => ?_, ?_⟩
    · simpa using List.mem_takeWhile_imp hmem
    · have hhead := head?_any_dropWhile (fun c => decide (c ≠ '\n')) rest
      cases hrest : rest.dropWhile (fun c => decide (c ≠ '\n')) with
      | nil => exact .inl rfl
      | cons c more =>
          rw [hrest] at hhead
          obtain rfl : c = '\n' := by simpa using hhead
          exact .inr ⟨more, rfl⟩
  · rename_i rest
    have hlexeme : lexeme = ⟨.blockComment, (BlockComment.extent ('/' :: '*' :: rest)).1 - 1,
        if (BlockComment.extent ('/' :: '*' :: rest)).2 then none
        else some .unterminatedComment⟩ := (Option.some.inj h).symm
    subst hlexeme
    have hspells := blockComment_spells (rfl : '/' :: '*' :: rest = _)
    have hpos := BlockComment.extent_pos ('/' :: '*' :: rest) (by simp)
    generalize BlockComment.extent ('/' :: '*' :: rest) = extent at hspells hpos ⊢
    obtain ⟨length, terminated⟩ := extent
    simp only [Nat.sub_add_cancel hpos] at hspells ⊢
    cases terminated <;> exact hspells
  · rename_i c rest _ _
    split at h
    · obtain ⟨directive, hstart, rfl⟩ := Option.map_eq_some_iff.1 h
      have hspells := Directive.extent_spells hstart
      have hpos := directive.extent_pos (c :: rest)
      generalize directive.extent (c :: rest) = extent at hspells hpos ⊢
      obtain ⟨length, nameless⟩ := extent
      simp only [Nat.sub_add_cancel hpos] at hspells ⊢
      cases nameless <;> exact ⟨directive, hspells⟩
    · split at h
      · rename_i hblank
        cases h
        simp only [List.take_succ_cons, List.drop_succ_cons, take_runLength, drop_runLength]
        refine ⟨rfl, List.cons_ne_nil _ _, all_isBlank_iff.1 ?_, ?_⟩
        · simp [hblank, List.all_takeWhile]
        · rw [← head?_isBlank_iff, head?_any_dropWhile isBlank rest]
          exact Bool.false_ne_true
      · cases h

end Lexeme

namespace Lexer.Takes

variable {lexer next : Lexer} {piece : Piece} {problem : Option Problem}

end Lexer.Takes

end TdSyntax
