import TdSyntax.Proofs.Term.Atom

/-!
# The lexemes of atoms

An atom that is not a string literal is one lexeme, whatever stands behind the space
at its end, and does not start trivia.
-/

namespace TdSyntax

open Text

namespace Lexeme

variable {previous : Option Char} {first : Char} {rest text after : Text}

theorem trivia?_eq_none (hslash : first ≠ '/') (hhash : first ≠ '#')
    (hblank : isBlank first = false) : trivia? (first :: rest) = none := by
  unfold trivia?
  split
  · rfl
  · rename_i heq
    exact absurd (List.cons.inj heq).1 hslash
  · rename_i heq
    exact absurd (List.cons.inj heq).1 hslash
  · rename_i heq
    obtain ⟨rfl, rfl⟩ := List.cons.inj heq
    simp [hhash, hblank]

theorem runLength_isBlank_of_none (h : trivia? text = none) : runLength isBlank text = 0 := by
  cases text with
  | nil => rfl
  | cons c text =>
      cases hblank : isBlank c with
      | false => simp [runLength, hblank]
      | true =>
          have hslash : c ≠ '/' := by
            rintro rfl
            exact absurd hblank (by decide)
          have hhash : c ≠ '#' := by
            rintro rfl
            exact absurd hblank (by decide)
          unfold trivia? at h
          split at h
          · rename_i heq
            cases heq
          · rename_i heq
            exact absurd (List.cons.inj heq).1 hslash
          · rename_i heq
            exact absurd (List.cons.inj heq).1 hslash
          · rename_i heq
            obtain ⟨rfl, rfl⟩ := List.cons.inj heq
            simp [hhash, hblank] at h

theorem trivia?_wordPart (h : isWordPart first = true) : trivia? (first :: rest) = none := by
  refine trivia?_eq_none ?_ ?_ (isBlank_eq_false_of_isWordPart h)
  · rintro rfl
    exact absurd h (by decide)
  · rintro rfl
    exact absurd h (by decide)

theorem trivia?_hash (h : after.IsSeparated) : trivia? ('#' :: after) = none := by
  have hword : ∀ directive : Directive, dropWord? directive.word ('#' :: after) = none := by
    intro directive
    have hdrop : dropWord? directive.word (['#'] ++ after) =
        (dropWord? directive.word ['#']).map (· ++ after) :=
      h.dropWord? (by cases directive <;> decide)
    rw [show '#' :: after = ['#'] ++ after from rfl, hdrop]
    cases directive <;> rfl
  have hstart : Directive.atStart? ('#' :: after) = none := by
    simp [Directive.atStart?, hword]
  unfold trivia?
  split
  · rfl
  · rename_i heq
    exact absurd (List.cons.inj heq).1 (by decide)
  · rename_i heq
    exact absurd (List.cons.inj heq).1 (by decide)
  · rename_i heq
    obtain ⟨rfl, rfl⟩ := List.cons.inj heq
    simp [hstart]

theorem token_wordPart (h : isWordPart first = true) :
    token previous first rest =
      if first.isDigit then numberOrName (first :: rest) else word first rest := by
  unfold token
  extract_lets signed single
  split
  case h_18 =>
    have hdollar : first ≠ '$' := by
      rintro rfl
      exact absurd h (by decide)
    have hminus : first ≠ '-' := by
      rintro rfl
      exact absurd h (by decide)
    have hplus : first ≠ '+' := by
      rintro rfl
      exact absurd h (by decide)
    cases hdigit : first.isDigit with
    | true => simp [hdollar, hminus, hplus]
    | false => simp [hdollar, hminus, hplus, isWordStart_of_not_isDigit h hdigit]
  all_goals exact absurd h (by decide)

section

variable {stop : Char} (h : after.StopsAt stop) (hstop : isWordPart stop = false)
include h hstop

theorem word_append (hrest : rest.all isWordPart = true) :
    word first (rest ++ after) =
      ⟨(Kind.ofKeyword? (String.ofList (first :: rest))).getD .identifier, rest.length, none⟩ := by
  have hword : rest.takeWhile isWordPart = rest :=
    List.takeWhile_eq_self_iff.2 (List.all_eq_true.1 hrest)
  simp only [word, h.takeWhile hstop, hword]

theorem numberOrName_append (htext : text ≠ []) (hnumber : Number.isUnsigned text = true) :
    numberOrName (text ++ after) = ⟨.integerLiteral, text.length - 1, none⟩ := by
  have hinteger := (Number.integerLength_eq_length_iff htext).2 hnumber
  have hname := Number.nameLength_le text
  simp only [numberOrName, Number.integerLength_append h hstop,
    Number.nameLength_append h hstop, hinteger]
  rw [if_neg (by omega)]

theorem numberOrName_name (hword : text.all isWordPart = true)
    (hstart : text.any isWordStart = true) (hnumber : Number.isUnsigned text = false) :
    numberOrName (text ++ after) = ⟨.identifier, text.length - 1, none⟩ := by
  have htext : text ≠ [] := by
    rintro rfl
    cases hstart
  have hle := Number.integerLength_le text
  have hne : Number.integerLength text ≠ text.length := by
    rw [Ne, Number.integerLength_eq_length_iff htext, hnumber]
    simp
  simp only [numberOrName, Number.integerLength_append h hstop,
    Number.nameLength_append h hstop, Number.nameLength_eq_length hword hstart]
  rw [if_pos (by omega)]

end

theorem token_name (h : after.IsSeparated) (name : Name) (htext : name.text = first :: rest) :
    token previous first (rest ++ after) = ⟨.identifier, rest.length, none⟩ := by
  have hname := name.isWord
  have hnumber := name.notNumber
  have hkeyword := name.notKeyword
  rw [htext] at hname hnumber hkeyword
  simp only [Bool.and_eq_true] at hname
  have hfirst := List.all_eq_true.1 hname.1
  rw [token_wordPart (hfirst first (by simp))]
  cases hdigit : first.isDigit with
  | true =>
      rw [if_pos rfl, ← List.cons_append, numberOrName_name h (by decide) hname.1 hname.2 hnumber]
      simp
  | false =>
      rw [if_neg (by simp),
        word_append h (by decide) (List.all_eq_true.2 fun c hc => hfirst c (by simp [hc])),
        hkeyword]
      rfl

theorem token_unsigned (h : after.IsSeparated)
    (hnumber : Number.isUnsigned (first :: rest) = true) :
    token previous first (rest ++ after) = ⟨.integerLiteral, rest.length, none⟩ := by
  have hdigit := Number.isDigit_of_isUnsigned hnumber
  rw [token_wordPart (isWordPart_of_isDigit hdigit), if_pos hdigit, ← List.cons_append,
    numberOrName_append h (by decide) (by simp) hnumber]
  simp

theorem token_signed (h : after.IsSeparated) (hprevious : endsOperand previous = false)
    (hnumber : Number.isSigned (first :: rest) = true) :
    token previous first (rest ++ after) = ⟨.integerLiteral, rest.length, none⟩ := by
  simp only [Number.isSigned, Bool.and_eq_true, Bool.or_eq_true, beq_iff_eq,
    Bool.not_eq_true'] at hnumber
  obtain ⟨hsign, hempty, hdigits⟩ := hnumber
  have hrun : runLength Char.isDigit (rest ++ after) = rest.length := by
    rw [h.runLength (by decide), runLength_eq_length_iff.2 hdigits]
  have hhead : (rest ++ after).head?.any Char.isDigit = true := by
    cases rest with
    | nil => cases hempty
    | cons c rest => simpa using List.all_eq_true.1 hdigits c (by simp)
  rcases hsign with rfl | rfl <;>
    simp [token, hprevious, hhead, hrun, -List.head?_append]

theorem lengthThroughPair?_append {one two : Char} (hne : one ≠ two)
    (h : ¬ [one, two] <:+: text) :
    lengthThroughPair? one two (text ++ one :: two :: after) = some (text.length + 2) := by
  induction text with
  | nil => simp [lengthThroughPair?]
  | cons c text ih =>
      have hrest : ¬ [one, two] <:+: text := fun hinside =>
        h (hinside.trans (List.suffix_cons c text).isInfix)
      have hpair : ∀ d more, text ++ one :: two :: after = d :: more → ¬ (c = one ∧ d = two) := by
        rintro d more heq ⟨rfl, rfl⟩
        cases text with
        | nil => exact hne (List.cons.inj heq).1
        | cons e text =>
            obtain ⟨rfl, -⟩ := List.cons.inj heq
            exact h ⟨[], text, rfl⟩
      cases hmore : text ++ one :: two :: after with
      | nil => simp at hmore
      | cons d more =>
          rw [List.cons_append, hmore, lengthThroughPair?, if_neg (hpair d more hmore), ← hmore,
            ih hrest]
          simp

theorem token_code (code : CodeText) :
    token previous '[' ('{' :: (code.text ++ ['}', ']']) ++ after) =
      ⟨.codeBlock, ('{' :: (code.text ++ ['}', ']'])).length, none⟩ := by
  have hclosed : lengthThroughPair? '}' ']' (code.text ++ '}' :: ']' :: after) =
      some (code.text.length + 2) := lengthThroughPair?_append (by decide) code.isOpen
  simp only [token, List.cons_append, List.head?_cons, if_true, codeBlock, List.drop_succ_cons,
    List.drop_zero, List.append_assoc, List.nil_append, hclosed]
  simp only [List.length_cons, List.length_append, List.length_nil]
  congr 1
  omega

theorem token_varName (h : after.IsSeparated) (name : VarName) :
    token previous '$' (name.text ++ after) = ⟨.varName, name.text.length, none⟩ := by
  have hhead : (name.text ++ after).head?.any isWordStart = true := by
    rw [h.head?_any_append (by decide)]
    exact name.startsWord
  have hrun : runLength isWordPart (name.text ++ after) = name.text.length := by
    rw [h.runLength (by decide), runLength_eq_length_iff.2 name.isWord]
  simp [token, hhead, hrun, -List.head?_append]

theorem bang_append (h : after.IsSeparated) {name : Text} (hname : name.all isWordPart = true) :
    bang (name ++ after) =
      if name = "cond".toList then ⟨.condOperator, name.length, none⟩
      else if (BangOperator.ofName? (String.ofList name)).isSome then
        ⟨.bangOperator, name.length, none⟩
      else ⟨.exclamation, 0, none⟩ := by
  have hword : name.takeWhile isWordPart = name :=
    List.takeWhile_eq_self_iff.2 (List.all_eq_true.1 hname)
  simp only [bang, h.takeWhile (by decide : isWordPart ' ' = false), hword]

theorem token_operator (h : after.IsSeparated) (operator : BangOperator) :
    token previous '!' (operator.name.toList ++ after) =
      ⟨.bangOperator, operator.name.toList.length, none⟩ := by
  have hword : operator.name.toList.all isWordPart = true := by cases operator <;> decide
  have hcond : operator.name.toList ≠ "cond".toList := by cases operator <;> decide
  show bang (operator.name.toList ++ after) = _
  rw [bang_append h hword, if_neg hcond, String.ofList_toList, BangOperator.ofName?_name]
  rfl

theorem token_cond (h : after.IsSeparated) :
    token previous '!' ("cond".toList ++ after) = ⟨.condOperator, 4, none⟩ := by
  show bang ("cond".toList ++ after) = _
  rw [bang_append h (by decide)]
  rfl

def punctuation : List Kind :=
  [.leftParen, .rightParen, .leftBracket, .rightBracket, .leftBrace, .rightBrace, .leftAngle,
    .rightAngle, .comma, .semicolon, .colon, .eq, .hash, .question, .dot, .ellipsis, .minus]

theorem mem_punctuation_of_isMark {kind : Kind} (h : kind.isMark = true)
    (hkeyword : kind.isKeyword = false) : kind ∈ punctuation := by
  have hall : ∀ kind ∈ Kind.all, kind.isMark = true → kind.isKeyword = false →
      kind ∈ punctuation := by decide +kernel
  exact hall kind kind.mem_all h hkeyword

theorem keyword_spelling {kind : Kind} (h : kind.isKeyword = true) :
    (kind.spelling?.getD "").toList.head?.any isWordStart = true ∧
      (kind.spelling?.getD "").toList.all isWordPart = true ∧
      Kind.ofKeyword? (kind.spelling?.getD "") = some kind := by
  have hall : ∀ kind ∈ Kind.all, kind.isKeyword = true →
      (kind.spelling?.getD "").toList.head?.any isWordStart = true ∧
        (kind.spelling?.getD "").toList.all isWordPart = true ∧
        Kind.ofKeyword? (kind.spelling?.getD "") = some kind := by decide +kernel
  exact hall kind kind.mem_all h

end Lexeme

/-- The lexer reads a word in front of `after` as one token, unless the word stands
directly behind an operand. -/
structure Word.LexesTo (word : Word) (first : Char) (rest after : Text) : Prop where
  text : word.text = first :: rest
  trivia : Lexeme.trivia? (first :: (rest ++ after)) = none
  token : ∀ previous, Lexeme.endsOperand previous = false →
    Lexeme.token previous first (rest ++ after) = ⟨word.kind, rest.length, none⟩

def Word.IsLexed (word : Word) (after : Text) : Prop :=
  ∃ first rest, word.LexesTo first rest after

namespace Atom

open Lexeme

variable {after : Text}

theorem single_isLexed {word : Word} {first : Char} (htext : word.text = [first])
    (hslash : first ≠ '/') (hhash : first ≠ '#') (hblank : isBlank first = false)
    (htoken : ∀ previous, token previous first after = ⟨word.kind, 0, none⟩) :
    word.IsLexed after :=
  ⟨first, [], htext, trivia?_eq_none hslash hhash hblank, fun previous _ => htoken previous⟩

theorem quote_isLexed (after : Text) : Quoted.quote.IsLexed after :=
  @single_isLexed after _ '"' rfl (by decide) (by decide) (by decide) fun _ => rfl

theorem punctuation_isLexed (h : after.IsSeparated) {kind : Kind} (hkind : kind ∈ punctuation) :
    Word.IsLexed ⟨kind, (kind.spelling?.getD "").toList⟩ after := by
  have hbrace : ¬ after.head? = some '{' := by
    rcases h with rfl | ⟨more, rfl⟩ <;> simp
  have hdots : ¬ after.take 2 = ['.', '.'] := by
    rcases h with rfl | ⟨more, rfl⟩ <;> simp
  have hdigit : after.head?.any Char.isDigit = false := h.head?_any (by decide)
  simp only [punctuation, List.mem_cons, List.not_mem_nil, or_false] at hkind
  rcases hkind with rfl | rfl | rfl | rfl | rfl | rfl | rfl | rfl | rfl | rfl | rfl | rfl | rfl |
    rfl | rfl | rfl | rfl
  · exact @single_isLexed after _ '(' rfl (by decide) (by decide) (by decide) fun _ => rfl
  · exact @single_isLexed after _ ')' rfl (by decide) (by decide) (by decide) fun _ => rfl
  · exact @single_isLexed after _ '[' rfl (by decide) (by decide) (by decide)
      fun _ => by simp [token, hbrace]
  · exact @single_isLexed after _ ']' rfl (by decide) (by decide) (by decide) fun _ => rfl
  · exact @single_isLexed after _ '{' rfl (by decide) (by decide) (by decide) fun _ => rfl
  · exact @single_isLexed after _ '}' rfl (by decide) (by decide) (by decide) fun _ => rfl
  · exact @single_isLexed after _ '<' rfl (by decide) (by decide) (by decide) fun _ => rfl
  · exact @single_isLexed after _ '>' rfl (by decide) (by decide) (by decide) fun _ => rfl
  · exact @single_isLexed after _ ',' rfl (by decide) (by decide) (by decide) fun _ => rfl
  · exact @single_isLexed after _ ';' rfl (by decide) (by decide) (by decide) fun _ => rfl
  · exact @single_isLexed after _ ':' rfl (by decide) (by decide) (by decide) fun _ => rfl
  · exact @single_isLexed after _ '=' rfl (by decide) (by decide) (by decide) fun _ => rfl
  · exact ⟨'#', [], rfl, trivia?_hash h, fun _ _ => rfl⟩
  · exact @single_isLexed after _ '?' rfl (by decide) (by decide) (by decide) fun _ => rfl
  · exact @single_isLexed after _ '.' rfl (by decide) (by decide) (by decide)
      fun _ => by simp [token, hdots]
  · exact ⟨'.', ['.', '.'], rfl, trivia?_eq_none (by decide) (by decide) (by decide),
      fun _ _ => by simp [token]⟩
  · exact @single_isLexed after _ '-' rfl (by decide) (by decide) (by decide)
      fun _ => by simp [token, hdigit]

theorem keyword_isLexed (h : after.IsSeparated) {kind : Kind} (hkind : kind.isKeyword = true) :
    Word.IsLexed ⟨kind, (kind.spelling?.getD "").toList⟩ after := by
  obtain ⟨hstart, hword, hkeyword⟩ := keyword_spelling hkind
  cases htext : (kind.spelling?.getD "").toList with
  | nil => simp [htext] at hstart
  | cons first rest =>
      rw [htext] at hstart hword
      have hstart : isWordStart first = true := by simpa using hstart
      have hpart := isWordPart_of_isWordStart hstart
      have hrest : rest.all isWordPart = true := by
        simp only [List.all_cons, Bool.and_eq_true] at hword
        exact hword.2
      rw [← String.ofList_toList (s := kind.spelling?.getD ""), htext] at hkeyword
      refine ⟨first, rest, rfl, trivia?_wordPart hpart, fun previous _ => ?_⟩
      rw [token_wordPart hpart, if_neg (by simp [isDigit_eq_false_of_isWordStart hstart]),
        word_append h (by decide) hrest, hkeyword]
      rfl

theorem name_isLexed (h : after.IsSeparated) (name : Name) :
    Word.IsLexed ⟨.identifier, name.text⟩ after := by
  have hname := name.isWord
  cases htext : name.text with
  | nil => simp [htext] at hname
  | cons first rest =>
      rw [htext] at hname
      simp only [List.all_cons, Bool.and_eq_true] at hname
      exact ⟨first, rest, rfl, trivia?_wordPart hname.1.1,
        fun previous _ => token_name h name htext⟩

theorem integer_isLexed (h : after.IsSeparated) (number : IntegerText) :
    Word.IsLexed ⟨.integerLiteral, number.text⟩ after := by
  have hnumber := number.isNumber
  cases htext : number.text with
  | nil => simp [htext, Number.isUnsigned, Number.isSigned] at hnumber
  | cons first rest =>
      rw [htext, Bool.or_eq_true] at hnumber
      rcases hnumber with hnumber | hnumber
      · have hdigit := Number.isDigit_of_isUnsigned hnumber
        exact ⟨first, rest, rfl, trivia?_wordPart (isWordPart_of_isDigit hdigit),
          fun previous _ => token_unsigned h hnumber⟩
      · refine ⟨first, rest, rfl, ?_, fun previous hprevious => token_signed h hprevious hnumber⟩
        simp only [Number.isSigned, Bool.and_eq_true, Bool.or_eq_true, beq_iff_eq] at hnumber
        rcases hnumber.1 with rfl | rfl <;>
          exact trivia?_eq_none (by decide) (by decide) (by decide)

theorem word_isLexed (h : after.IsSeparated) (atom : Atom) : atom.word.IsLexed after := by
  cases atom with
  | mark kind hkind =>
      cases hkeyword : kind.isKeyword with
      | true => exact keyword_isLexed h hkeyword
      | false => exact punctuation_isLexed h (mem_punctuation_of_isMark hkind hkeyword)
  | name content => exact name_isLexed h content
  | integer content => exact integer_isLexed h content
  | varName content =>
      exact ⟨'$', content.text, rfl, trivia?_eq_none (by decide) (by decide) (by decide),
        fun previous _ => token_varName h content⟩
  | code content =>
      exact ⟨'[', _, rfl, trivia?_eq_none (by decide) (by decide) (by decide),
        fun previous _ => token_code content⟩
  | operator content =>
      exact ⟨'!', content.name.toList, by simp [word, BangOperator.spelling],
        trivia?_eq_none (by decide) (by decide) (by decide),
        fun previous _ => token_operator h content⟩
  | condOperator =>
      exact ⟨'!', "cond".toList, rfl, trivia?_eq_none (by decide) (by decide) (by decide),
        fun previous _ => token_cond h⟩
  | quoted content => exact quote_isLexed after

end Atom

end TdSyntax
