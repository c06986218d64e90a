import Mathlib.Data.List.Infix
import TdSyntax.Proofs.Term.Lexemes
import TdSyntax.Proofs.Token.Pieces

/-!
# The forms of tokens

What the kind of a token outside of string literals says of its text, and that no word
is cut in two: a token that starts with a word character goes on to the end of the run
of such characters, and the whole run decides what a run that starts with a digit is.
-/

namespace TdSyntax

namespace Text

/-- A text that ends just behind the first pair of characters in it, or that reaches to
the end of the source without such a pair. -/
inductive EndsAtFirst (one two : Char) : Text → Text → Prop
  | closed (inner behind : Text) (h : ¬ [one, two] <:+: inner ++ [one]) :
      EndsAtFirst one two (inner ++ [one, two]) behind
  | unclosed (text : Text) (h : ¬ [one, two] <:+: text) : EndsAtFirst one two text []

theorem not_infix_cons {one two first second : Char} {rest : Text}
    (hpair : ¬ (first = one ∧ second = two)) (h : ¬ [one, two] <:+: second :: rest) :
    ¬ [one, two] <:+: first :: second :: rest := by
  rw [List.infix_cons_iff]
  rintro (⟨more, heq⟩ | hinside)
  · simp only [List.cons_append, List.nil_append, List.cons.injEq] at heq
    exact hpair ⟨heq.1.symm, heq.2.1.symm⟩
  · exact h hinside

theorem lengthThroughPair?_eq_some {one two : Char} {text : Text} {count : Nat}
    (h : lengthThroughPair? one two text = some count) :
    ∃ inner behind, text = inner ++ one :: two :: behind ∧ count = inner.length + 2 ∧
      ¬ [one, two] <:+: inner ++ [one] := by
  fun_induction lengthThroughPair? one two text generalizing count with
  | case1 => cases h
  | case2 => cases h
  | case3 first second rest hpair =>
      obtain ⟨rfl, rfl⟩ := hpair
      refine ⟨[], rest, rfl, (Option.some.inj h).symm, fun hinside => ?_⟩
      simpa using hinside.length_le
  | case4 first second rest hpair ih =>
      obtain ⟨length, hlength, rfl⟩ := Option.map_eq_some_iff.1 h
      obtain ⟨inner, behind, htext, rfl, hinner⟩ := ih hlength
      refine ⟨first :: inner, behind, by rw [htext, List.cons_append], by simp [Nat.add_right_comm],
        ?_⟩
      cases inner with
      | nil =>
          obtain ⟨rfl, -⟩ := List.cons.inj htext
          exact not_infix_cons hpair hinner
      | cons c inner =>
          obtain ⟨rfl, -⟩ := List.cons.inj htext
          exact not_infix_cons hpair hinner

theorem lengthThroughPair?_eq_none_iff {one two : Char} {text : Text} :
    lengthThroughPair? one two text = none ↔ ¬ [one, two] <:+: text := by
  constructor
  · intro h
    fun_induction lengthThroughPair? one two text with
    | case1 => simp
    | case2 c => exact fun hinside => by simpa using hinside.length_le
    | case3 => cases h
    | case4 first second rest hpair ih =>
        exact not_infix_cons hpair (ih (Option.map_eq_none_iff.1 h))
  · intro h
    cases hlength : lengthThroughPair? one two text with
    | none => rfl
    | some count =>
        obtain ⟨inner, behind, rfl, -, -⟩ := lengthThroughPair?_eq_some hlength
        exact absurd ⟨inner, behind, by simp⟩ h

theorem endsAtFirst_of_some {one two : Char} {text : Text} {count : Nat}
    (h : lengthThroughPair? one two text = some count) :
    EndsAtFirst one two (text.take count) (text.drop count) := by
  obtain ⟨inner, behind, rfl, rfl, hinner⟩ := lengthThroughPair?_eq_some h
  have hcut : inner ++ one :: two :: behind = (inner ++ [one, two]) ++ behind := by simp
  have hlength : inner.length + 2 = (inner ++ [one, two]).length := by simp
  rw [hcut, hlength, List.take_left, List.drop_left]
  exact .closed inner behind hinner

/-- A name as it is spelled: digits, a letter or an underscore, and word characters. -/
def IsName (text : Text) : Prop :=
  ∃ digits first rest, text = digits ++ first :: rest ∧ digits.all Char.isDigit = true ∧
    isWordStart first = true ∧ rest.all isWordPart = true

theorem isName_of_all {text : Text} (hword : text.all isWordPart = true)
    (hstart : text.any isWordStart = true) : text.IsName := by
  have hparts := List.takeWhile_append_dropWhile (p := Char.isDigit) (l := text)
  cases hrest : text.dropWhile Char.isDigit with
  | nil =>
      obtain ⟨c, hmem, hc⟩ := List.any_eq_true.1 hstart
      rw [hrest, List.append_nil] at hparts
      rw [← hparts] at hmem
      exact absurd (List.mem_takeWhile_imp hmem) (by simp [isDigit_eq_false_of_isWordStart hc])
  | cons first rest =>
      have hbehind : ∀ c ∈ first :: rest, isWordPart c = true := by
        intro c hmem
        rw [← hrest] at hmem
        exact List.all_eq_true.1 hword c ((List.dropWhile_suffix _).subset hmem)
      have hfirst := List.head?_dropWhile_not Char.isDigit text
      rw [hrest] at hfirst
      refine ⟨text.takeWhile Char.isDigit, first, rest, by rw [← hrest, hparts],
        List.all_takeWhile, ?_, List.all_eq_true.2 fun c hmem => hbehind c (by simp [hmem])⟩
      exact isWordStart_of_not_isDigit (hbehind first (by simp)) (by simpa using hfirst)

end Text

open Text

/-- What the kind of a token outside of string literals says of its text and of what
stands behind it. -/
structure Kind.Spells (kind : Kind) (text behind : Text) : Prop where
  mark : ∀ word, kind.spelling? = some word → text = word.toList
  keyword : kind.isKeyword = true → kind.spelling? = some (String.ofList text)
  name : kind = .identifier → text.IsName ∧
    (∀ keyword : Kind, keyword.isKeyword = true →
      keyword.spelling? ≠ some (String.ofList text)) ∧
    Number.isUnsigned text = false ∧ Number.isSigned text = false
  integer : kind = .integerLiteral → Number.isUnsigned text = true ∨ Number.isSigned text = true
  varName : kind = .varName → ∃ first rest, text = '$' :: first :: rest ∧
    isWordStart first = true ∧ rest.all isWordPart = true
  operator : kind = .bangOperator → ∃ operator : BangOperator, text = operator.spelling.toList
  condOperator : kind = .condOperator → text = "!cond".toList
  code : kind = .codeBlock → ∃ body, text = '[' :: '{' :: body ∧ EndsAtFirst '}' ']' body behind
  whole : kind.isKeyword = true ∨ kind ∈ [.identifier, .varName, .bangOperator, .condOperator] ∨
    kind = .integerLiteral ∧ Number.isUnsigned text = true → behind.continuesWord = false
  run : text.head?.any isWordPart = true → text = (text ++ behind).takeWhile isWordPart
  number : text.head?.any Char.isDigit = true →
    (kind = .integerLiteral ↔
      Number.isUnsigned ((text ++ behind).takeWhile isWordPart) = true)

namespace Kind

theorem ne_of_isKeyword {kind other : Kind} (h : kind.isKeyword = true)
    (hother : other.isKeyword = false) : kind ≠ other := by
  rintro rfl
  rw [h] at hother
  cases hother

theorem spelling?_ne_of_ofKeyword? {word : String} (h : ofKeyword? word = none)
    {keyword : Kind} (hkeyword : keyword.isKeyword = true) : keyword.spelling? ≠ some word := by
  have hmem : keyword ∈ keywords := List.mem_filter.2 ⟨keyword.mem_all, hkeyword⟩
  simpa using List.find?_eq_none.1 h keyword hmem

namespace Spells

variable {kind : Kind} {text behind : Text}

theorem of_notMem (hmark : ∀ word, kind.spelling? = some word → text = word.toList)
    (hkeyword : kind.isKeyword = false)
    (hkind : kind ∉ [.identifier, .integerLiteral, .varName, .bangOperator, .condOperator,
      .codeBlock]) (hfirst : text.head?.any isWordPart = false) : kind.Spells text behind := by
  simp only [List.mem_cons, List.not_mem_nil, or_false, not_or] at hkind
  obtain ⟨hname, hinteger, hvarName, hoperator, hcond, hcode⟩ := hkind
  have hdigit : text.head?.any Char.isDigit = false := by
    cases text with
    | nil => rfl
    | cons c text =>
        by_contra h
        simp [isWordPart_of_isDigit (by simpa using h)] at hfirst
  refine ⟨hmark, by simp [hkeyword], fun h => absurd h hname, fun h => absurd h hinteger,
    fun h => absurd h hvarName, fun h => absurd h hoperator, fun h => absurd h hcond,
    fun h => absurd h hcode, ?_, by simp [hfirst], by simp [hdigit]⟩
  simp [hkeyword, hname, hinteger, hvarName, hoperator, hcond]

section

variable (hword : text.all isWordPart = true) (hbehind : behind.continuesWord = false)

include hword hbehind

theorem takeWhile_word : (text ++ behind).takeWhile isWordPart = text := by
  obtain ⟨stop, hstop, hafter⟩ := exists_stopsAt hbehind
  rw [hafter.takeWhile hstop, List.takeWhile_eq_self_iff]
  exact List.all_eq_true.1 hword

theorem of_unsigned (hnumber : Number.isUnsigned text = true) :
    Spells .integerLiteral text behind := by
  have hrun := takeWhile_word hword hbehind
  constructor
  case integer => exact fun _ => .inl hnumber
  case whole => exact fun _ => hbehind
  case run => exact fun _ => hrun.symm
  case number => simp [hrun, hnumber]
  all_goals (intros; contradiction)

theorem of_name (htext : text ≠ []) (hnumber : Number.isUnsigned text = false)
    (hkeyword : ofKeyword? (String.ofList text) = none) : Spells .identifier text behind := by
  have hrun := takeWhile_word hword hbehind
  have hstart := Number.any_isWordStart_of_isUnsigned htext hword hnumber
  constructor
  case name => exact fun _ => ⟨isName_of_all hword hstart,
    fun _ => spelling?_ne_of_ofKeyword? hkeyword, hnumber, Number.isSigned_of_all hword⟩
  case whole => exact fun _ => hbehind
  case run => exact fun _ => hrun.symm
  case number => simp [hrun, hnumber]
  all_goals (intros; contradiction)

theorem of_keyword (hnumber : Number.isUnsigned text = false)
    (hkeyword : ofKeyword? (String.ofList text) = some kind) : kind.Spells text behind := by
  obtain ⟨hkind, hspelling⟩ := spelling?_of_ofKeyword? hkeyword
  have hrun := takeWhile_word hword hbehind
  have hne {other : Kind} (hother : other.isKeyword = false) : kind ≠ other :=
    ne_of_isKeyword hkind hother
  constructor
  case mark =>
    intro word hmark
    rw [hspelling] at hmark
    rw [← Option.some.inj hmark, String.toList_ofList]
  case keyword => exact fun _ => hspelling
  case whole => exact fun _ => hbehind
  case run => exact fun _ => hrun.symm
  case number => simpa [hrun, hnumber] using fun _ => hne rfl
  all_goals exact fun h => absurd h (hne rfl)

theorem of_run (htext : text ≠ []) :
    Spells (if Number.isUnsigned text then .integerLiteral
      else (ofKeyword? (String.ofList text)).getD .identifier) text behind := by
  cases hnumber : Number.isUnsigned text with
  | true => exact of_unsigned hword hbehind hnumber
  | false =>
      rw [if_neg (by simp)]
      cases hkeyword : ofKeyword? (String.ofList text) with
      | none => exact of_name hword hbehind htext hnumber hkeyword
      | some kind => exact of_keyword hword hbehind hnumber hkeyword

end

end Spells

end Kind

namespace Lexeme

variable {previous : Option Char} {first : Char} {rest : Text}

def IsSpelled (lexeme : Lexeme Kind) (text : Text) : Prop :=
  lexeme.kind.Spells (text.take (lexeme.tail + 1)) (text.drop (lexeme.tail + 1))

theorem ofKeyword?_of_isDigit (h : first.isDigit = true) :
    Kind.ofKeyword? (String.ofList (first :: rest)) = none := by
  cases hkeyword : Kind.ofKeyword? (String.ofList (first :: rest)) with
  | none => rfl
  | some kind =>
      obtain ⟨hkind, hspelling⟩ := Kind.spelling?_of_ofKeyword? hkeyword
      have hstart := (keyword_spelling hkind).1
      rw [hspelling, Option.getD_some, String.toList_ofList] at hstart
      rw [isDigit_eq_false_of_isWordStart (by simpa using hstart)] at h
      cases h

theorem token_run {after : Text} (hword : (first :: rest).all isWordPart = true)
    (hafter : after.continuesWord = false) :
    token previous first (rest ++ after) =
      ⟨if Number.isUnsigned (first :: rest) then .integerLiteral
        else (Kind.ofKeyword? (String.ofList (first :: rest))).getD .identifier,
        rest.length, none⟩ := by
  obtain ⟨stop, hstop, hstops⟩ := exists_stopsAt hafter
  rw [token_wordPart (List.all_eq_true.1 hword first (by simp))]
  cases hdigit : first.isDigit with
  | true =>
      rw [if_pos rfl, ← List.cons_append, ofKeyword?_of_isDigit hdigit, Option.getD_none]
      cases hnumber : Number.isUnsigned (first :: rest) with
      | true =>
          rw [numberOrName_append hstops hstop (by simp) hnumber]
          simp
      | false =>
          have hstart := Number.any_isWordStart_of_isUnsigned (by simp) hword hnumber
          rw [numberOrName_name hstops hstop hword hstart hnumber]
          simp
  | false =>
      have hnumber : Number.isUnsigned (first :: rest) = false := by
        by_contra h
        rw [Number.isDigit_of_isUnsigned (by simpa using h)] at hdigit
        cases hdigit
      simp only [List.all_cons, Bool.and_eq_true] at hword
      rw [if_neg (by simp), word_append hstops hstop hword.2, hnumber, if_neg (by simp)]

theorem token_isSpelled_of_isWordPart (h : isWordPart first = true) :
    (token previous first rest).IsSpelled (first :: rest) := by
  have hword : (first :: rest.takeWhile isWordPart).all isWordPart = true := by
    simp [h, List.all_takeWhile]
  have hafter : continuesWord (rest.dropWhile isWordPart) = false := head?_any_dropWhile _ rest
  have hparts := List.takeWhile_append_dropWhile (p := isWordPart) (l := rest)
  generalize rest.takeWhile isWordPart = run at hword hparts
  generalize rest.dropWhile isWordPart = after at hafter hparts
  subst hparts
  have hspells := Kind.Spells.of_run hword hafter (List.cons_ne_nil first run)
  rw [IsSpelled, token_run hword hafter, ← List.cons_append]
  have hlength : run.length + 1 = (first :: run).length := rfl
  rw [hlength, List.take_left, List.drop_left]
  exact hspells

theorem codeBlock_isSpelled (rest : Text) :
    (codeBlock ('{' :: rest)).IsSpelled ('[' :: '{' :: rest) := by
  have hspells {body behind : Text} (h : EndsAtFirst '}' ']' body behind) :
      Kind.Spells .codeBlock ('[' :: '{' :: body) behind := by
    constructor
    case code => exact fun _ => ⟨body, rfl, h⟩
    case whole => simp [show Kind.codeBlock.isKeyword = false from rfl]
    all_goals (intros; contradiction)
  unfold codeBlock
  rw [List.drop_succ_cons, List.drop_zero]
  split
  · rename_i count hcount
    have hends := hspells (endsAtFirst_of_some hcount)
    rw [IsSpelled, Nat.add_comm 1 count]
    exact hends
  · rename_i hnone
    have hends := hspells (.unclosed rest (lengthThroughPair?_eq_none_iff.1 hnone))
    simpa [IsSpelled] using hends

theorem bang_isSpelled (rest : Text) : (bang rest).IsSpelled ('!' :: rest) := by
  have hafter : continuesWord (rest.dropWhile isWordPart) = false := head?_any_dropWhile _ rest
  have hparts := List.takeWhile_append_dropWhile (p := isWordPart) (l := rest)
  simp only [bang]
  generalize rest.takeWhile isWordPart = name at hparts
  generalize rest.dropWhile isWordPart = after at hafter hparts
  subst hparts
  split
  case isTrue hname =>
    subst hname
    constructor
    case condOperator => exact fun _ => rfl
    case whole => exact fun _ => hafter
    all_goals (intros; contradiction)
  case isFalse =>
    split
    case isTrue hname =>
      obtain ⟨operator, hoperator⟩ := Option.isSome_iff_exists.1 hname
      have hfound : operator.name = String.ofList name := by
        simpa using List.find?_some hoperator
      have hspelling : '!' :: name = operator.spelling.toList := by
        rw [BangOperator.spelling, hfound]
        simp
      rw [IsSpelled, ← List.cons_append]
      have hlength : name.length + 1 = ('!' :: name).length := rfl
      rw [hlength, List.take_left, List.drop_left]
      constructor
      case operator => exact fun _ => ⟨operator, hspelling⟩
      case whole => exact fun _ => hafter
      all_goals (intros; contradiction)
    case isFalse => exact .of_notMem (by rintro _ ⟨rfl⟩; rfl) rfl (by decide) rfl

theorem varName_isSpelled (h : rest.head?.any isWordStart = true) :
    IsSpelled ⟨.varName, runLength isWordPart rest, none⟩ ('$' :: rest) := by
  rw [IsSpelled, List.take_succ_cons, List.drop_succ_cons, take_runLength, drop_runLength]
  constructor
  case varName =>
    intro _
    cases rest with
    | nil => cases h
    | cons first rest =>
        have hfirst : isWordStart first = true := by simpa using h
        refine ⟨first, rest.takeWhile isWordPart, ?_, hfirst, List.all_takeWhile⟩
        rw [List.takeWhile_cons_of_pos (isWordPart_of_isWordStart hfirst)]
  case whole => exact fun _ => head?_any_dropWhile isWordPart rest
  all_goals (intros; contradiction)

theorem signed_isSpelled {sign : Char} (hsign : sign = '-' ∨ sign = '+')
    (h : rest.head?.any Char.isDigit = true) :
    IsSpelled ⟨.integerLiteral, runLength Char.isDigit rest, none⟩ (sign :: rest) := by
  rw [IsSpelled, List.take_succ_cons, List.drop_succ_cons, take_runLength, drop_runLength]
  have hpart : isWordPart sign = false := by rcases hsign with rfl | rfl <;> decide
  have hdigit : sign.isDigit = false := by rcases hsign with rfl | rfl <;> decide
  have hsigned : Number.isSigned (sign :: rest.takeWhile Char.isDigit) = true := by
    cases rest with
    | nil => cases h
    | cons first rest =>
        have hfirst : first.isDigit = true := by simpa using h
        simp [Number.isSigned, hsign, hfirst, List.takeWhile_cons_of_pos, List.all_takeWhile]
  have hunsigned : Number.isUnsigned (sign :: rest.takeWhile Char.isDigit) = false := by
    by_contra hnumber
    rw [Number.isDigit_of_isUnsigned (by simpa using hnumber)] at hdigit
    cases hdigit
  constructor
  case integer => exact fun _ => .inr hsigned
  case whole => simp [hunsigned, show Kind.integerLiteral.isKeyword = false from rfl]
  case run => simp [hpart]
  case number => simp [hdigit]
  all_goals (intros; contradiction)

theorem token_isSpelled (previous : Option Char) (first : Char) (rest : Text) :
    (token previous first rest).IsSpelled (first :: rest) := by
  cases hword : isWordPart first with
  | true => exact token_isSpelled_of_isWordPart hword
  | false =>
      have hmark {kind : Kind} {tail : Nat} {problem : Option Problem}
          (htext : ∀ word, kind.spelling? = some word →
            (first :: rest).take (tail + 1) = word.toList)
          (hkeyword : kind.isKeyword = false)
          (hkind : kind ∉ [.identifier, .integerLiteral, .varName, .bangOperator, .condOperator,
            .codeBlock]) : IsSpelled ⟨kind, tail, problem⟩ (first :: rest) :=
        .of_notMem htext hkeyword hkind (by simp [hword])
      unfold token
      extract_lets signed single
      split
      case h_3 =>
        split
        case isTrue hbrace =>
          cases rest with
          | nil => cases hbrace
          | cons second rest =>
              obtain rfl : second = '{' := by simpa using hbrace
              exact codeBlock_isSpelled rest
        case isFalse => exact hmark (by rintro _ ⟨rfl⟩; rfl) rfl (by decide)
      case h_15 =>
        split
        case isTrue hdots =>
          refine hmark ?_ rfl (by decide)
          rintro _ ⟨rfl⟩
          rw [List.take_succ_cons, hdots]
          rfl
        case isFalse => exact hmark (by rintro _ ⟨rfl⟩; rfl) rfl (by decide)
      case h_17 => exact bang_isSpelled rest
      case h_18 =>
        split
        case isTrue hvarName =>
          simp only [Bool.and_eq_true, decide_eq_true_eq] at hvarName
          obtain ⟨rfl, hstart⟩ := hvarName
          exact varName_isSpelled hstart
        split
        case isTrue hsigned =>
          simp only [signed, Bool.and_eq_true, Bool.or_eq_true, decide_eq_true_eq] at hsigned
          exact signed_isSpelled hsigned.1 hsigned.2.1
        split
        case isTrue hminus =>
          subst hminus
          exact hmark (by rintro _ ⟨rfl⟩; rfl) rfl (by decide)
        split
        case isTrue hdigit => simp [isWordPart_of_isDigit hdigit] at hword
        split
        case isTrue hstart => simp [isWordPart_of_isWordStart hstart] at hword
        case isFalse => exact hmark nofun rfl (by decide)
      all_goals exact hmark (by rintro _ ⟨rfl⟩; rfl) rfl (by decide)

end Lexeme

theorem Lexeme.eq_quote_of_stringPiece {first : Char} {rest : Text}
    (hcontent : (stringPiece first rest).kind ≠ .stringContent)
    (hescape : (stringPiece first rest).kind ≠ .escapeSequence) : first = '"' := by
  unfold stringPiece at hcontent hescape
  split at hcontent
  · assumption
  · rename_i hquote
    rw [if_neg hquote] at hescape
    split at hcontent
    · rename_i hbackslash
      rw [if_pos hbackslash] at hescape
      exact absurd rfl hescape
    · exact absurd rfl hcontent

theorem Lexer.Takes.spells {lexer next : Lexer} {piece : Piece} {problem : Option Problem}
    (h : lexer.Takes piece problem next) {kind : Kind} (hkind : piece.kind = .token kind)
    (hcontent : kind ≠ .stringContent) (hescape : kind ≠ .escapeSequence) :
    kind.Spells piece.text next.rest := by
  cases h with
  | trivia => cases hkind
  | @token first rest lexeme hopen htrivia hrest hlexeme =>
      obtain rfl := PieceKind.token.inj hkind
      have hspelled := Lexeme.token_isSpelled lexer.previous first rest
      rw [hlexeme, ← hrest] at hspelled
      exact hspelled
  | @quoted first rest lexeme hopen hrest hlexeme =>
      obtain rfl := PieceKind.token.inj hkind
      subst hlexeme
      obtain rfl := Lexeme.eq_quote_of_stringPiece hcontent hescape
      rw [show Lexeme.stringPiece '"' rest = ⟨.doubleQuote, 0, none⟩ from rfl, Lexer.pieceOf, hrest]
      exact .of_notMem (by rintro _ ⟨rfl⟩; rfl) rfl (by decide) rfl

namespace TokenList

theorem isOpenBehind_of_piece (lexer : Lexer) {before after : List Token} {token : Token}
    (h : (ofLexer lexer).all = before ++ token :: after)
    (hkind : token.kind = .stringContent ∨ token.kind = .escapeSequence) :
    Token.isOpenBehind lexer.openString.isSome before = true := by
  induction before generalizing lexer with
  | nil =>
      rw [all_ofLexer] at h
      obtain ⟨rfl, -⟩ := List.cons.inj h
      have hopen := @Lexer.isOpen_of_piece lexer.trivia.next hkind
      rwa [lexer.trivia_openString] at hopen
  | cons first before ih =>
      rw [all_ofLexer] at h
      obtain ⟨rfl, hrest⟩ := List.cons.inj h
      split at hrest
      · simp at hrest
      · rename_i heof
        rw [Token.isOpenBehind, ← lexer.next_isOpen heof]
        exact ih lexer.next.next hrest

end TokenList

theorem Token.kind_of_outside {text : Text} {before after : List Token} {token : Token}
    (h : tokenize text = before ++ token :: after)
    (houtside : Token.isOpenBehind false before = false) :
    token.kind ≠ .stringContent ∧ token.kind ≠ .escapeSequence := by
  have hopen := TokenList.isOpenBehind_of_piece (Lexer.start text) h
  rw [show (Lexer.start text).openString.isSome = false from rfl, houtside] at hopen
  exact ⟨fun hkind => Bool.false_ne_true (hopen (.inl hkind)),
    fun hkind => Bool.false_ne_true (hopen (.inr hkind))⟩

/-- The text of a token outside of string literals has the form of its kind, and words
are never cut in two. -/
theorem tokenize_spells {text : Text} {before after : List Token} {token : Token}
    (h : tokenize text = before ++ token :: after)
    (houtside : Token.isOpenBehind false before = false) :
    ∃ front behind, text = front ++ token.text ++ behind ∧ token.start = front.size ∧
      token.kind.Spells token.text behind := by
  have hmem : token ∈ tokenize text := by simp [h]
  obtain ⟨hcontent, hescape⟩ := Token.kind_of_outside h houtside
  rcases TokenList.taken_of_mem hmem token.piece_mem_pieces with heof | htaken
  · obtain ⟨hkind, hstart, htext⟩ := Piece.mk.inj heof
    refine ⟨text, [], by simp [htext], hstart, ?_⟩
    rw [PieceKind.token.inj hkind, htext]
    exact .of_notMem nofun rfl (by decide) rfl
  · obtain ⟨lexer, next, problem, front, htakes, htext, hstart, -⟩ := htaken
    exact ⟨front, next.rest, htext, hstart, htakes.spells rfl hcontent hescape⟩

example : BangOperator.all.length = 45 := by decide

def numberInName : Text := "\"12\" 32_bit".toList

theorem tokenize_spells_numberInName :
    ∃ before token, tokenize numberInName = before ++ token :: [.mk [] .eof 11 [] []] ∧
      Token.isOpenBehind false before = false ∧ token.text = "32_bit".toList ∧
      ∃ front behind, numberInName = front ++ token.text ++ behind ∧ token.start = front.size ∧
        token.kind.Spells token.text behind := by
  have hsplit : tokenize numberInName = (tokenize numberInName).take 3 ++
      ⟨[], .identifier, 5, "32_bit".toList, []⟩ :: [⟨[], .eof, 11, [], []⟩] := by decide +kernel
  have hclosed : Token.isOpenBehind false ((tokenize numberInName).take 3) = false := by
    decide +kernel
  exact ⟨_, _, hsplit, hclosed, rfl, tokenize_spells hsplit hclosed⟩

end TdSyntax
