import TdSyntax.Proofs.Token.TriviaForms

/-!
# What is left open at the end of a text

String literals, block comments and code blocks have to be closed.  The lexer reports one
that is not, and it is always the last one that has been opened: a comment or a code block
without an end takes all that is left of the text, and the end of a text inside a string
literal is found only there.
-/

namespace TdSyntax

open Text

/-- Whether a quote stands in the text that no backslash escapes. -/
def Text.hasQuote : Text → Bool
  | [] => false
  | [c] => c == '"'
  | c :: d :: rest =>
      if c = '"' then true else if c = '\\' then hasQuote rest else hasQuote (d :: rest)

inductive Enclosure where
  | string
  | comment
  | code
  deriving DecidableEq, Repr

namespace Enclosure

def opener : Enclosure → Text
  | .string => ['"']
  | .comment => ['/', '*']
  | .code => ['[', '{']

def isClosedIn : Enclosure → Text → Bool
  | .string, text => text.hasQuote
  | .comment, text => decide (['*', '/'] <:+: text)
  | .code, text => decide (['}', ']'] <:+: text)

def problem : Enclosure → Problem
  | .string => .unterminatedString
  | .comment => .unterminatedComment
  | .code => .unterminatedCode

end Enclosure

def Problem.isUnterminated : Problem → Bool
  | .unterminatedString | .unterminatedComment | .unterminatedCode => true
  | _ => false

structure Opening where
  enclosure : Enclosure
  start : Nat
  deriving DecidableEq, Repr

namespace Opening

def behind (opening : Opening) (text : Text) : Text :=
  ((text.splitAt? (opening.start + opening.enclosure.opener.size)).map Prod.snd).getD []

def StandsIn (opening : Opening) (text : Text) : Prop :=
  ∃ front, text = front ++ opening.enclosure.opener ++ opening.behind text ∧
    opening.start = front.size

def isClosed (opening : Opening) (text : Text) : Bool :=
  opening.enclosure.isClosedIn (opening.behind text)

def report (text : Text) (opening : Opening) : Diagnostic :=
  ⟨opening.enclosure.problem, ⟨opening.start, text.size⟩⟩

end Opening

namespace Piece

/-- What a piece opens, if it is known whether a string literal is open in front of it. -/
def opening? (isOpen : Bool) (piece : Piece) : Option Opening :=
  match piece.kind with
  | .trivia .blockComment => some ⟨.comment, piece.start⟩
  | .token .codeBlock => some ⟨.code, piece.start⟩
  | .token .doubleQuote => if isOpen then none else some ⟨.string, piece.start⟩
  | _ => none

def isOpenBehind (isOpen : Bool) (piece : Piece) : Bool :=
  if piece.kind = .token .doubleQuote then !isOpen else isOpen

def openings : Bool → List Piece → List Opening
  | _, [] => []
  | isOpen, first :: rest =>
      (first.opening? isOpen).toList ++ openings (first.isOpenBehind isOpen) rest

theorem getLast?_openings_cons (isOpen : Bool) (first : Piece) (rest : List Piece)
    (seen : Option Opening) :
    (openings isOpen (first :: rest)).getLast?.or seen =
      (openings (first.isOpenBehind isOpen) rest).getLast?.or
        ((first.opening? isOpen).or seen) := by
  rw [openings, List.getLast?_append, Option.or_assoc]
  cases first.opening? isOpen <;> rfl

theorem openings_eof (isOpen : Bool) (pieces : List Piece) (offset : Nat) :
    openings isOpen (pieces ++ [.eof offset]) = openings isOpen pieces := by
  induction pieces generalizing isOpen with
  | nil => rfl
  | cons first rest ih => rw [List.cons_append, openings, openings, ih]

end Piece

/-- What the lexer opens in a text. -/
def Text.openings (text : Text) : List Opening :=
  Piece.openings false ((tokenize text).flatMap Token.pieces)

/-- What is left open at the end of a text. -/
def Text.leftOpen? (text : Text) : Option Opening :=
  text.openings.getLast?.filter fun opening => !opening.isClosed text

namespace Text

theorem hasQuote_quote (rest : Text) : hasQuote ('"' :: rest) = true := by
  cases rest <;> simp [hasQuote]

theorem hasQuote_plain {c : Char} (h : Quoted.isPlain c = true) (rest : Text) :
    hasQuote (c :: rest) = hasQuote rest := by
  simp only [Quoted.isPlain, Quoted.isSpecial, Bool.not_eq_true', Bool.or_eq_false_iff,
    beq_eq_false_iff_ne] at h
  cases rest <;> simp [hasQuote, h.1, h.2]

theorem hasQuote_append {front : Text} (h : front.all Quoted.isPlain = true) (rest : Text) :
    hasQuote (front ++ rest) = hasQuote rest := by
  induction front with
  | nil => rfl
  | cons c front ih =>
      simp only [List.all_cons, Bool.and_eq_true] at h
      rw [List.cons_append, hasQuote_plain h.1, ih h.2]

end Text

namespace Escape

theorem isPlain_of_isHexDigit {c : Char} (h : isHexDigit c = true) : Quoted.isPlain c = true := by
  have hpart := isWordPart_of_isHexDigit h
  simp only [Quoted.isPlain, Quoted.isSpecial, Bool.not_eq_true', Bool.or_eq_false_iff,
    beq_eq_false_iff_ne]
  constructor <;> (rintro rfl; exact absurd hpart (by decide))

theorem take_runLength_take {member : Char → Bool}
    (hplain : ∀ {c}, member c = true → Quoted.isPlain c = true) (limit : Nat) (text : Text) :
    (text.take (runLength member (text.take limit))).all Quoted.isPlain = true := by
  have hle : runLength member (text.take limit) ≤ limit :=
    Nat.le_trans (runLength_le _ _) (List.length_take_le limit text)
  have htake : text.take (runLength member (text.take limit)) =
      (text.take limit).takeWhile member := by
    rw [← take_runLength, List.take_take, Nat.min_eq_left hle]
  rw [htake]
  exact List.all_eq_true.2 fun c hmem => hplain (List.mem_takeWhile_imp hmem)

theorem take_hexRun (limit : Nat) (text : Text) :
    (text.take (hexRun limit text)).all Quoted.isPlain = true :=
  take_runLength_take isPlain_of_isHexDigit limit text

theorem isPlain_of_isOctalDigit {c : Char} (h : isOctalDigit c = true) :
    Quoted.isPlain c = true := by
  simp only [Quoted.isPlain, Quoted.isSpecial, Bool.not_eq_true', Bool.or_eq_false_iff,
    beq_eq_false_iff_ne]
  constructor <;> (rintro rfl; exact absurd h (by decide))

theorem extent_braces (rest : Text) :
    ∃ count, (extent ('u' :: '{' :: rest)).1 = count + 2 ∧
      (rest.take count).all Quoted.isPlain = true := by
  have hdigits : (rest.take (runLength isHexDigit rest)).all Quoted.isPlain = true := by
    rw [take_runLength]
    exact List.all_eq_true.2 fun c hmem => isPlain_of_isHexDigit (List.mem_takeWhile_imp hmem)
  cases hclosed : (rest.drop (runLength isHexDigit rest)).head? == some '}' with
  | false =>
      refine ⟨runLength isHexDigit rest, ?_, hdigits⟩
      simp only [extent, hclosed, Bool.toNat_false]
      omega
  | true =>
      refine ⟨runLength isHexDigit rest + 1, ?_, ?_⟩
      · simp only [extent, hclosed, Bool.toNat_true]
        omega
      · rw [beq_iff_eq, List.head?_drop] at hclosed
        rw [List.take_add_one, hclosed, List.all_append, hdigits]
        rfl

theorem extent_cons (c : Char) (rest : Text) :
    ∃ count, (extent (c :: rest)).1 = count + 1 ∧
      (rest.take count).all Quoted.isPlain = true := by
  by_cases hx : c = 'x'
  · subst hx
    exact ⟨hexRun 2 rest, Nat.add_comm _ _, take_hexRun 2 rest⟩
  by_cases hu : c = 'u'
  · subst hu
    by_cases hbrace : rest.head? = some '{'
    · obtain ⟨rest, rfl⟩ : ∃ more, rest = '{' :: more := List.head?_eq_some_iff.1 hbrace
      obtain ⟨count, hcount, hplain⟩ := extent_braces rest
      exact ⟨count + 1, hcount, by rw [List.take_succ_cons, List.all_cons, hplain]; rfl⟩
    · rw [extent_unicode hbrace]
      exact ⟨hexRun 4 rest, Nat.add_comm _ _, take_hexRun 4 rest⟩
  by_cases hU : c = 'U'
  · subst hU
    have hdigits := take_hexRun 8 rest
    simp only [extent]
    split
    · rename_i height
      exact ⟨8, rfl, height ▸ hdigits⟩
    · exact ⟨0, rfl, rfl⟩
  rw [extent_simple hx hu hU]
  split
  · rename_i hoctal
    refine ⟨runLength isOctalDigit (rest.take 2), ?_,
      take_runLength_take isPlain_of_isOctalDigit 2 rest⟩
    simp [runLength, hoctal]
  · exact ⟨0, rfl, rfl⟩

end Escape

theorem Directive.Spells.eq_of_mem {directive : Directive} {text behind : Text}
    {problems : List Problem} (h : directive.Spells behind text problems) {problem : Problem}
    (hmem : problem ∈ problems) : problem = .missingMacroName directive := by
  cases h with
  | bare => cases hmem
  | named => cases hmem
  | nameless => exact List.mem_singleton.1 hmem

namespace Text.EndsAtFirst

variable {one two : Char} {text behind : Text}

theorem infix_append_iff (h : EndsAtFirst one two text behind) :
    [one, two] <:+: text ++ behind ↔ [one, two] <:+: text := by
  refine ⟨fun hinside => ?_, fun hinside => hinside.trans (List.prefix_append _ _).isInfix⟩
  cases h with
  | closed inner behind => exact (List.suffix_append _ _).isInfix
  | unclosed text hnot => rwa [List.append_nil] at hinside

theorem behind_eq_nil (h : EndsAtFirst one two text behind) (hnot : ¬ [one, two] <:+: text) :
    behind = [] := by
  cases h with
  | closed inner behind => exact absurd (List.suffix_append _ _).isInfix hnot
  | unclosed => rfl

end Text.EndsAtFirst

theorem Lexeme.stringPiece_hasQuote {first : Char} {rest : Text}
    (h : (stringPiece first rest).kind ≠ .doubleQuote) :
    hasQuote ((first :: rest).drop ((stringPiece first rest).tail + 1)) =
      hasQuote (first :: rest) := by
  have hskip {count : Nat} {text : Text} (hplain : (text.take count).all Quoted.isPlain = true) :
      hasQuote (text.drop count) = hasQuote text := by
    have hsame := hasQuote_append hplain (text.drop count)
    rw [List.take_append_drop] at hsame
    exact hsame.symm
  rw [List.drop_succ_cons]
  by_cases hquote : first = '"'
  · simp [stringPiece, hquote] at h
  by_cases hbackslash : first = '\\'
  · subst hbackslash
    have htail : (stringPiece '\\' rest).tail = (Escape.extent rest).1 := rfl
    rw [htail]
    cases rest with
    | nil => rfl
    | cons c rest =>
        obtain ⟨count, hcount, hplain⟩ := Escape.extent_cons c rest
        rw [hcount, List.drop_succ_cons, hskip hplain]
        simp [hasQuote]
  · have hfirst : Quoted.isPlain first = true := by
      simp [Quoted.isPlain, Quoted.isSpecial, hquote, hbackslash]
    simp only [stringPiece, if_neg hquote, if_neg hbackslash]
    rw [hasQuote_plain hfirst]
    refine hskip (List.all_eq_true.2 fun c hmem => ?_)
    rw [take_runLength] at hmem
    have hc := List.mem_takeWhile_imp hmem
    simpa [Quoted.isPlain, Quoted.isSpecial] using hc

namespace Lexeme

variable {previous : Option Char} {first : Char} {rest : Text}

theorem token_problem (h : (token previous first rest).kind ≠ .codeBlock) :
    ∀ problem ∈ (token previous first rest).problem, problem.isUnterminated = false := by
  revert h
  unfold token
  extract_lets signed single
  split
  case h_3 =>
    split
    · exact fun h => absurd (codeBlock_kind rest) h
    · simp [single]
  case h_15 => split <;> simp [single]
  case h_17 =>
    simp only [bang]
    repeat' split
    all_goals simp
  case h_18 =>
    repeat' split
    case isFalse.isFalse.isFalse.isTrue =>
      simp only [numberOrName]
      split <;> simp
    case isFalse.isFalse.isFalse.isFalse.isTrue => simp [word]
    all_goals simp [single, Problem.isUnterminated]
  all_goals simp [single]

theorem token_code_problem {more : Text} (h : first :: rest = '[' :: '{' :: more) :
    (token previous first rest).problem =
      if ['}', ']'] <:+: more then none else some .unterminatedCode := by
  obtain ⟨rfl, rfl⟩ := List.cons.inj h
  have hblock : token previous '[' ('{' :: more) = codeBlock ('{' :: more) := by simp [token]
  rw [hblock]
  unfold codeBlock
  rw [List.drop_succ_cons, List.drop_zero]
  cases hpair : lengthThroughPair? '}' ']' more with
  | some count =>
      obtain ⟨inner, behind, rfl, -, -⟩ := lengthThroughPair?_eq_some hpair
      rw [if_pos ⟨inner, behind, by simp⟩]
  | none => rw [if_neg (lengthThroughPair?_eq_none_iff.1 hpair)]

end Lexeme

namespace Lexer

/-- What a lexeme does to the enclosures of a text. -/
inductive Meets (lexer next : Lexer) (piece : Piece) (problem : Option Problem) : Prop
  | nothing (hopening : piece.opening? lexer.openString.isSome = none)
      (hclean : ∀ other ∈ problem, other.isUnterminated = false)
      (hopen : next.openString = lexer.openString)
      (hinside : lexer.openString.isSome = true → next.rest.hasQuote = lexer.rest.hasQuote)
  | closing (hstart : lexer.openString.isSome = true)
      (hopening : piece.opening? lexer.openString.isSome = none)
      (hclean : ∀ other ∈ problem, other.isUnterminated = false)
      (hopen : next.openString = none) (hquote : lexer.rest.hasQuote = true)
  | opening (hopening : piece.opening? lexer.openString.isSome = some ⟨.string, lexer.offset⟩)
      (hclean : ∀ other ∈ problem, other.isUnterminated = false)
      (hopen : next.openString = some lexer.offset) (hrest : lexer.rest = '"' :: next.rest)
  | enclosed {enclosure : Enclosure} {body : Text}
      (hopening : piece.opening? lexer.openString.isSome = some ⟨enclosure, lexer.offset⟩)
      (hopen : next.openString = none) (hrest : lexer.rest = enclosure.opener ++ body ++ next.rest)
      (hproblem : problem =
        if enclosure.isClosedIn (body ++ next.rest) then none else some enclosure.problem)
      (hends : enclosure.isClosedIn (body ++ next.rest) = false → next.rest = [])

variable {lexer next last : Lexer} {piece : Piece} {problem : Option Problem}
  {pieces : List Piece} {reports : List Diagnostic}

theorem Meets.of_endsAtFirst {enclosure : Enclosure} {one two : Char} {body : Text}
    (hcloses : ∀ text, enclosure.isClosedIn text = decide ([one, two] <:+: text))
    (hopening : piece.opening? lexer.openString.isSome = some ⟨enclosure, lexer.offset⟩)
    (hopen : next.openString = none) (hrest : lexer.rest = enclosure.opener ++ body ++ next.rest)
    (hends : EndsAtFirst one two body next.rest)
    (hproblem : problem = if [one, two] <:+: body then none else some enclosure.problem) :
    lexer.Meets next piece problem := by
  have hclosed : enclosure.isClosedIn (body ++ next.rest) = decide ([one, two] <:+: body) := by
    rw [hcloses, decide_eq_decide, hends.infix_append_iff]
  refine .enclosed hopening hopen hrest ?_ fun hnot => ?_
  · simpa [hclosed] using hproblem
  · exact hends.behind_eq_nil (by simpa [hclosed] using hnot)

theorem meets_trivia {lexeme : Lexeme TriviaKind} (hopen : lexer.openString = none)
    (hlexeme : Lexeme.trivia? lexer.rest = some lexeme) :
    lexer.Meets (lexer.advance (lexeme.tail + 1))
      (lexer.pieceOf (.trivia lexeme.kind) lexeme.tail) lexeme.problem := by
  have hspells := Lexeme.trivia?_spells hlexeme
  have hinside : lexer.openString.isSome = true →
      (lexer.advance (lexeme.tail + 1)).rest.hasQuote = lexer.rest.hasQuote := by
    simp [hopen]
  cases hkind : lexeme.kind with
  | whitespace =>
      rw [hkind] at hspells
      have hnone := Option.toList_eq_nil_iff.1 hspells.1
      exact .nothing rfl (by simp [hnone]) rfl hinside
  | lineComment =>
      rw [hkind] at hspells
      have hnone := Option.toList_eq_nil_iff.1 hspells.1
      exact .nothing rfl (by simp [hnone]) rfl hinside
  | blockComment =>
      rw [hkind] at hspells
      obtain ⟨body, htext, hends, hproblems⟩ := hspells
      have hrest := List.take_append_drop (lexeme.tail + 1) lexer.rest
      rw [htext] at hrest
      refine .of_endsAtFirst (fun _ => rfl) rfl hopen hrest.symm hends ?_
      split at hproblems
      · rename_i hinside
        rw [if_pos hinside, Option.toList_eq_nil_iff.1 hproblems]
      · rename_i hinside
        rw [if_neg hinside, Option.toList_eq_singleton_iff.1 hproblems]
        rfl
  | directive =>
      rw [hkind] at hspells
      obtain ⟨directive, hdirective⟩ := hspells
      refine .nothing rfl (fun other hmem => ?_) rfl hinside
      obtain rfl := hdirective.eq_of_mem (Option.mem_toList.2 hmem)
      rfl

theorem meets_token {first : Char} {rest : Text} (hopen : lexer.openString = none)
    (hrest : lexer.rest = first :: rest) :
    lexer.Meets (lexer.behindLexeme (Lexeme.token lexer.previous first rest))
      (lexer.pieceOf (.token (Lexeme.token lexer.previous first rest).kind)
        (Lexeme.token lexer.previous first rest).tail)
      (Lexeme.token lexer.previous first rest).problem := by
  have hspelled := Lexeme.token_isSpelled lexer.previous first rest
  have hproblem := @Lexeme.token_problem lexer.previous first rest
  have hcode := @Lexeme.token_code_problem lexer.previous first rest
  generalize Lexeme.token lexer.previous first rest = lexeme at hspelled hproblem hcode ⊢
  rw [Lexeme.IsSpelled, ← hrest] at hspelled
  have hparts := List.take_append_drop (lexeme.tail + 1) lexer.rest
  have hbehind : (lexer.behindLexeme lexeme).rest = lexer.rest.drop (lexeme.tail + 1) := rfl
  have hnext : (lexer.behindLexeme lexeme).openString = lexer.toggle lexeme.kind := rfl
  rw [← hbehind] at hparts
  by_cases hblock : lexeme.kind = .codeBlock
  · obtain ⟨body, htext, hends⟩ := hspelled.code hblock
    rw [htext] at hparts
    rw [hcode (hrest.symm.trans hparts.symm)]
    have hopening : (lexer.pieceOf (.token lexeme.kind) lexeme.tail).opening?
        lexer.openString.isSome = some ⟨.code, lexer.offset⟩ := by
      simp [Piece.opening?, pieceOf, hblock]
    refine .of_endsAtFirst (fun _ => rfl) hopening ?_ hparts.symm hends ?_
    · simp [hnext, toggle, hblock, hopen]
    · rw [hbehind]
      exact if_congr hends.infix_append_iff rfl rfl
  by_cases hquote : lexeme.kind = .doubleQuote
  · have htext : lexer.rest.take (lexeme.tail + 1) = ['"'] :=
      hspelled.mark "\"" (by rw [hquote]; rfl)
    rw [htext] at hparts
    refine .opening ?_ (hproblem hblock) ?_ hparts.symm
    · simp [Piece.opening?, pieceOf, hquote, hopen]
    · simp [hnext, toggle, hquote, hopen]
  · refine .nothing ?_ (hproblem hblock) ?_ (by simp [hopen])
    · simp [Piece.opening?, pieceOf, hblock, hquote]
    · simp [hnext, toggle, hquote]

theorem meets_quoted {first : Char} {rest : Text} (hopen : lexer.openString.isSome = true)
    (hrest : lexer.rest = first :: rest) :
    lexer.Meets (lexer.behindLexeme (Lexeme.stringPiece first rest))
      (lexer.pieceOf (.token (Lexeme.stringPiece first rest).kind)
        (Lexeme.stringPiece first rest).tail) (Lexeme.stringPiece first rest).problem := by
  have hclean : ∀ other ∈ (Lexeme.stringPiece first rest).problem,
      other.isUnterminated = false := by
    unfold Lexeme.stringPiece
    split
    · nofun
    · split
      · intro other hmem
        simp only at hmem
        split at hmem <;> cases hmem
        rfl
      · nofun
  have hinside := @Lexeme.stringPiece_hasQuote first rest
  have hends := @Lexeme.eq_quote_of_stringPiece first rest
  have hquoted := Lexeme.stringPiece_quoted first rest
  generalize Lexeme.stringPiece first rest = lexeme at hclean hinside hends hquoted ⊢
  rw [← hrest] at hinside
  have hnext : (lexer.behindLexeme lexeme).openString = lexer.toggle lexeme.kind := rfl
  by_cases hquote : lexeme.kind = .doubleQuote
  · obtain rfl := hends (by simp [hquote]) (by simp [hquote])
    refine .closing hopen ?_ hclean ?_ (by rw [hrest, hasQuote_quote])
    · simp [Piece.opening?, pieceOf, hquote, hopen]
    · simp [hnext, toggle, hquote, hopen]
  · refine .nothing ?_ hclean ?_ fun _ => hinside hquote
    · have hkind : lexeme.kind = .stringContent ∨ lexeme.kind = .escapeSequence := by
        simpa [Kind.Set.quoted, hquote] using hquoted
      rcases hkind with hkind | hkind <;> simp [Piece.opening?, pieceOf, hkind]
    · simp [hnext, toggle, hquote]

theorem Takes.meets (h : lexer.Takes piece problem next) : lexer.Meets next piece problem := by
  cases h with
  | trivia hopen hlexeme => exact meets_trivia hopen hlexeme
  | token hopen htrivia hrest hlexeme =>
      subst hlexeme
      exact meets_token hopen hrest
  | quoted hopen hrest hlexeme =>
      subst hlexeme
      exact meets_quoted hopen hrest

theorem Takes.isOpen (h : lexer.Takes piece problem next) :
    next.openString.isSome = piece.isOpenBehind lexer.openString.isSome := by
  have hbehind {lexeme : Lexeme Kind} : (lexer.behindLexeme lexeme).openString.isSome =
      (lexer.pieceOf (.token lexeme.kind) lexeme.tail).isOpenBehind lexer.openString.isSome := by
    rw [behindLexeme, toggle_isSome]
    simp [Piece.isOpenBehind, pieceOf]
  cases h with
  | trivia => rfl
  | token => exact hbehind
  | quoted => exact hbehind

/-- A lexer at its place in a text, and the last enclosure that has been opened in front
of it: it is closed, unless it is the open string literal. -/
structure Remembers (lexer : Lexer) (text : Text) (seen : Option Opening) : Prop where
  place : ∃ front, text = front ++ lexer.rest ∧ lexer.offset = front.size
  closed : lexer.openString = none → ∀ opening ∈ seen, opening.isClosed text = true
  opened : ∀ start, lexer.openString = some start →
    seen = some ⟨.string, start⟩ ∧ Opening.isClosed ⟨.string, start⟩ text = lexer.rest.hasQuote

inductive Leads (lexer next : Lexer) (problem : Option Problem) (text : Text)
    (seen : Option Opening) : Prop
  | on (hclean : ∀ other ∈ problem, other.isUnterminated = false) (hseen : next.Remembers text seen)
  | out {opening : Opening} (hrest : next.rest = []) (hopen : next.openString = none)
      (hseen : seen = some opening) (hclosed : opening.isClosed text = false)
      (hreport : lexer.diagnose next problem = [opening.report text])

end Lexer

theorem Opening.behind_eq (opening : Opening) {text front behind : Text}
    (htext : text = front ++ opening.enclosure.opener ++ behind)
    (hstart : opening.start = front.size) : opening.behind text = behind := by
  have hsize : opening.start + opening.enclosure.opener.size =
      Text.size (front ++ opening.enclosure.opener) := by
    rw [hstart, Text.size_append]
  rw [Opening.behind, hsize, htext, Text.splitAt?_size]
  rfl

namespace Lexer

variable {lexer next last : Lexer} {piece : Piece} {problem : Option Problem}
  {pieces : List Piece} {reports : List Diagnostic} {text : Text} {seen : Option Opening}

theorem Meets.standsIn (h : lexer.Meets next piece problem) {front : Text}
    (htext : text = front ++ lexer.rest) (hoffset : lexer.offset = front.size) :
    ∀ opening ∈ piece.opening? lexer.openString.isSome, opening.StandsIn text := by
  have hstands {enclosure : Enclosure} {behind : Text}
      (hrest : lexer.rest = enclosure.opener ++ behind) :
      Opening.StandsIn ⟨enclosure, lexer.offset⟩ text := by
    have hwhole : text = front ++ enclosure.opener ++ behind := by
      rw [htext, hrest, List.append_assoc]
    refine ⟨front, ?_, hoffset⟩
    rw [Opening.behind_eq ⟨enclosure, lexer.offset⟩ hwhole hoffset]
    exact hwhole
  cases h with
  | nothing hopening => simp [hopening]
  | closing hstart hopening => simp [hopening]
  | opening hopening hclean hopen hrest =>
      intro opening hmem
      rw [hopening, Option.mem_some_iff] at hmem
      exact hmem ▸ hstands hrest
  | enclosed hopening hopen hrest =>
      intro opening hmem
      rw [hopening, Option.mem_some_iff] at hmem
      exact hmem ▸ hstands (hrest.trans (List.append_assoc _ _ _))

theorem Remembers.leads (hseen : lexer.Remembers text seen) (h : lexer.Takes piece problem next) :
    lexer.Leads next problem text ((piece.opening? lexer.openString.isSome).or seen) := by
  obtain ⟨front, htext, hoffset⟩ := hseen.place
  have hplace : ∃ front, text = front ++ next.rest ∧ next.offset = front.size := by
    refine ⟨front ++ piece.text, ?_, ?_⟩
    · rw [htext, h.reaches.rest, List.append_assoc]
    · rw [h.reaches.offset, hoffset, Text.size_append]
  have hbehind {enclosure : Enclosure} {behind : Text}
      (hrest : lexer.rest = enclosure.opener ++ behind) :
      Opening.isClosed ⟨enclosure, lexer.offset⟩ text = enclosure.isClosedIn behind := by
    rw [Opening.isClosed, Opening.behind_eq ⟨enclosure, lexer.offset⟩ ?_ hoffset]
    rw [htext, hrest, List.append_assoc]
  cases h.meets with
  | nothing hopening hclean hopen hinside =>
      rw [hopening, Option.none_or]
      refine .on hclean ⟨hplace, fun hnone => hseen.closed (hopen ▸ hnone), fun start hstart => ?_⟩
      rw [hopen] at hstart
      obtain ⟨hlast, hclosed⟩ := hseen.opened start hstart
      exact ⟨hlast, hclosed.trans (hinside (by simp [hstart])).symm⟩
  | closing hstart hopening hclean hopen hquote =>
      rw [hopening, Option.none_or]
      obtain ⟨start, hstart⟩ := Option.isSome_iff_exists.1 hstart
      obtain ⟨rfl, hclosed⟩ := hseen.opened start hstart
      refine .on hclean ⟨hplace, fun _ opening hmem => ?_, by simp [hopen]⟩
      obtain rfl := Option.mem_some_iff.1 hmem
      rw [hclosed, hquote]
  | opening hopening hclean hopen hrest =>
      rw [hopening, Option.some_or]
      refine .on hclean ⟨hplace, by simp [hopen], fun start hstart => ?_⟩
      obtain rfl := Option.some.inj (hopen.symm.trans hstart)
      exact ⟨rfl, hbehind hrest⟩
  | @enclosed enclosure body hopening hopen hrest hproblem hends =>
      rw [hopening, Option.some_or]
      have hisClosed := hbehind (hrest.trans (List.append_assoc _ _ _))
      cases hclosed : enclosure.isClosedIn (body ++ next.rest) with
      | true =>
          rw [hclosed] at hproblem hisClosed
          refine .on (by simp [hproblem]) ⟨hplace, fun _ opening hmem => ?_, by simp [hopen]⟩
          rw [← Option.mem_some_iff.1 hmem, hisClosed]
      | false =>
          have hrestNil := hends hclosed
          rw [hclosed] at hproblem hisClosed
          refine .out hrestNil hopen rfl hisClosed ?_
          obtain ⟨before, hbefore, hstop⟩ := hplace
          rw [hrestNil, List.append_nil] at hbefore
          rw [hproblem, hbefore, Opening.report, ← hstop]
          rfl

theorem Remembers.leftOpen_eq (hseen : lexer.Remembers text seen) (hlast : lexer.rest = []) :
    lexer.leftOpen =
      (seen.filter fun opening => !opening.isClosed text).toList.map (Opening.report text) := by
  obtain ⟨front, htext, hoffset⟩ := hseen.place
  rw [hlast, List.append_nil] at htext
  subst htext
  cases hopen : lexer.openString with
  | none =>
      have hnone : seen.filter (fun opening => !opening.isClosed text) = none := by
        rw [Option.filter_eq_none_iff]
        intro opening hmem
        simp [hseen.closed hopen opening hmem]
      simp [leftOpen, hopen, hnone]
  | some start =>
      obtain ⟨rfl, hclosed⟩ := hseen.opened start hopen
      rw [hlast] at hclosed
      simp [leftOpen, hopen, Option.filter_some, hclosed, hasQuote, Opening.report, hoffset,
        Enclosure.problem]

/-- A whole path to the end of the text: only the last enclosure can be reported, and it is
if it is not closed. -/
theorem Path.reports_eq (h : lexer.Path pieces reports last) (hlast : last.rest = [])
    (hseen : lexer.Remembers text seen) :
    ∃ others, (∀ report ∈ others, report.problem.isUnterminated = false) ∧
      reports ++ last.leftOpen = others ++
        (((Piece.openings lexer.openString.isSome pieces).getLast?.or seen).filter
          fun opening => !opening.isClosed text).toList.map (Opening.report text) := by
  induction h generalizing seen with
  | nil lexer => exact ⟨[], nofun, hseen.leftOpen_eq hlast⟩
  | @cons lexer middle last piece problem pieces reports hfirst hrest ih =>
      rw [Piece.getLast?_openings_cons, ← hfirst.isOpen, List.append_assoc]
      cases hseen.leads hfirst with
      | on hclean hnext =>
          obtain ⟨others, hothers, heq⟩ := ih hlast hnext
          refine ⟨lexer.diagnose middle problem ++ others,
            List.forall_mem_append.2 ⟨fun report hmem => ?_, hothers⟩, ?_⟩
          · obtain ⟨other, hother, rfl⟩ := List.mem_map.1 hmem
            exact hclean other (Option.mem_toList.1 hother)
          · rw [heq, List.append_assoc]
      | out hnil hopen hlastSeen hclosed hreport =>
          cases hrest with
          | cons hsecond =>
              have htaken := hsecond.reaches.rest
              rw [hnil] at htaken
              exact absurd (List.append_eq_nil_iff.1 htaken.symm).1 hsecond.text_ne_nil
          | nil =>
              refine ⟨[], nofun, ?_⟩
              rw [hreport, hlastSeen]
              simp [leftOpen, hopen, Piece.openings, Option.filter_some, hclosed]

end Lexer

namespace Text

theorem openings_standIn {lexer last : Lexer} {pieces : List Piece} {reports : List Diagnostic}
    {text : Text} (h : lexer.Path pieces reports last) (front : Text)
    (htext : text = front ++ lexer.rest) (hoffset : lexer.offset = front.size) :
    ∀ opening ∈ Piece.openings lexer.openString.isSome pieces, opening.StandsIn text := by
  induction h generalizing front with
  | nil => nofun
  | @cons lexer middle last piece problem pieces reports hfirst hrest ih =>
      rw [Piece.openings, ← hfirst.isOpen]
      refine List.forall_mem_append.2 ⟨fun opening hmem => ?_, ih (front ++ piece.text) ?_ ?_⟩
      · exact hfirst.meets.standsIn htext hoffset opening (Option.mem_toList.1 hmem)
      · rw [htext, hfirst.reaches.rest, List.append_assoc]
      · rw [hfirst.reaches.offset, hoffset, Text.size_append]

end Text

namespace TokenStream

def after (stream : TokenStream) : Nat → TokenStream
  | 0 => stream
  | count + 1 => stream.next.2.after count

theorem Runs.pending_after {stream : TokenStream} {lexer : Lexer} (h : stream.Runs lexer)
    (before : List Diagnostic) (hpending : stream.pending = before ++ lexer.next.diagnostics)
    {count : Nat} (hcount : (TokenList.ofLexer lexer).all.length ≤ count + 1) :
    (stream.after count).pending = before ++ (TokenList.ofLexer lexer).diagnostics := by
  -- each step moves what it finds to the pending reports; at the end it finds nothing more
  induction count generalizing stream lexer before with
  | zero =>
      have heof : lexer.next.token.kind = .eof := by
        by_contra hkind
        rw [TokenList.all_ofLexer, if_neg hkind, TokenList.all_ofLexer] at hcount
        simp at hcount
      rw [after, hpending, TokenList.ofLexer_of_eof heof]
  | succ count ih =>
      have hnext : stream.next.2.pending =
          (before ++ lexer.next.diagnostics) ++ lexer.next.next.next.diagnostics := by
        rw [← hpending, ← h.behind]
        rfl
      by_cases hkind : lexer.next.token.kind = .eof
      · have hstays := (Lexer.next_of_eof hkind).2.2
        have hlast : lexer.next.next.next.token.kind = .eof := by rw [hstays]
        have hrest := ih h.next _ hnext (by rw [TokenList.all_ofLexer, if_pos hlast]; simp)
        rw [after, hrest, TokenList.ofLexer_of_eof hlast, TokenList.ofLexer_of_eof hkind, hstays,
          List.append_nil]
      · have hrest := ih h.next _ hnext (by
          rw [TokenList.all_ofLexer, if_neg hkind, List.length_cons] at hcount
          omega)
        rw [after, hrest, TokenList.ofLexer_of_ne_eof hkind, List.append_assoc]

end TokenStream

/-- At most one enclosure is reported to be without its end: the last one that the lexer
opens, as the last report, if the text behind its opener does not close it.  A stream that
has gone to the end of the text has reported it once. -/
theorem tokenize_leftOpen (text : Text) :
    (∀ opening ∈ text.openings, opening.StandsIn text) ∧
      (∃ others, (∀ report ∈ others, report.problem.isUnterminated = false) ∧
        (TokenList.ofText text).diagnostics =
          others ++ text.leftOpen?.toList.map (Opening.report text)) ∧
      ∀ count, (tokenize text).length ≤ count + 1 →
        ((TokenStream.ofText text).after count).pending = (TokenList.ofText text).diagnostics := by
  obtain ⟨pieces, reports, last, hpath, hlast, hpieces, hreports⟩ :=
    TokenList.ofLexer_path (Lexer.start text)
  have hopenings : text.openings = Piece.openings false pieces := by
    rw [openings, show (tokenize text).flatMap Token.pieces = _ from hpieces, Piece.openings_eof]
  refine ⟨?_, ?_, ?_⟩
  · rw [hopenings]
    exact openings_standIn hpath [] rfl rfl
  · have hseen : (Lexer.start text).Remembers text none :=
      ⟨⟨[], rfl, rfl⟩, fun _ => nofun, nofun⟩
    obtain ⟨others, hothers, heq⟩ := hpath.reports_eq hlast hseen
    refine ⟨others, hothers, ?_⟩
    rw [leftOpen?, hopenings]
    rw [Option.or_none] at heq
    exact hreports.trans heq
  · intro count hcount
    have hruns : (TokenStream.ofText text).Runs (Lexer.start text) := ⟨rfl, rfl⟩
    exact hruns.pending_after [] rfl hcount

end TdSyntax
