import TdSyntax.Proofs.Token.Number
import TdSyntax.Proofs.Tree.Bare
import TdSyntax.Token.Lexeme

/-!
# Atoms of printed terms

A printed term is a list of atoms with a single space between any two of them.  An
atom is a token or a whole string literal, which is several tokens without anything
between them.  The texts of names, numbers, variables and code carry the proof that
the lexer reads them as one token.
-/

namespace TdSyntax

/-- A name: a word that is neither a keyword nor a number.  It may start with digits. -/
@[ext] structure Name where
  text : Text
  isWord : (text.all Text.isWordPart && text.any Text.isWordStart) = true
  notNumber : Number.isUnsigned text = false
  notKeyword : Kind.ofKeyword? (String.ofList text) = none

@[ext] structure IntegerText where
  text : Text
  isNumber : (Number.isUnsigned text || Number.isSigned text) = true

@[ext] structure VarName where
  text : Text
  startsWord : text.head?.any Text.isWordStart = true
  isWord : text.all Text.isWordPart = true

/-- What stands between the delimiters of a code block. -/
@[ext] structure CodeText where
  text : Text
  isOpen : ¬ ['}', ']'] <:+: text

/-- The kinds of the punctuation marks and keywords that terms are written with. -/
@[reducible] def Kind.isMark : Kind → Bool
  | .leftParen | .rightParen | .leftBracket | .rightBracket | .leftBrace | .rightBrace
  | .leftAngle | .rightAngle | .comma | .semicolon | .colon | .eq | .hash | .question | .dot
  | .ellipsis | .minus | .assertKw | .bitKw | .bitsKw | .classKw | .codeKw | .dagKw | .defKw
  | .defmKw | .defsetKw | .defvarKw | .elseKw | .falseKw | .fieldKw | .foreachKw | .ifKw
  | .inKw | .includeKw | .intKw | .letKw | .listKw | .multiclassKw | .stringKw | .thenKw
  | .trueKw => true
  | _ => false

inductive Atom where
  | mark (kind : Kind) (h : kind.isMark = true := by exact Eq.refl true)
  | name (content : Name)
  | integer (content : IntegerText)
  | varName (content : VarName)
  | code (content : CodeText)
  | operator (content : BangOperator)
  | condOperator
  | quoted (content : Text)

namespace Quoted

def isSpecial (c : Char) : Bool := c == '"' || c == '\\'

def isPlain (c : Char) : Bool := !isSpecial c

def escape (content : Text) : Text :=
  content.flatMap fun c => if isSpecial c then ['\\', c] else [c]

def pieces (content : Text) : List Word :=
  match content with
  | [] => []
  | c :: rest =>
      if isSpecial c then ⟨.escapeSequence, ['\\', c]⟩ :: pieces rest
      else ⟨.stringContent, c :: rest.takeWhile isPlain⟩ :: pieces (rest.dropWhile isPlain)
termination_by content.length
decreasing_by
  · simp
  · have := (List.dropWhile_suffix isPlain (l := rest)).length_le
    simp only [List.length_cons]
    omega

def quote : Word := ⟨.doubleQuote, ['"']⟩

end Quoted

namespace Atom

def word : Atom → Word
  | .mark kind _ => ⟨kind, (kind.spelling?.getD "").toList⟩
  | .name content => ⟨.identifier, content.text⟩
  | .integer content => ⟨.integerLiteral, content.text⟩
  | .varName content => ⟨.varName, '$' :: content.text⟩
  | .code content => ⟨.codeBlock, '[' :: '{' :: (content.text ++ ['}', ']'])⟩
  | .operator content => ⟨.bangOperator, content.spelling.toList⟩
  | .condOperator => ⟨.condOperator, "!cond".toList⟩
  | .quoted _ => Quoted.quote

def kind (atom : Atom) : Kind := atom.word.kind

@[simp] theorem kind_mark (kind : Kind) (h : kind.isMark = true) : (mark kind h).kind = kind := rfl

@[simp] theorem kind_name (content : Name) : (name content).kind = .identifier := rfl

@[simp] theorem kind_integer (content : IntegerText) :
    (integer content).kind = .integerLiteral := rfl

@[simp] theorem kind_varName (content : VarName) : (varName content).kind = .varName := rfl

@[simp] theorem kind_operator (content : BangOperator) :
    (operator content).kind = .bangOperator := rfl

def words : Atom → List Word
  | .quoted content => Quoted.quote :: (Quoted.pieces content ++ [Quoted.quote])
  | atom => [atom.word]

def text : Atom → Text
  | .quoted content => '"' :: (Quoted.escape content ++ ['"'])
  | atom => atom.word.text

def spaced (atoms : List Atom) : Text := [' '].intercalate (atoms.map text)

def wordsAll (atoms : List Atom) : List Word := atoms.flatMap words

def headKind (atoms : List Atom) (next : Kind) : Kind := (atoms.head?.map kind).getD next

end Atom

end TdSyntax
