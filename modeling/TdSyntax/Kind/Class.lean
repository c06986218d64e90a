import TdSyntax.Kind.Basic

/-!
# Classes and spellings of kinds

A keyword or a punctuation mark is always written the same way; `spelling?`
gives that text.  Messages name such a token by its spelling and any other one
by a word for its class.  Statements, types and values are the three groups of
node kinds that a generic tool can tell apart.
-/

namespace TdSyntax

inductive Supertype where
  | statement
  | type
  | value
  deriving DecidableEq, Repr

namespace Kind

def isTrivia : Kind → Bool
  | .whitespace | .lineComment | .blockComment | .preprocessorDirective => true
  | _ => false

def isKeyword (kind : Kind) : Bool :=
  assertKw.index ≤ kind.index && kind.index ≤ trueKw.index

def isToken (kind : Kind) : Bool := kind.index < sourceFile.index

def supertype? : Kind → Option Supertype
  | .assertStmt | .classStmt | .defStmt | .defmStmt | .defsetStmt | .defvarStmt
  | .foreachStmt | .ifStmt | .includeStmt | .letStmt | .multiclassStmt => some .statement
  | .primitiveType | .bitsType | .listType | .classType => some .type
  | .integer | .string | .concatenatedString | .code | .boolean | .uninitialized
  | .sequence | .listInit | .dagInit | .ident | .anonymousRecord | .bangOperation
  | .condOperation | .pasteValue | .suffixedValue => some .value
  | _ => none

def isStatement (kind : Kind) : Bool := kind.supertype? == some .statement

def isType (kind : Kind) : Bool := kind.supertype? == some .type

def isValue (kind : Kind) : Bool := kind.supertype? == some .value

def spelling? : Kind → Option String
  | .leftParen => some "("
  | .rightParen => some ")"
  | .leftBracket => some "["
  | .rightBracket => some "]"
  | .leftBrace => some "\x7b"
  | .rightBrace => some "\x7d"
  | .leftAngle => some "<"
  | .rightAngle => some ">"
  | .comma => some ","
  | .semicolon => some ";"
  | .colon => some ":"
  | .eq => some "="
  | .hash => some "#"
  | .question => some "?"
  | .dot => some "."
  | .ellipsis => some "..."
  | .minus => some "-"
  | .exclamation => some "!"
  | .doubleQuote => some "\""
  | .assertKw => some "assert"
  | .bitKw => some "bit"
  | .bitsKw => some "bits"
  | .classKw => some "class"
  | .codeKw => some "code"
  | .dagKw => some "dag"
  | .defKw => some "def"
  | .defmKw => some "defm"
  | .defsetKw => some "defset"
  | .defvarKw => some "defvar"
  | .elseKw => some "else"
  | .falseKw => some "false"
  | .fieldKw => some "field"
  | .foreachKw => some "foreach"
  | .ifKw => some "if"
  | .inKw => some "in"
  | .includeKw => some "include"
  | .intKw => some "int"
  | .letKw => some "let"
  | .listKw => some "list"
  | .multiclassKw => some "multiclass"
  | .stringKw => some "string"
  | .thenKw => some "then"
  | .trueKw => some "true"
  | _ => none

def keywords : List Kind := all.filter isKeyword

def ofKeyword? (word : String) : Option Kind :=
  keywords.find? fun kind => kind.spelling? == some word

theorem spelling?_of_ofKeyword? {word : String} {kind : Kind}
    (h : ofKeyword? word = some kind) :
    kind.isKeyword = true ∧ kind.spelling? = some word := by
  refine ⟨?_, by simpa using List.find?_some h⟩
  exact (List.mem_filter.1 (List.mem_of_find?_eq_some h)).2

def describe (kind : Kind) : String :=
  match kind.spelling? with
  | some spelling => "`" ++ spelling ++ "`"
  | none =>
      match kind with
      | .identifier => "identifier"
      | .integerLiteral => "integer"
      | .stringContent | .escapeSequence => "string"
      | .codeBlock => "code block"
      | .varName => "variable"
      | .bangOperator | .condOperator => "operator"
      | .eof => "end of file"
      | _ => "token"

end Kind

end TdSyntax
