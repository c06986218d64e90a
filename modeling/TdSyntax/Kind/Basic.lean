/-!
# Kinds of tokens and nodes

Every element of a syntax tree has a kind.  Tokens come first: punctuation,
keywords, the other tokens, trivia, the unknown character and the end of the
file.  The kinds of nodes follow: the file, statements, types, values, their
parts, and the two kinds without a production of their own.
-/

namespace TdSyntax

inductive Kind where
  | leftParen | rightParen | leftBracket | rightBracket | leftBrace | rightBrace
  | leftAngle | rightAngle | comma | semicolon | colon | eq | hash | question | dot
  | ellipsis | minus | exclamation
  | assertKw | bitKw | bitsKw | classKw | codeKw | dagKw | defKw | defmKw | defsetKw
  | defvarKw | elseKw | falseKw | fieldKw | foreachKw | ifKw | inKw | includeKw | intKw
  | letKw | listKw | multiclassKw | stringKw | thenKw | trueKw
  | identifier | integerLiteral | doubleQuote | stringContent | escapeSequence
  | codeBlock | varName | bangOperator | condOperator
  | whitespace | lineComment | blockComment | preprocessorDirective
  | unknown | eof
  | sourceFile
  | assertStmt | classStmt | defStmt | defmStmt | defsetStmt | defvarStmt | foreachStmt
  | ifStmt | includeStmt | letStmt | multiclassStmt
  | primitiveType | bitsType | listType | classType
  | integer | string | concatenatedString | code | boolean | uninitialized | sequence
  | listInit | dagInit | ident | anonymousRecord | bangOperation | condOperation
  | pasteValue | suffixedValue
  | name | templateArgs | templateArg | recordBody | parentClassList | parentClass
  | argList | body | field | letInstruction | block | elseBranch | letList | letItem
  | foreachIterator | multiclassBody | rangeList | rangePiece | bitSlice | listSlice
  | fieldAccess | dagArg | condClause | typeAscription
  | error | tombstone
  deriving DecidableEq, Repr

namespace Kind

def index (kind : Kind) : Nat := kind.ctorIdx

def all : List Kind :=
  [.leftParen, .rightParen, .leftBracket, .rightBracket, .leftBrace, .rightBrace,
    .leftAngle, .rightAngle, .comma, .semicolon, .colon, .eq, .hash, .question, .dot,
    .ellipsis, .minus, .exclamation, .assertKw, .bitKw, .bitsKw, .classKw, .codeKw,
    .dagKw, .defKw, .defmKw, .defsetKw, .defvarKw, .elseKw, .falseKw, .fieldKw,
    .foreachKw, .ifKw, .inKw, .includeKw, .intKw, .letKw, .listKw, .multiclassKw,
    .stringKw, .thenKw, .trueKw, .identifier, .integerLiteral, .doubleQuote,
    .stringContent, .escapeSequence, .codeBlock, .varName, .bangOperator,
    .condOperator, .whitespace, .lineComment, .blockComment, .preprocessorDirective,
    .unknown, .eof, .sourceFile, .assertStmt, .classStmt, .defStmt, .defmStmt,
    .defsetStmt, .defvarStmt, .foreachStmt, .ifStmt, .includeStmt, .letStmt,
    .multiclassStmt, .primitiveType, .bitsType, .listType, .classType, .integer,
    .string, .concatenatedString, .code, .boolean, .uninitialized, .sequence,
    .listInit, .dagInit, .ident, .anonymousRecord, .bangOperation, .condOperation,
    .pasteValue, .suffixedValue, .name, .templateArgs, .templateArg, .recordBody,
    .parentClassList, .parentClass, .argList, .body, .field, .letInstruction, .block,
    .elseBranch, .letList, .letItem, .foreachIterator, .multiclassBody, .rangeList,
    .rangePiece, .bitSlice, .listSlice, .fieldAccess, .dagArg, .condClause,
    .typeAscription, .error, .tombstone]

def label : Kind → String
  | .leftParen => "LEFT_PAREN"
  | .rightParen => "RIGHT_PAREN"
  | .leftBracket => "LEFT_BRACKET"
  | .rightBracket => "RIGHT_BRACKET"
  | .leftBrace => "LEFT_BRACE"
  | .rightBrace => "RIGHT_BRACE"
  | .leftAngle => "LEFT_ANGLE"
  | .rightAngle => "RIGHT_ANGLE"
  | .comma => "COMMA"
  | .semicolon => "SEMICOLON"
  | .colon => "COLON"
  | .eq => "EQ"
  | .hash => "HASH"
  | .question => "QUESTION"
  | .dot => "DOT"
  | .ellipsis => "ELLIPSIS"
  | .minus => "MINUS"
  | .exclamation => "EXCLAMATION"
  | .assertKw => "ASSERT_KW"
  | .bitKw => "BIT_KW"
  | .bitsKw => "BITS_KW"
  | .classKw => "CLASS_KW"
  | .codeKw => "CODE_KW"
  | .dagKw => "DAG_KW"
  | .defKw => "DEF_KW"
  | .defmKw => "DEFM_KW"
  | .defsetKw => "DEFSET_KW"
  | .defvarKw => "DEFVAR_KW"
  | .elseKw => "ELSE_KW"
  | .falseKw => "FALSE_KW"
  | .fieldKw => "FIELD_KW"
  | .foreachKw => "FOREACH_KW"
  | .ifKw => "IF_KW"
  | .inKw => "IN_KW"
  | .includeKw => "INCLUDE_KW"
  | .intKw => "INT_KW"
  | .letKw => "LET_KW"
  | .listKw => "LIST_KW"
  | .multiclassKw => "MULTICLASS_KW"
  | .stringKw => "STRING_KW"
  | .thenKw => "THEN_KW"
  | .trueKw => "TRUE_KW"
  | .identifier => "IDENTIFIER"
  | .integerLiteral => "INTEGER_LITERAL"
  | .doubleQuote => "DOUBLE_QUOTE"
  | .stringContent => "STRING_CONTENT"
  | .escapeSequence => "ESCAPE_SEQUENCE"
  | .codeBlock => "CODE_BLOCK"
  | .varName => "VAR_NAME"
  | .bangOperator => "BANG_OPERATOR"
  | .condOperator => "COND_OPERATOR"
  | .whitespace => "WHITESPACE"
  | .lineComment => "LINE_COMMENT"
  | .blockComment => "BLOCK_COMMENT"
  | .preprocessorDirective => "PREPROCESSOR_DIRECTIVE"
  | .unknown => "UNKNOWN"
  | .eof => "EOF"
  | .sourceFile => "SOURCE_FILE"
  | .assertStmt => "ASSERT"
  | .classStmt => "CLASS"
  | .defStmt => "DEF"
  | .defmStmt => "DEFM"
  | .defsetStmt => "DEFSET"
  | .defvarStmt => "DEFVAR"
  | .foreachStmt => "FOREACH"
  | .ifStmt => "IF"
  | .includeStmt => "INCLUDE"
  | .letStmt => "LET"
  | .multiclassStmt => "MULTICLASS"
  | .primitiveType => "PRIMITIVE_TYPE"
  | .bitsType => "BITS_TYPE"
  | .listType => "LIST_TYPE"
  | .classType => "CLASS_TYPE"
  | .integer => "INTEGER"
  | .string => "STRING"
  | .concatenatedString => "CONCATENATED_STRING"
  | .code => "CODE"
  | .boolean => "BOOLEAN"
  | .uninitialized => "UNINITIALIZED"
  | .sequence => "SEQUENCE"
  | .listInit => "LIST_INIT"
  | .dagInit => "DAG_INIT"
  | .ident => "IDENT"
  | .anonymousRecord => "ANONYMOUS_RECORD"
  | .bangOperation => "BANG_OPERATION"
  | .condOperation => "COND_OPERATION"
  | .pasteValue => "PASTE_VALUE"
  | .suffixedValue => "SUFFIXED_VALUE"
  | .name => "NAME"
  | .templateArgs => "TEMPLATE_ARGS"
  | .templateArg => "TEMPLATE_ARG"
  | .recordBody => "RECORD_BODY"
  | .parentClassList => "PARENT_CLASS_LIST"
  | .parentClass => "PARENT_CLASS"
  | .argList => "ARG_LIST"
  | .body => "BODY"
  | .field => "FIELD"
  | .letInstruction => "LET_INSTRUCTION"
  | .block => "BLOCK"
  | .elseBranch => "ELSE_BRANCH"
  | .letList => "LET_LIST"
  | .letItem => "LET_ITEM"
  | .foreachIterator => "FOREACH_ITERATOR"
  | .multiclassBody => "MULTICLASS_BODY"
  | .rangeList => "RANGE_LIST"
  | .rangePiece => "RANGE_PIECE"
  | .bitSlice => "BIT_SLICE"
  | .listSlice => "LIST_SLICE"
  | .fieldAccess => "FIELD_ACCESS"
  | .dagArg => "DAG_ARG"
  | .condClause => "COND_CLAUSE"
  | .typeAscription => "TYPE_ANNOTATION"
  | .error => "ERROR"
  | .tombstone => "TOMBSTONE"

def ofLabel? (label : String) : Option Kind :=
  all.find? fun kind => kind.label == label

theorem all_getElem?_index (kind : Kind) : all[kind.index]? = some kind := by
  cases kind <;> rfl

theorem mem_all (kind : Kind) : kind ∈ all :=
  List.mem_of_getElem? (all_getElem?_index kind)

theorem index_injective {first second : Kind} (h : first.index = second.index) :
    first = second := by
  have hfirst := all_getElem?_index first
  rw [h, all_getElem?_index second] at hfirst
  exact (Option.some.inj hfirst).symm

theorem index_lt (kind : Kind) : kind.index < 114 := by
  cases kind <;> decide

end Kind

end TdSyntax
