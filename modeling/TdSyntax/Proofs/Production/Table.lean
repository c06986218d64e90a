import TdSyntax.Proofs.Production.Basic
import TdSyntax.View.Children

/-!
# The productions of the language

The children of each kind of node, as the grammar in prose has them.  A list between
delimiters may end in a comma and may be empty where arguments stand, the commas
between the arguments of a dag may be left out, and a range may end in an integer that
stands directly behind its start.
-/

namespace TdSyntax

namespace Kind.Set

def values : Set :=
  .ofList [.integer, .string, .concatenatedString, .code, .boolean, .uninitialized, .sequence,
    .listInit, .dagInit, .ident, .anonymousRecord, .bangOperation, .condOperation, .pasteValue,
    .suffixedValue]

def operands : Set := values.diff (.singleton .pasteValue)

def types : Set := .ofList [.primitiveType, .bitsType, .listType, .classType]

def multiclassStatements : Set :=
  .ofList [.assertStmt, .defStmt, .defmStmt, .defvarStmt, .foreachStmt, .ifStmt, .letStmt]

def statements : Set :=
  multiclassStatements.union (.ofList [.classStmt, .defsetStmt, .includeStmt, .multiclassStmt])

def bodyItems : Set := .ofList [.field, .letInstruction, .defvarStmt, .assertStmt]

end Kind.Set

namespace Production

/-! ## Common forms -/

def kind (kind : Kind) : Production := .one (.singleton kind)

def all : List Production → Production
  | [] => .done
  | [last] => last
  | first :: rest => .seq first (all rest)

def maybe (item : Production) : Production := .either .done item

/-- At least one, with something in between. -/
def separated (item between : Production) : Production := .seq item (.many (.seq between item))

def comma : Production := kind .comma

def listed (item : Production) : Production :=
  all [item, .many (.seq comma item), maybe comma]

/-! ## Classes of nodes -/

def value : Production := .one .values

def operand : Production := .one .operands

def type : Production := .one .types

def statement : Production := .one .statements

def multiclassStatement : Production := .one .multiclassStatements

def bodyItem : Production := .one .bodyItems

def initializer : Production := maybe (.seq (kind .eq) value)

def ranges (delimiter : Delimiter) : Production := .enclosed delimiter (kind .rangeList)

/-- The production of each kind of node.  Error nodes and tokens have none. -/
def ofKind : Kind → Production
  | .sourceFile => .seq (.many statement) (kind .eof)
  | .assertStmt => all [kind .assertKw, value, comma, value, kind .semicolon]
  | .classStmt => all [kind .classKw, kind .name, maybe (kind .templateArgs), kind .recordBody]
  | .defStmt => all [kind .defKw, maybe value, kind .recordBody]
  | .defmStmt => all [kind .defmKw, maybe value, maybe (kind .parentClassList), kind .semicolon]
  | .defsetStmt => all [kind .defsetKw, type, kind .name, kind .eq,
      .enclosed .braces (.many statement)]
  | .defvarStmt => all [kind .defvarKw, kind .name, kind .eq, value, kind .semicolon]
  | .foreachStmt => all [kind .foreachKw, kind .foreachIterator, kind .inKw, kind .block]
  | .ifStmt => all [kind .ifKw, value, kind .thenKw, kind .block, maybe (kind .elseBranch)]
  | .includeStmt => all [kind .includeKw, kind .string]
  | .letStmt => all [kind .letKw, kind .letList, kind .inKw, kind .block]
  | .multiclassStmt => all [kind .multiclassKw, kind .name, maybe (kind .templateArgs),
      maybe (kind .parentClassList), kind .multiclassBody]
  | .primitiveType => .one (.ofList [.bitKw, .intKw, .stringKw, .dagKw, .codeKw])
  | .bitsType => all [kind .bitsKw, .enclosed .angles (kind .integer)]
  | .listType => all [kind .listKw, .enclosed .angles type]
  | .classType => kind .identifier
  | .integer => kind .integerLiteral
  | .string => .enclosed .quotes (.many (.one (.ofList [.stringContent, .escapeSequence])))
  | .concatenatedString => all [kind .string, kind .string, .many (kind .string)]
  | .code => kind .codeBlock
  | .boolean => .one (.ofList [.trueKw, .falseKw])
  | .uninitialized => kind .question
  | .sequence => .enclosed .braces (listed value)
  | .listInit => .seq (.enclosed .brackets (maybe (listed value))) (maybe (kind .typeAscription))
  | .dagInit => .enclosed .parentheses
      (.seq (separated (kind .dagArg) (maybe comma)) (maybe comma))
  | .ident => kind .identifier
  | .anonymousRecord => all [kind .identifier, kind .argList]
  | .bangOperation => all [kind .bangOperator, maybe (kind .typeAscription), kind .argList]
  | .condOperation => .seq (kind .condOperator)
      (.enclosed .parentheses (maybe (listed (kind .condClause))))
  | .pasteValue => all [operand, kind .hash, maybe value]
  | .suffixedValue => .seq operand (.one (.ofList [.bitSlice, .listSlice, .fieldAccess]))
  | .name => kind .identifier
  | .templateArgs => .enclosed .angles (maybe (listed (kind .templateArg)))
  | .templateArg => all [type, kind .name, initializer]
  | .recordBody => all [maybe (kind .parentClassList), kind .body]
  | .parentClassList => .seq (kind .colon) (separated (kind .parentClass) comma)
  | .parentClass => all [kind .identifier, maybe (kind .argList)]
  | .argList => .either (.enclosed .angles (maybe (listed value)))
      (.enclosed .parentheses (maybe (listed value)))
  | .body => .either (kind .semicolon) (.enclosed .braces (.many bodyItem))
  | .field => all [maybe (kind .fieldKw), type, kind .name, initializer, kind .semicolon]
  | .letInstruction => all [kind .letKw, kind .name, maybe (ranges .braces), kind .eq, value,
      kind .semicolon]
  | .block => .either statement (.enclosed .braces (.many statement))
  | .elseBranch => all [kind .elseKw, kind .block]
  | .letList => maybe (listed (kind .letItem))
  | .letItem => all [kind .name, maybe (ranges .angles), kind .eq, value]
  | .foreachIterator => all [kind .name, kind .eq, .either (ranges .braces) (kind .rangePiece)]
  | .multiclassBody => .either (kind .semicolon)
      (.enclosed .braces (.seq multiclassStatement (.many multiclassStatement)))
  | .rangeList => separated (kind .rangePiece) comma
  | .rangePiece => .seq value (maybe (.either
      (.seq (.one (.ofList [.ellipsis, .minus])) value) (kind .integer)))
  | .bitSlice => ranges .braces
  | .listSlice => ranges .brackets
  | .fieldAccess => all [kind .dot, kind .identifier]
  | .dagArg => .either (.seq value (maybe (.seq (kind .colon) (kind .varName)))) (kind .varName)
  | .condClause => all [value, kind .colon, value]
  | .typeAscription => .enclosed .angles type
  | _ => .void

end Production

end TdSyntax
