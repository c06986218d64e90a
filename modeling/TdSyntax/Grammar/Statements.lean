import TdSyntax.Grammar.Values

/-!
# The grammar of statements

A file is a list of statements.  Records have a body, which is empty or a list of
items between braces; blocks hold statements, or a single statement without
braces.  Tokens that start nothing are gathered into an error node, up to where
the list goes on.
-/

namespace TdSyntax.Grammar

def declaredName : Grammar :=
  ifKind .identifier (.node .name .bump) (resume .identifier nameRecovery)

def initializer : Grammar := .ifOk (eat .eq) anyValue .accept

/-! ## Records -/

def templateArg : Grammar :=
  .ifAt typeFirst (.node .templateArg (all [.call .type, declaredName, initializer])) .reject

def templateArgs : Grammar :=
  optional .leftAngle
    (.node .templateArgs (delimited .leftAngle .rightAngle templateArg .templateArgument typeFirst))

def parentClass : Grammar :=
  ifKind .identifier
    (.node .parentClass (all [.bump, optional .leftAngle (argList .leftAngle .rightAngle)]))
    .reject

def parentClassList : Grammar :=
  .node .parentClassList (all [take .colon,
    .loop (.ifOk parentClass (eat .comma) (.seq (missing .className) .reject))])

def assertion : Grammar :=
  .node .assertStmt (all [.bump, anyValue, expect .comma, anyValue, expect .semicolon])

def definedVariable : Grammar :=
  .node .defvarStmt (all [.bump, declaredName, expect .eq, anyValue, expect .semicolon])

def field : Grammar :=
  .node .field (all [eat .fieldKw, .call .type, declaredName, initializer, expect .semicolon])

def letInstruction : Grammar :=
  .node .letInstruction (all [.bump, declaredName,
    .ifOk (eat .leftBrace) (all [rangeList, expect .rightBrace]) .accept,
    expect .eq, anyValue, expect .semicolon])

def bodyItem : Grammar :=
  ifKind .letKw letInstruction
  (ifKind .defvarKw definedVariable
  (ifKind .assertKw assertion
  (.ifAt (typeFirst.union (.singleton .fieldKw)) field
  .reject)))

def recoverBodyItem : Grammar :=
  .node .error (.seq (missing .bodyItem) (.skip .toBodyItem))

def body : Grammar :=
  ifKind .semicolon (.node .body .bump)
  (ifKind .leftBrace
    (.node .body (all [.bump,
      .loop (.ifAt (statementOnly.union (.ofList [.rightBrace, .eof])) .reject
        (.ifOk bodyItem .accept recoverBodyItem)),
      expect .rightBrace]))
  (missing .body))

def recordBody : Grammar :=
  .ifAt (.ofList [.colon, .semicolon, .leftBrace])
    (.node .recordBody (all [optional .colon parentClassList, body]))
    (missing .recordBody)

def recordName : Grammar :=
  .ifAt recordNameFirst (.call (.value .recordName)) .accept

/-! ## Blocks -/

def anyStatement (place : StatementPlace) : Grammar := .call (.statement place)

/-- Makes an error node of the tokens up to the next statement outside any
braces, and in a block not beyond its end. -/
def recoverStatement (inBlock : Bool) : Grammar :=
  .node .error (.seq (missing .statement) (.skip (.toStatement inBlock)))

def statements (place : StatementPlace) : Grammar :=
  .loop (.ifAt (.ofList [.rightBrace, .eof]) .reject
    (.ifOk (anyStatement place) .accept (recoverStatement true)))

def block (place : StatementPlace) : Grammar :=
  ifKind .leftBrace
    (.node .block (all [.bump, statements place, expect .rightBrace]))
  (.ifAt statementFirst (.node .block (anyStatement place))
  (missing .statementOrBlock))

/-! ## Statements -/

def classDefinition : Grammar :=
  .node .classStmt (all [.bump, declaredName, templateArgs, recordBody])

def recordDefinition : Grammar :=
  .node .defStmt (all [.bump, recordName, recordBody])

def recordInstances : Grammar :=
  .node .defmStmt (all [.bump, recordName, optional .colon parentClassList,
    expect .semicolon])

def recordSet (place : StatementPlace) : Grammar :=
  .node .defsetStmt (all [.bump, .call .type, declaredName, expect .eq,
    .ifOk (expect .leftBrace) (all [statements place, expect .rightBrace]) .accept])

def foreachIterator : Grammar :=
  .node .foreachIterator (all [declaredName, expect .eq,
    .ifOk (eat .leftBrace) (all [rangeList, expect .rightBrace]) rangePiece])

def iteration (place : StatementPlace) : Grammar :=
  .node .foreachStmt (all [.bump, foreachIterator, expect .inKw, block place])

/-- The innermost conditional takes an `else`. -/
def conditional (place : StatementPlace) : Grammar :=
  .node .ifStmt (all [.bump, anyValue, expect .thenKw, block place,
    optional .elseKw (.node .elseBranch (all [.bump, block place]))])

def inclusion : Grammar :=
  .node .includeStmt (all [.bump, ifKind .doubleQuote string (missing .fileName)])

def letItem : Grammar :=
  .node .letItem (all [declaredName,
    .ifOk (eat .leftAngle) (all [rangeList, expect .rightAngle]) .accept,
    expect .eq, anyValue])

def letBlock (place : StatementPlace) : Grammar :=
  .node .letStmt (all [.bump,
    .node .letList (.loop (ifKind .inKw .reject (.seq letItem (eat .comma)))),
    expect .inKw, block place])

def multiclassBody : Grammar :=
  ifKind .semicolon (.node .multiclassBody .bump)
  (ifKind .leftBrace
    (.node .multiclassBody (all [.bump,
      optional .rightBrace (.complain .emptyMulticlass),
      statements .multiclass, expect .rightBrace]))
  (missing .body))

def multiclassDefinition : Grammar :=
  .node .multiclassStmt (all [.bump, declaredName, templateArgs,
    optional .colon parentClassList, multiclassBody])

def statementByKeyword (place : StatementPlace) : Grammar :=
  ifKind .assertKw assertion
  (ifKind .classKw classDefinition
  (ifKind .defKw recordDefinition
  (ifKind .defmKw recordInstances
  (ifKind .defsetKw (recordSet place)
  (ifKind .defvarKw definedVariable
  (ifKind .foreachKw (iteration place)
  (ifKind .ifKw (conditional place)
  (ifKind .includeKw inclusion
  (ifKind .letKw (letBlock place)
  (ifKind .multiclassKw multiclassDefinition
  .unreachable))))))))))

/-- A statement that is not allowed in a multiclass is read as if it stood
outside, and wrapped in an error node. -/
def misplacedStatement : Grammar :=
  .marked (.seq (.node .error (statementByKeyword .topLevel)) (.note .mark .notInMulticlass))

def statement (place : StatementPlace) : Grammar :=
  match place with
  | .topLevel => .ifAt statementFirst (statementByKeyword .topLevel) .reject
  | .multiclass =>
      .ifAt notInMulticlass misplacedStatement
        (.ifAt statementFirst (statementByKeyword .multiclass) .reject)

def file : Grammar :=
  .loop (ifKind .eof .reject (.ifOk (anyStatement .topLevel) .accept (recoverStatement false)))

end TdSyntax.Grammar

namespace TdSyntax

def Rule.grammar : Rule → Grammar
  | .type => Grammar.type
  | .value place => Grammar.value place
  | .statement place => Grammar.statement place

end TdSyntax
