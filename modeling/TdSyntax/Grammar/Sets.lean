import TdSyntax.Kind.Class
import TdSyntax.Kind.Set

/-!
# Sets of starting tokens

The tokens that types, values, statements and the items of a record body start
with, and those at which the grammar picks up again after an error.
-/

namespace TdSyntax.Grammar

def typeFirst : Kind.Set :=
  .ofList [.bitKw, .bitsKw, .codeKw, .dagKw, .intKw, .listKw, .stringKw, .identifier]

def valueFirst : Kind.Set :=
  .ofList [.integerLiteral, .doubleQuote, .codeBlock, .trueKw, .falseKw, .question,
    .leftBrace, .leftBracket, .leftParen, .identifier, .bangOperator, .condOperator,
    .exclamation]

def recordNameFirst : Kind.Set :=
  .ofList (valueFirst.toList.filter (· ≠ .leftBrace))

def statementFirst : Kind.Set :=
  .ofList [.assertKw, .classKw, .defKw, .defmKw, .defsetKw, .defvarKw, .foreachKw, .ifKw,
    .includeKw, .letKw, .multiclassKw]

def notInMulticlass : Kind.Set :=
  .ofList [.classKw, .defsetKw, .includeKw, .multiclassKw]

/-- Keywords that start an item of a record body.  An identifier starts one as
well but is too common to pick up at. -/
def bodyKeywords : Kind.Set :=
  .ofList [.assertKw, .bitKw, .bitsKw, .codeKw, .dagKw, .defvarKw, .fieldKw, .intKw,
    .letKw, .listKw, .stringKw]

/-- Keywords of statements that never start an item of a record body.  One of
them inside a record body means that its `}` is missing. -/
def statementOnly : Kind.Set :=
  .ofList [.classKw, .defKw, .defmKw, .defsetKw, .foreachKw, .ifKw, .includeKw,
    .multiclassKw]

def nameRecovery : Kind.Set :=
  (Kind.Set.ofList [.eq, .semicolon, .colon, .comma, .leftAngle, .rightAngle, .leftBrace,
    .rightBrace, .inKw]).union statementFirst

def operatorNameFirst : Kind.Set := .ofList (.identifier :: Kind.keywords)

end TdSyntax.Grammar
