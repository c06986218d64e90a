import TdSyntax.BangOperator
import TdSyntax.Grammar.Types

/-!
# The grammar of values

    value    ::= suffixed ('#' value?)?
    suffixed ::= simple ('{' ranges '}' | '[' ranges ']' | '.' identifier)*
    ranges   ::= piece (',' piece)*
    piece    ::= value (('...' | '-') value | negative-integer)?

The paste operator `#` binds loosest and nests to the right.  A negative integer
directly behind the start of a range is read as the end of the range, with a
warning.
-/

namespace TdSyntax.Grammar

def valueStart : ValuePlace → Kind.Set
  | .anywhere => valueFirst
  | .recordName => recordNameFirst

def anyValue : Grammar := .call (.value .anywhere)

def valueItem : Grammar := .ifAt valueFirst anyValue .reject

def valueList (opening close : Kind) : Grammar :=
  delimited opening close valueItem .value valueFirst

def argList (opening close : Kind) : Grammar := .node .argList (valueList opening close)

/-- The lexer has reported a missing quote at the end. -/
def string : Grammar :=
  .node .string (all [take .doubleQuote,
    .loop (.ifAt (.ofList [.stringContent, .escapeSequence]) .bump .reject),
    eat .doubleQuote])

def strings : Grammar :=
  .grow string .concatenatedString
    (ifKind .doubleQuote (.loop (ifKind .doubleQuote string .reject)) .reject)

def sequence : Grammar :=
  .node .sequence (.marked (all [take .leftBrace,
    .loop (ifKind .comma (strayToken .value) .reject),
    .ifAt valueFirst
      (all [items valueItem .comma .value valueFirst, expect .rightBrace])
      (all [expect .rightBrace, .note .mark fun _ => .emptySequence])]))

def listInit : Grammar :=
  .node .listInit (all [valueList .leftBracket .rightBracket, optional .leftAngle typeAscription])

def dagArg : Grammar :=
  ifKind .varName (.node .dagArg .bump)
  (.ifAt valueFirst
    (.node .dagArg (all [anyValue,
      .ifOk (eat .colon) (.ifOk (eat .varName) .accept (missing .argumentName)) .accept]))
  .reject)

/-- The first argument is the operator.  Commas between the arguments may be
left out. -/
def dagInit : Grammar :=
  .node .dagInit (all [take .leftParen,
    .ifOk dagArg .accept (missing .dagOperator),
    .loop (.ifAt (.ofList [.rightParen, .eof]) .reject
      (.seq (eat .comma) (ifKind .rightParen .reject dagArg))),
    expect .rightParen])

def identifierValue : Grammar :=
  .group (all [.bump, ifKind .leftAngle (argList .leftAngle .rightAngle) .reject])
    .anonymousRecord .ident

def bangOperation : Grammar :=
  .node .bangOperation (all [.bump, optional .leftAngle typeAscription,
    ifKind .leftParen (argList .leftParen .rightParen) (missing (.token .leftParen))])

def condClause : Grammar :=
  .ifAt valueFirst (.node .condClause (all [anyValue, expect .colon, anyValue])) .reject

def condOperation : Grammar :=
  .node .condOperation (all [.bump,
    ifKind .leftParen (delimited .leftParen .rightParen condClause .condition valueFirst)
      (missing (.token .leftParen))])

def isOperatorName (text : Text) : Bool :=
  text == "cond".toList || (BangOperator.ofName? (String.ofList text)).isSome

/-- A `!` that the lexer could not join to the name of an operator.  It makes an
error node with the name behind it, and arguments are read all the same. -/
def unknownBang : Grammar :=
  .grow
    (.node .error (.marked (all [take .exclamation,
      .ifAt operatorNameFirst
        (.seq (.ifText isOperatorName (.note .throughHere .detachedOperator)
            (.note .throughHere .unknownOperator))
          .bump)
        (.note .mark fun _ => .missingOperatorName)])))
    .bangOperation
    (.ifAt (.ofList [.leftAngle, .leftParen])
      (all [optional .leftAngle typeAscription,
        optional .leftParen (argList .leftParen .rightParen), .accept])
      .reject)

def simpleValue : Grammar :=
  ifKind .doubleQuote strings
  (ifKind .exclamation unknownBang
  (ifKind .integerLiteral integer
  (ifKind .codeBlock (.node .code .bump)
  (.ifAt (.ofList [.trueKw, .falseKw]) (.node .boolean .bump)
  (ifKind .question (.node .uninitialized .bump)
  (ifKind .leftBrace sequence
  (ifKind .leftBracket listInit
  (ifKind .leftParen dagInit
  (ifKind .identifier identifierValue
  (ifKind .bangOperator bangOperation
  (ifKind .condOperator condOperation
  (.seq (missing .value) .reject))))))))))))

def rangePiece : Grammar :=
  .ifAt valueFirst
    (.node .rangePiece (all [anyValue,
      .ifAt (.ofList [.ellipsis, .minus]) (.seq .bump anyValue)
      (ifKind .integerLiteral
        (.ifText (fun text => text.head? == some '-')
          (.seq (.note .here fun _ => .gluedRangeEnd) integer) .accept)
        .accept)]))
    (.seq (missing .value) .reject)

def rangeList : Grammar :=
  .ifAt valueFirst
    (.node .rangeList (.loop (.ifOk rangePiece (eat .comma) .reject)))
    (missing .range)

def fieldAccess : Grammar :=
  .node .fieldAccess (all [.bump, .ifOk (eat .identifier) .accept (missing .fieldName)])

def listSlice : Grammar :=
  .node .listSlice (all [.bump, rangeList, expect .rightBracket])

def bitSlice : Grammar :=
  .node .bitSlice (all [.bump, rangeList, expect .rightBrace])

def suffix (place : ValuePlace) : Grammar :=
  let other := ifKind .leftBracket listSlice (ifKind .dot fieldAccess .reject)
  match place with
  | .anywhere => ifKind .leftBrace bitSlice other
  | .recordName => other

def suffixedValue (place : ValuePlace) : Grammar :=
  .growAll simpleValue .suffixedValue (suffix place)

def value (place : ValuePlace) : Grammar :=
  .ifAt (valueStart place)
    (.grow (suffixedValue place) .pasteValue
      (ifKind .hash
        (all [.bump, .ifAt (valueStart place) (.call (.value place)) .accept, .accept])
        .reject))
    (.seq (missing .value) .reject)

end TdSyntax.Grammar
