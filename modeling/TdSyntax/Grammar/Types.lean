import TdSyntax.Grammar.Basic
import TdSyntax.Grammar.Sets

/-!
# The grammar of types

    type ::= 'bit' | 'int' | 'string' | 'dag' | 'code'
           | 'bits' '<' integer '>' | 'list' '<' type '>' | identifier
-/

namespace TdSyntax.Grammar

def integer : Grammar := .node .integer .bump

def type : Grammar :=
  .ifAt (.ofList [.bitKw, .intKw, .stringKw, .dagKw, .codeKw]) (.node .primitiveType .bump)
  (ifKind .bitsKw
    (.node .bitsType (all [.bump, expect .leftAngle,
      ifKind .integerLiteral integer (missing .bitWidth), expect .rightAngle]))
  (ifKind .listKw
    (.node .listType (all [.bump, expect .leftAngle, .call .type, expect .rightAngle]))
  (ifKind .identifier (.node .classType .bump)
  (.seq (missing .type) .reject))))

def typeAscription : Grammar :=
  .node .typeAscription (all [take .leftAngle, .call .type, expect .rightAngle])

end TdSyntax.Grammar
