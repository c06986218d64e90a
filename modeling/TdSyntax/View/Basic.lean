import TdSyntax.Tree.Walk
import TdSyntax.View.Children
import TdSyntax.View.Integer
import TdSyntax.View.StringValue

/-!
# Views

A view tells what a node means by its production: the parts that the production
names, each of them absent if the source lacks it.  A view is one level deep;
its parts are nodes, which have views of their own.  Error nodes and the nodes
that only hold a part of another production have none.
-/

namespace TdSyntax

inductive PrimitiveType where
  | bit
  | int
  | string
  | dag
  | code
  deriving DecidableEq, Repr

/-- How the two ends of a range are joined; `gluedDash` is the sign of a negative
integer that is read as the end. -/
inductive RangeSeparator where
  | ellipsis
  | dash
  | gluedDash
  deriving DecidableEq, Repr

inductive ForeachRange where
  | list (node : Node)
  | piece (node : Node)
  deriving DecidableEq, Repr

inductive View where
  | sourceFile (statements : List Node) (directives : List Text)
  | assertion (condition message : Option Node)
  | classDefinition (name templateArgs recordBody : Option Node)
  | recordDefinition (name recordBody : Option Node)
  | recordInstances (name parentClassList : Option Node)
  | recordSet (type name : Option Node) (statements : List Node)
  | definedVariable (name value : Option Node)
  | iteration (iterator body : Option Node)
  | conditional (condition thenBranch elseBranch : Option Node)
  | inclusion (path : Option Node)
  | letBlock (items : List Node) (body : Option Node)
  | multiclass (name templateArgs parentClassList body : Option Node)
  | primitiveType (type : Option PrimitiveType)
  | bitsType (width : Option Node)
  | listType (element : Option Node)
  | classType (name : Option NodeToken)
  | integer (text : Text) (value : Option Int)
  | string (value : Text)
  | concatenatedString (parts : List Node) (value : Text)
  | code (text : Text)
  | boolean (value : Bool)
  | uninitialized
  | sequence (values : List Node)
  | listInit (values : List Node) (elementType : Option Node)
  | dagInit (operator : Option Node) (args : List Node)
  | identifier (token : Option NodeToken) (text : Text)
  | anonymousRecord (className : Option NodeToken) (args : Option Node)
  | bangOperation (token : Option NodeToken) (operator : Option BangOperator)
      (resultType : Option Node) (args : List Node)
  | condOperation (clauses : List Node)
  | paste (left right : Option Node)
  | suffixed (value suffix : Option Node)
  | name (token : Option NodeToken) (text : Text)
  | templateArgs (args : List Node)
  | templateArg (type name defaultValue : Option Node)
  | recordBody (parentClassList body : Option Node)
  | parentClassList (classes : List Node)
  | parentClass (name : Option NodeToken) (args : Option Node)
  | argList (values : List Node)
  | body (isEmptyForm : Bool) (items : List Node)
  | field (hasKeyword : Bool) (type name value : Option Node)
  | letInstruction (name bits value : Option Node)
  | letItem (name bits value : Option Node)
  | block (isBraced : Bool) (statements : List Node)
  | foreachIterator (name : Option Node) (range : Option ForeachRange)
  | multiclassBody (statements : List Node)
  | rangeList (pieces : List Node)
  | rangePiece (start stop : Option Node) (separator : Option RangeSeparator)
      (bounds : Option (Int × Int))
  | bitSlice (ranges : Option Node)
  | listSlice (ranges : Option Node)
  | fieldAccess (field : Option NodeToken)
  | dagArg (value : Option Node) (binding : Option NodeToken)
  | condClause (condition value : Option Node)
  | typeAscription (type : Option Node)
  deriving DecidableEq, Repr

end TdSyntax
