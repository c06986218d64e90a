import TdSyntax.View.Basic

/-!
# The views of nodes

How the parts of each production are found among the children of a node.  The
parts are looked up by class and side, so they are found also where the grammar
has reported errors and left parts out.
-/

namespace TdSyntax.Node

def statements (node : Node) : List Node := node.allOf Kind.isStatement

def values (node : Node) : List Node := node.allOf Kind.isValue

def value? (node : Node) : Option Node := node.firstOf? Kind.isValue

def type? (node : Node) : Option Node := node.firstOf? Kind.isType

def initial? (node : Node) : Option Node := node.firstAfter? .eq Kind.isValue

def directives (node : Node) : Except Fault (List Text) := do
  let trivia ← node.tokens.mapM fun token => do
    let leading ← token.leadingTrivia
    let trailing ← token.trailingTrivia
    pure (leading ++ trailing)
  pure ((trivia.flatten.filter fun piece => piece.kind = .directive).map PlacedTrivia.text)

def primitiveType? (node : Node) : Option PrimitiveType :=
  (node.elements.filterMap Element.token?).findSome? fun token =>
    match token.kind with
    | .bitKw => some .bit
    | .intKw => some .int
    | .stringKw => some .string
    | .dagKw => some .dag
    | .codeKw => some .code
    | _ => none

def integerValue? (node : Node) : Except Fault (Option Int) := do
  let text ← node.text
  pure (IntegerLiteral.value? text)

def codeText (text : Text) : Text :=
  let opened := (Text.dropWord? ['[', '{'] text).getD text
  match Text.dropWord? [']', '}'] opened.reverse with
  | some reversed => reversed.reverse
  | none => opened

def operator? (node : Node) : Except Fault (Option BangOperator) :=
  match node.tokenOfKind? .bangOperator with
  | none => .ok none
  | some token => do
      match ← token.text with
      | '!' :: name => pure (BangOperator.ofName? (String.ofList name))
      | _ => pure none

def foreachRange? (node : Node) : Option ForeachRange :=
  node.nodes.findSome? fun child =>
    match child.kind with
    | .rangeList => some (.list child)
    | .rangePiece => some (.piece child)
    | _ => none

def ascribedType? (node : Node) : Option Node :=
  (node.childOfKind? .typeAscription).bind fun child => child.firstOf? Kind.isType

def isSuffix (kind : Kind) : Bool :=
  kind == .bitSlice || kind == .listSlice || kind == .fieldAccess

def rangeSeparator? (node : Node) : Option RangeSeparator :=
  if node.hasToken .ellipsis then some .ellipsis
  else if node.hasToken .minus then some .dash
  else if node.values[1]?.isSome then some .gluedDash
  else none

def integerAt? (node : Option Node) : Except Fault (Option Int) :=
  match node with
  | some node => if node.kind = .integer then node.integerValue? else .ok none
  | none => .ok none

/-- The first and the last integer of a range.  A single integer is a range by
itself. -/
def rangeBounds? (node : Node) : Except Fault (Option (Int × Int)) := do
  let values := node.values
  match ← integerAt? values[0]? with
  | none => pure none
  | some start =>
      match node.rangeSeparator? with
      | none => pure (some (start, start))
      | some .gluedDash =>
          let stop ← integerAt? values[1]?
          pure ((stop.bind fun value => IntegerLiteral.checked? (-value)).map (start, ·))
      | some _ =>
          let stop ← integerAt? values[1]?
          pure (stop.map (start, ·))

/-- The view of a node; `none` for nodes without a production of their own. -/
def view (node : Node) : Except Fault (Option View) :=
  let child (kind : Kind) := node.childOfKind? kind
  let each (kind : Kind) := node.allOf (· == kind)
  let token (kind : Kind) := node.tokenOfKind? kind
  match node.kind with
  | .sourceFile => do
      let directives ← node.directives
      pure (some (.sourceFile node.statements directives))
  | .assertStmt => .ok (some (.assertion (node.firstBefore? .comma Kind.isValue)
      (node.firstAfter? .comma Kind.isValue)))
  | .classStmt => .ok (some (.classDefinition (child .name) (child .templateArgs)
      (child .recordBody)))
  | .defStmt => .ok (some (.recordDefinition node.value? (child .recordBody)))
  | .defmStmt => .ok (some (.recordInstances node.value? (child .parentClassList)))
  | .defsetStmt => .ok (some (.recordSet node.type? (child .name) node.statements))
  | .defvarStmt => .ok (some (.definedVariable (child .name) node.initial?))
  | .foreachStmt => .ok (some (.iteration (child .foreachIterator) (child .block)))
  | .ifStmt => .ok (some (.conditional node.value? (child .block)
      ((child .elseBranch).bind fun branch => branch.childOfKind? .block)))
  | .includeStmt => .ok (some (.inclusion (child .string)))
  | .letStmt => .ok (some (.letBlock
      ((child .letList).elim [] fun items => items.allOf (· == .letItem)) (child .block)))
  | .multiclassStmt => .ok (some (.multiclass (child .name) (child .templateArgs)
      (child .parentClassList) (child .multiclassBody)))
  | .primitiveType => .ok (some (.primitiveType node.primitiveType?))
  | .bitsType => .ok (some (.bitsType (child .integer)))
  | .listType => .ok (some (.listType node.type?))
  | .classType => .ok (some (.classType (token .identifier)))
  | .integer => do
      let text ← node.text
      pure (some (.integer text (IntegerLiteral.value? text)))
  | .string => do
      let value ← StringLiteral.value node
      pure (some (.string value))
  | .concatenatedString => do
      let parts := each .string
      let values ← parts.mapM StringLiteral.value
      pure (some (.concatenatedString parts values.flatten))
  | .code => do
      let text ← node.text
      pure (some (.code (codeText text)))
  | .boolean => .ok (some (.boolean (node.hasToken .trueKw)))
  | .uninitialized => .ok (some .uninitialized)
  | .sequence => .ok (some (.sequence node.values))
  | .listInit => .ok (some (.listInit node.values node.ascribedType?))
  | .dagInit => .ok (some (.dagInit (child .dagArg) ((each .dagArg).drop 1)))
  | .ident => do
      let text ← node.text
      pure (some (.identifier (token .identifier) text))
  | .anonymousRecord => .ok (some (.anonymousRecord (token .identifier) (child .argList)))
  | .bangOperation => do
      let operator ← node.operator?
      pure (some (.bangOperation (token .bangOperator) operator node.ascribedType?
        ((child .argList).elim [] fun args => args.allOf Kind.isValue)))
  | .condOperation => .ok (some (.condOperation (each .condClause)))
  | .pasteValue => .ok (some (.paste (node.firstBefore? .hash Kind.isValue)
      (node.firstAfter? .hash Kind.isValue)))
  | .suffixedValue => .ok (some (.suffixed node.value? (node.firstOf? isSuffix)))
  | .name => do
      let text ← node.text
      pure (some (.name (token .identifier) text))
  | .templateArgs => .ok (some (.templateArgs (each .templateArg)))
  | .templateArg => .ok (some (.templateArg node.type? (child .name) node.initial?))
  | .recordBody => .ok (some (.recordBody (child .parentClassList) (child .body)))
  | .parentClassList => .ok (some (.parentClassList (each .parentClass)))
  | .parentClass => .ok (some (.parentClass (token .identifier) (child .argList)))
  | .argList => .ok (some (.argList node.values))
  | .body => .ok (some (.body (node.hasToken .semicolon && !node.hasToken .leftBrace)
      (node.allOf Kind.isBodyItem)))
  | .field => .ok (some (.field (node.hasToken .fieldKw) node.type? (child .name) node.initial?))
  | .letInstruction => .ok (some (.letInstruction (child .name) (child .rangeList) node.initial?))
  | .letItem => .ok (some (.letItem (child .name) (child .rangeList) node.initial?))
  | .block => .ok (some (.block (node.hasToken .leftBrace) node.statements))
  | .foreachIterator => .ok (some (.foreachIterator (child .name) node.foreachRange?))
  | .multiclassBody => .ok (some (.multiclassBody node.statements))
  | .rangeList => .ok (some (.rangeList (each .rangePiece)))
  | .rangePiece => do
      let bounds ← node.rangeBounds?
      pure (some (.rangePiece node.values[0]? node.values[1]? node.rangeSeparator? bounds))
  | .bitSlice => .ok (some (.bitSlice (child .rangeList)))
  | .listSlice => .ok (some (.listSlice (child .rangeList)))
  | .fieldAccess => .ok (some (.fieldAccess (token .identifier)))
  | .dagArg => .ok (some (.dagArg node.value? (token .varName)))
  | .condClause => .ok (some (.condClause (node.firstBefore? .colon Kind.isValue)
      (node.firstAfter? .colon Kind.isValue)))
  | .typeAscription => .ok (some (.typeAscription node.type?))
  | _ => .ok none

end TdSyntax.Node
