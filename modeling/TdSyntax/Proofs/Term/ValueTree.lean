import TdSyntax.Proofs.Term.Value

/-!
# The trees of types and values

The bare tree that the grammar is to make of a printed type or value.
-/

namespace TdSyntax

def Atom.leaf (atom : Atom) : BareTree := .token atom.word

namespace Term

def commaTrees (trees : List BareTree) : List BareTree :=
  trees.intersperse (Atom.leaf (.mark .comma))

@[simp] theorem commaTrees_nil : commaTrees [] = [] := rfl

@[simp] theorem commaTrees_singleton (tree : BareTree) : commaTrees [tree] = [tree] := rfl

theorem commaTrees_cons (tree : BareTree) (trees : List BareTree) (h : trees ≠ []) :
    commaTrees (tree :: trees) = [tree, Atom.leaf (.mark .comma)] ++ commaTrees trees := by
  cases trees with
  | nil => exact absurd rfl h
  | cons second trees => simp [commaTrees]

def TypeName.tree : TypeName → BareTree
  | .primitive type => .node .primitiveType [(primitiveKeyword type).leaf]
  | .bits width =>
      .node .bitsType [Atom.leaf (.mark .bitsKw), Atom.leaf (.mark .leftAngle),
        .node .integer [Atom.leaf (.integer width)], Atom.leaf (.mark .rightAngle)]
  | .list element =>
      .node .listType [Atom.leaf (.mark .listKw), Atom.leaf (.mark .leftAngle), element.tree,
        Atom.leaf (.mark .rightAngle)]
  | .named name => .node .classType [Atom.leaf (.name name)]

def ascriptionTrees : Option TypeName → List BareTree
  | none => []
  | some type =>
      [.node .typeAscription [Atom.leaf (.mark .leftAngle), type.tree,
        Atom.leaf (.mark .rightAngle)]]

def stringTree (content : Text) : BareTree :=
  .node .string ((Atom.quoted content).words.map .token)

variable (layout : Layout)

mutual

def Value.tree : Value → BareTree
  | .operand base => base.tree
  | .paste left right =>
      .node .pasteValue [left.tree, Atom.leaf (.mark .hash), right.tree]
  | .openPaste left => .node .pasteValue [left.tree, Atom.leaf (.mark .hash)]

def Operand.tree : Operand → BareTree
  | .simple base => base.tree
  | .bitSlice base first rest =>
      .node .suffixedValue [base.tree, .node .bitSlice [Atom.leaf (.mark .leftBrace),
        .node .rangeList (commaTrees (first.tree :: Range.treeAll rest)),
        Atom.leaf (.mark .rightBrace)]]
  | .listSlice base first rest =>
      .node .suffixedValue [base.tree, .node .listSlice [Atom.leaf (.mark .leftBracket),
        .node .rangeList (commaTrees (first.tree :: Range.treeAll rest)),
        Atom.leaf (.mark .rightBracket)]]
  | .field base name =>
      .node .suffixedValue [base.tree,
        .node .fieldAccess [Atom.leaf (.mark .dot), Atom.leaf (.name name)]]

def Simple.tree : Simple → BareTree
  | .integer number => .node .integer [Atom.leaf (.integer number)]
  | .string content => stringTree content
  | .strings first second rest =>
      .node .concatenatedString (stringTree first :: stringTree second :: rest.map stringTree)
  | .code content => .node .code [Atom.leaf (.code content)]
  | .boolean value => .node .boolean [(booleanKeyword value).leaf]
  | .uninitialized => .node .uninitialized [Atom.leaf (.mark .question)]
  | .sequence first rest =>
      .node .sequence (Atom.leaf (.mark .leftBrace) ::
        (commaTrees (first.tree :: Value.treeAll rest) ++ [Atom.leaf (.mark .rightBrace)]))
  | .list values type =>
      .node .listInit (Atom.leaf (.mark .leftBracket) ::
        (commaTrees (Value.treeAll values) ++
          Atom.leaf (.mark .rightBracket) :: ascriptionTrees type))
  | .dag operator args =>
      .node .dagInit (Atom.leaf (.mark .leftParen) :: operator.tree ::
        ((behindOperator layout operator args (DagArg.atomsAll layout args)).map Atom.leaf ++
          (commaTrees (DagArg.treeAll args) ++ [Atom.leaf (.mark .rightParen)])))
  | .identifier name => .node .ident [Atom.leaf (.name name)]
  | .record name args =>
      .node .anonymousRecord [Atom.leaf (.name name),
        .node .argList (Atom.leaf (.mark .leftAngle) ::
          (commaTrees (Value.treeAll args) ++ [Atom.leaf (.mark .rightAngle)]))]
  | .bang operator type first rest =>
      .node .bangOperation (Atom.leaf (.operator operator) :: (ascriptionTrees type ++
        [.node .argList (Atom.leaf (.mark .leftParen) ::
          (commaTrees (first.tree :: Value.treeAll rest) ++ [Atom.leaf (.mark .rightParen)]))]))
  | .cond clauses =>
      .node .condOperation (Atom.leaf .condOperator :: Atom.leaf (.mark .leftParen) ::
        (commaTrees (Clause.treeAll clauses) ++ [Atom.leaf (.mark .rightParen)]))

def Range.tree : Range → BareTree
  | .single value => .node .rangePiece [value.tree]
  | .span start mark stop => .node .rangePiece [start.tree, mark.atom.leaf, stop.tree]

def DagArg.tree : DagArg → BareTree
  | .plain value => .node .dagArg [value.tree]
  | .bound value name =>
      .node .dagArg [value.tree, Atom.leaf (.mark .colon), Atom.leaf (.varName name)]
  | .named name => .node .dagArg [Atom.leaf (.varName name)]

def Clause.tree : Clause → BareTree
  | .mk condition value =>
      .node .condClause [condition.tree, Atom.leaf (.mark .colon), value.tree]

def Value.treeAll : List Value → List BareTree
  | [] => []
  | first :: rest => first.tree :: Value.treeAll rest

def Range.treeAll : List Range → List BareTree
  | [] => []
  | first :: rest => first.tree :: Range.treeAll rest

def DagArg.treeAll : List DagArg → List BareTree
  | [] => []
  | first :: rest => first.tree :: DagArg.treeAll rest

def Clause.treeAll : List Clause → List BareTree
  | [] => []
  | first :: rest => first.tree :: Clause.treeAll rest

end

end Term

end TdSyntax
