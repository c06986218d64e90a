import TdSyntax.Proofs.Term.Statement
import TdSyntax.Proofs.Term.ValueTree

/-!
# The trees of statements

The bare tree that the grammar is to make of a printed statement, and of each of its
parts.  What is left out has no tree.
-/

namespace TdSyntax.Term

variable (layout : Layout)

def Ranges.tree (ranges : Ranges) : BareTree :=
  .node .rangeList (commaTrees (ranges.first.tree layout :: Range.treeAll layout ranges.rest))

def nameTree (name : Name) : BareTree := .node .name [Atom.leaf (.name name)]

def initializerTrees : Option Value → List BareTree
  | none => []
  | some value => [Atom.leaf (.mark .eq), value.tree layout]

def TemplateArg.tree (arg : TemplateArg) : BareTree :=
  .node .templateArg (arg.type.tree :: nameTree arg.name :: initializerTrees layout arg.initial)

def templateTrees : Option (List TemplateArg) → List BareTree
  | none => []
  | some args =>
      [.node .templateArgs (Atom.leaf (.mark .leftAngle) ::
        (commaTrees (args.map (TemplateArg.tree layout)) ++ [Atom.leaf (.mark .rightAngle)]))]

def parentArgTrees : Option (List Value) → List BareTree
  | none => []
  | some args =>
      [.node .argList (Atom.leaf (.mark .leftAngle) ::
        (commaTrees (Value.treeAll layout args) ++ [Atom.leaf (.mark .rightAngle)]))]

def ParentClass.tree (parent : ParentClass) : BareTree :=
  .node .parentClass (Atom.leaf (.name parent.name) :: parentArgTrees layout parent.args)

def parentTrees (parents : List ParentClass) : List BareTree :=
  if parents.isEmpty then []
  else [.node .parentClassList (Atom.leaf (.mark .colon) ::
    commaTrees (parents.map (ParentClass.tree layout)))]

def bracketedTrees (opening close : Atom) : Option Ranges → List BareTree
  | none => []
  | some ranges => [opening.leaf, ranges.tree layout, close.leaf]

def definitionTree (name : Name) (value : Value) : BareTree :=
  .node .defvarStmt [Atom.leaf (.mark .defvarKw), nameTree name, Atom.leaf (.mark .eq),
    value.tree layout, Atom.leaf (.mark .semicolon)]

def assertionTree (condition message : Value) : BareTree :=
  .node .assertStmt [Atom.leaf (.mark .assertKw), condition.tree layout,
    Atom.leaf (.mark .comma), message.tree layout, Atom.leaf (.mark .semicolon)]

def BodyItem.tree : BodyItem → BareTree
  | .field hasKeyword type name initial =>
      .node .field ((if hasKeyword then [Atom.leaf (.mark .fieldKw)] else []) ++
        (type.tree :: nameTree name ::
          (initializerTrees layout initial ++ [Atom.leaf (.mark .semicolon)])))
  | .letInstruction name bits value =>
      .node .letInstruction (Atom.leaf (.mark .letKw) :: nameTree name ::
        (bracketedTrees layout (.mark .leftBrace) (.mark .rightBrace) bits ++
          [Atom.leaf (.mark .eq), value.tree layout, Atom.leaf (.mark .semicolon)]))
  | .definedVariable name value => definitionTree layout name value
  | .assertion condition message => assertionTree layout condition message

def bodyTree : Option (List BodyItem) → BareTree
  | none => .node .body [Atom.leaf (.mark .semicolon)]
  | some items =>
      .node .body (Atom.leaf (.mark .leftBrace) ::
        (items.map (BodyItem.tree layout) ++ [Atom.leaf (.mark .rightBrace)]))

def RecordBody.tree (body : RecordBody) : BareTree :=
  .node .recordBody (parentTrees layout body.parents ++ [bodyTree layout body.items])

def recordNameTrees : Option Value → List BareTree
  | none => []
  | some value => [value.tree layout]

def LetItem.tree (item : LetItem) : BareTree :=
  .node .letItem (nameTree item.name ::
    (bracketedTrees layout (.mark .leftAngle) (.mark .rightAngle) item.bits ++
      [Atom.leaf (.mark .eq), item.value.tree layout]))

def LoopRange.trees : LoopRange → List BareTree
  | .list ranges =>
      [Atom.leaf (.mark .leftBrace), ranges.tree layout, Atom.leaf (.mark .rightBrace)]
  | .piece range => [range.tree layout]

def iteratorTree (name : Name) (range : LoopRange) : BareTree :=
  .node .foreachIterator (nameTree name :: Atom.leaf (.mark .eq) :: range.trees layout)

def multiclassTree (trees : List BareTree) : BareTree :=
  .node .multiclassBody
    (if trees.isEmpty then [Atom.leaf (.mark .semicolon)]
    else Atom.leaf (.mark .leftBrace) :: (trees ++ [Atom.leaf (.mark .rightBrace)]))

mutual

def Statement.tree : Statement → BareTree
  | .assertion condition message => assertionTree layout condition message
  | .classDefinition name args body =>
      .node .classStmt (Atom.leaf (.mark .classKw) :: nameTree name ::
        (templateTrees layout args ++ [body.tree layout]))
  | .recordDefinition name body =>
      .node .defStmt (Atom.leaf (.mark .defKw) ::
        (recordNameTrees layout name ++ [body.tree layout]))
  | .recordInstances name parents =>
      .node .defmStmt (Atom.leaf (.mark .defmKw) :: (recordNameTrees layout name ++
        (parentTrees layout parents ++ [Atom.leaf (.mark .semicolon)])))
  | .recordSet type name statements =>
      .node .defsetStmt (Atom.leaf (.mark .defsetKw) :: type.tree :: nameTree name ::
        Atom.leaf (.mark .eq) :: Atom.leaf (.mark .leftBrace) ::
          (Statement.treeAll statements ++ [Atom.leaf (.mark .rightBrace)]))
  | .definedVariable name value => definitionTree layout name value
  | .iteration name range body =>
      .node .foreachStmt [Atom.leaf (.mark .foreachKw), iteratorTree layout name range,
        Atom.leaf (.mark .inKw), body.tree]
  | .conditional condition thenBranch =>
      .node .ifStmt [Atom.leaf (.mark .ifKw), condition.tree layout,
        Atom.leaf (.mark .thenKw), thenBranch.tree]
  | .alternative condition thenBranch elseBranch =>
      .node .ifStmt [Atom.leaf (.mark .ifKw), condition.tree layout,
        Atom.leaf (.mark .thenKw), thenBranch.tree,
        .node .elseBranch [Atom.leaf (.mark .elseKw), elseBranch.tree]]
  | .inclusion path =>
      .node .includeStmt [Atom.leaf (.mark .includeKw), stringTree path]
  | .letBlock items body =>
      .node .letStmt [Atom.leaf (.mark .letKw),
        .node .letList (commaTrees (items.map (LetItem.tree layout))),
        Atom.leaf (.mark .inKw), body.tree]
  | .multiclass name args parents statements =>
      .node .multiclassStmt (Atom.leaf (.mark .multiclassKw) :: nameTree name ::
        (templateTrees layout args ++ (parentTrees layout parents ++
          [multiclassTree (Statement.treeAll statements)])))

def Block.tree : Block → BareTree
  | .single statement => .node .block [statement.tree]
  | .braced statements =>
      .node .block (Atom.leaf (.mark .leftBrace) ::
        (Statement.treeAll statements ++ [Atom.leaf (.mark .rightBrace)]))

def Statement.treeAll : List Statement → List BareTree
  | [] => []
  | first :: rest => first.tree :: Statement.treeAll rest

end

end TdSyntax.Term
