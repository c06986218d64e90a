import TdSyntax.Proofs.Term.Value

/-!
# Statements as terms

The abstract syntax of statements and of what they are made of.  A list of parents
that is empty is not written at all; a body or a list of arguments that is `none` is
written without brackets, unlike an empty one.
-/

namespace TdSyntax.Term

/-! ## Records -/

structure Ranges where
  first : Range
  rest : List Range

structure TemplateArg where
  type : TypeName
  name : Name
  initial : Option Value

structure ParentClass where
  name : Name
  args : Option (List Value)

inductive BodyItem where
  | field (hasKeyword : Bool) (type : TypeName) (name : Name) (initial : Option Value)
  | letInstruction (name : Name) (bits : Option Ranges) (value : Value)
  | definedVariable (name : Name) (value : Value)
  | assertion (condition message : Value)

structure RecordBody where
  parents : List ParentClass
  items : Option (List BodyItem)

structure LetItem where
  name : Name
  bits : Option Ranges
  value : Value

inductive LoopRange where
  | list (ranges : Ranges)
  | piece (range : Range)

/-! ## Statements -/

mutual

inductive Statement where
  | assertion (condition message : Value)
  | classDefinition (name : Name) (args : Option (List TemplateArg)) (body : RecordBody)
  | recordDefinition (name : Option Value) (body : RecordBody)
  | recordInstances (name : Option Value) (parents : List ParentClass)
  | recordSet (type : TypeName) (name : Name) (statements : List Statement)
  | definedVariable (name : Name) (value : Value)
  | iteration (name : Name) (range : LoopRange) (body : Block)
  | conditional (condition : Value) (thenBranch : Block)
  | alternative (condition : Value) (thenBranch elseBranch : Block)
  | inclusion (path : Text)
  | letBlock (items : List LetItem) (body : Block)
  | multiclass (name : Name) (args : Option (List TemplateArg)) (parents : List ParentClass)
      (statements : List Statement)

inductive Block where
  | single (statement : Statement)
  | braced (statements : List Statement)

end

/-! ## Which statements can be written

A range that starts with a brace would be read as a list of ranges, and an `else`
belongs to the innermost conditional that has none yet. -/

def LoopRange.fits : LoopRange → Bool
  | .list _ => true
  | .piece range => range.firstKind != .leftBrace

mutual

/-- Whether a statement would take an `else` behind it. -/
def Statement.isOpen : Statement → Bool
  | .conditional _ _ => true
  | .alternative _ _ elseBranch => elseBranch.isOpen
  | .iteration _ _ body | .letBlock _ body => body.isOpen
  | _ => false

def Block.isOpen : Block → Bool
  | .single statement => statement.isOpen
  | .braced _ => false

end

mutual

/-- Whether a statement may stand in a place. -/
def Statement.fits (place : StatementPlace) : Statement → Bool
  | .assertion _ _ | .definedVariable _ _ => true
  | .classDefinition _ _ _ | .inclusion _ => place == .topLevel
  | .recordDefinition name _ | .recordInstances name _ => name.all (Value.fits .recordName)
  | .recordSet _ _ statements => place == .topLevel && Statement.fitAll place statements
  | .iteration _ range body => range.fits && body.fits place
  | .conditional _ thenBranch => thenBranch.fits place
  | .alternative _ thenBranch elseBranch =>
      !thenBranch.isOpen && thenBranch.fits place && elseBranch.fits place
  | .letBlock _ body => body.fits place
  | .multiclass _ _ _ statements =>
      place == .topLevel && Statement.fitAll .multiclass statements

def Block.fits (place : StatementPlace) : Block → Bool
  | .single statement => statement.fits place
  | .braced statements => Statement.fitAll place statements

def Statement.fitAll (place : StatementPlace) : List Statement → Bool
  | [] => true
  | first :: rest => first.fits place && Statement.fitAll place rest

end

/-! ## Printing -/

variable (layout : Layout)

def Ranges.atoms (ranges : Ranges) : List Atom :=
  commas (ranges.first.atoms layout :: Range.atomsAll layout ranges.rest)

def initializer : Option Value → List Atom
  | none => []
  | some value => .mark .eq :: value.atoms layout

def TemplateArg.atoms (arg : TemplateArg) : List Atom :=
  arg.type.atoms ++ .name arg.name :: initializer layout arg.initial

def templateArgs : Option (List TemplateArg) → List Atom
  | none => []
  | some args =>
      .mark .leftAngle :: (commas (args.map (TemplateArg.atoms layout)) ++ [.mark .rightAngle])

def parentArgs : Option (List Value) → List Atom
  | none => []
  | some args =>
      .mark .leftAngle :: (commas (Value.atomsAll layout args) ++ [.mark .rightAngle])

def ParentClass.atoms (parent : ParentClass) : List Atom :=
  .name parent.name :: parentArgs layout parent.args

def parentList (parents : List ParentClass) : List Atom :=
  if parents.isEmpty then [] else .mark .colon :: commas (parents.map (ParentClass.atoms layout))

def bracketed (opening close : Atom) : Option Ranges → List Atom
  | none => []
  | some ranges => opening :: (ranges.atoms layout ++ [close])

def definitionAtoms (name : Name) (value : Value) : List Atom :=
  .mark .defvarKw :: .name name :: .mark .eq :: (value.atoms layout ++ [.mark .semicolon])

def assertionAtoms (condition message : Value) : List Atom :=
  .mark .assertKw :: (condition.atoms layout ++ .mark .comma ::
    (message.atoms layout ++ [.mark .semicolon]))

def BodyItem.atoms : BodyItem → List Atom
  | .field hasKeyword type name initial =>
      (if hasKeyword then [.mark .fieldKw] else []) ++
        (type.atoms ++ .name name :: (initializer layout initial ++ [.mark .semicolon]))
  | .letInstruction name bits value =>
      .mark .letKw :: .name name ::
        (bracketed layout (.mark .leftBrace) (.mark .rightBrace) bits ++ .mark .eq ::
          (value.atoms layout ++ [.mark .semicolon]))
  | .definedVariable name value => definitionAtoms layout name value
  | .assertion condition message => assertionAtoms layout condition message

def bodyItems : Option (List BodyItem) → List Atom
  | none => [.mark .semicolon]
  | some items =>
      .mark .leftBrace :: (items.flatMap (BodyItem.atoms layout) ++ [.mark .rightBrace])

def RecordBody.atoms (body : RecordBody) : List Atom :=
  parentList layout body.parents ++ bodyItems layout body.items

def recordName : Option Value → List Atom
  | none => []
  | some value => value.atoms layout

def LetItem.atoms (item : LetItem) : List Atom :=
  .name item.name :: (bracketed layout (.mark .leftAngle) (.mark .rightAngle) item.bits ++
    .mark .eq :: item.value.atoms layout)

def LoopRange.atoms : LoopRange → List Atom
  | .list ranges => .mark .leftBrace :: (ranges.atoms layout ++ [.mark .rightBrace])
  | .piece range => range.atoms layout

/-- The body of a multiclass, which has no braces if it is empty. -/
def multiclassBody (parts : List (List Atom)) : List Atom :=
  if parts.isEmpty then [.mark .semicolon]
  else .mark .leftBrace :: (parts.flatten ++ [.mark .rightBrace])

mutual

def Statement.atoms : Statement → List Atom
  | .assertion condition message => assertionAtoms layout condition message
  | .classDefinition name args body =>
      .mark .classKw :: .name name :: (templateArgs layout args ++ body.atoms layout)
  | .recordDefinition name body =>
      .mark .defKw :: (recordName layout name ++ body.atoms layout)
  | .recordInstances name parents =>
      .mark .defmKw :: (recordName layout name ++
        (parentList layout parents ++ [.mark .semicolon]))
  | .recordSet type name statements =>
      .mark .defsetKw :: (type.atoms ++ .name name :: .mark .eq :: .mark .leftBrace ::
        ((Statement.atomsAll statements).flatten ++ [.mark .rightBrace]))
  | .definedVariable name value => definitionAtoms layout name value
  | .iteration name range body =>
      .mark .foreachKw :: .name name :: .mark .eq ::
        (range.atoms layout ++ .mark .inKw :: body.atoms)
  | .conditional condition thenBranch =>
      .mark .ifKw :: (condition.atoms layout ++ .mark .thenKw :: thenBranch.atoms)
  | .alternative condition thenBranch elseBranch =>
      .mark .ifKw :: (condition.atoms layout ++ .mark .thenKw ::
        (thenBranch.atoms ++ .mark .elseKw :: elseBranch.atoms))
  | .inclusion path => [.mark .includeKw, .quoted path]
  | .letBlock items body =>
      .mark .letKw :: (commas (items.map (LetItem.atoms layout)) ++ .mark .inKw :: body.atoms)
  | .multiclass name args parents statements =>
      .mark .multiclassKw :: .name name :: (templateArgs layout args ++
        (parentList layout parents ++ multiclassBody (Statement.atomsAll statements)))

def Block.atoms : Block → List Atom
  | .single statement => statement.atoms
  | .braced statements =>
      .mark .leftBrace :: ((Statement.atomsAll statements).flatten ++ [.mark .rightBrace])

def Statement.atomsAll : List Statement → List (List Atom)
  | [] => []
  | first :: rest => first.atoms :: Statement.atomsAll rest

end

end TdSyntax.Term
