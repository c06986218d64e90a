import TdSyntax.Proofs.Term.Statement
import TdSyntax.Proofs.Term.ValueMeaning

/-!
# What nodes mean as statements

A statement is read from a node if the views of the node and of the nodes under it
show its parts, and no others.
-/

namespace TdSyntax

def Name.ReadFrom (name : Name) (node : Node) : Prop :=
  ∃ token, node.Shows (.name (some token) name.text) ∧ token.text = .ok name.text

namespace Term

def Ranges.ReadFrom (ranges : Ranges) (node : Node) : Prop :=
  ∃ piece pieces, node.Shows (.rangeList (piece :: pieces)) ∧ ranges.first.ReadFrom piece ∧
    Range.ReadFromAll ranges.rest pieces

/-! ## Arguments and parents -/

def TemplateArg.ReadFrom (arg : TemplateArg) (node : Node) : Prop :=
  ∃ type name initial, node.Shows (.templateArg (some type) (some name) initial) ∧
    arg.type.ReadFrom type ∧ arg.name.ReadFrom name ∧
    Option.Rel Value.ReadFrom arg.initial initial

def TemplateArgsReadFrom (args : List TemplateArg) (node : Node) : Prop :=
  ∃ inner, node.Shows (.templateArgs inner) ∧ List.Forall₂ TemplateArg.ReadFrom args inner

def ArgListReadFrom (values : List Value) (node : Node) : Prop :=
  ∃ inner, node.Shows (.argList inner) ∧ Value.ReadFromAll values inner

def ParentClass.ReadFrom (parent : ParentClass) (node : Node) : Prop :=
  ∃ token args, node.Shows (.parentClass (some token) args) ∧
    token.text = .ok parent.name.text ∧ Option.Rel ArgListReadFrom parent.args args

def ParentsReadFrom (parents : List ParentClass) (node : Option Node) : Prop :=
  match parents with
  | [] => node = none
  | first :: rest => ∃ list inner, node = some list ∧ list.Shows (.parentClassList inner) ∧
      List.Forall₂ ParentClass.ReadFrom (first :: rest) inner

/-! ## Record bodies -/

def DefinitionReadFrom (name : Name) (value : Value) (node : Node) : Prop :=
  ∃ nameNode inner, node.Shows (.definedVariable (some nameNode) (some inner)) ∧
    name.ReadFrom nameNode ∧ value.ReadFrom inner

def AssertionReadFrom (condition message : Value) (node : Node) : Prop :=
  ∃ first second, node.Shows (.assertion (some first) (some second)) ∧
    condition.ReadFrom first ∧ message.ReadFrom second

def BodyItem.ReadFrom : BodyItem → Node → Prop
  | .field hasKeyword type name initial, node => ∃ typeNode nameNode inner,
      node.Shows (.field hasKeyword (some typeNode) (some nameNode) inner) ∧
        type.ReadFrom typeNode ∧ name.ReadFrom nameNode ∧
        Option.Rel Value.ReadFrom initial inner
  | .letInstruction name bits value, node => ∃ nameNode list inner,
      node.Shows (.letInstruction (some nameNode) list (some inner)) ∧
        name.ReadFrom nameNode ∧ Option.Rel Ranges.ReadFrom bits list ∧ value.ReadFrom inner
  | .definedVariable name value, node => DefinitionReadFrom name value node
  | .assertion condition message, node => AssertionReadFrom condition message node

def RecordBody.ReadFrom (body : RecordBody) (node : Node) : Prop :=
  ∃ list inner items, node.Shows (.recordBody list (some inner)) ∧
    ParentsReadFrom body.parents list ∧ inner.Shows (.body body.items.isNone items) ∧
    List.Forall₂ BodyItem.ReadFrom (body.items.getD []) items

def LetItem.ReadFrom (item : LetItem) (node : Node) : Prop :=
  ∃ nameNode list inner, node.Shows (.letItem (some nameNode) list (some inner)) ∧
    item.name.ReadFrom nameNode ∧ Option.Rel Ranges.ReadFrom item.bits list ∧
    item.value.ReadFrom inner

def LoopRange.ReadFrom : LoopRange → ForeachRange → Prop
  | .list ranges, .list node => ranges.ReadFrom node
  | .piece range, .piece node => range.ReadFrom node
  | _, _ => False

/-! ## Statements -/

mutual

def Statement.ReadFrom : Statement → Node → Prop
  | .assertion condition message, node => AssertionReadFrom condition message node
  | .classDefinition name args body, node => ∃ nameNode list inner,
      node.Shows (.classDefinition (some nameNode) list (some inner)) ∧
        name.ReadFrom nameNode ∧ Option.Rel TemplateArgsReadFrom args list ∧
        body.ReadFrom inner
  | .recordDefinition name body, node => ∃ nameNode inner,
      node.Shows (.recordDefinition nameNode (some inner)) ∧
        Option.Rel Value.ReadFrom name nameNode ∧ body.ReadFrom inner
  | .recordInstances name parents, node => ∃ nameNode list,
      node.Shows (.recordInstances nameNode list) ∧ Option.Rel Value.ReadFrom name nameNode ∧
        ParentsReadFrom parents list
  | .recordSet type name statements, node => ∃ typeNode nameNode inner,
      node.Shows (.recordSet (some typeNode) (some nameNode) inner) ∧
        type.ReadFrom typeNode ∧ name.ReadFrom nameNode ∧
        Statement.ReadFromAll statements inner
  | .definedVariable name value, node => DefinitionReadFrom name value node
  | .iteration name range body, node => ∃ iterator nameNode source inner,
      node.Shows (.iteration (some iterator) (some inner)) ∧
        iterator.Shows (.foreachIterator (some nameNode) (some source)) ∧
        name.ReadFrom nameNode ∧ range.ReadFrom source ∧ body.ReadFrom inner
  | .conditional condition thenBranch, node => ∃ first second,
      node.Shows (.conditional (some first) (some second) none) ∧
        condition.ReadFrom first ∧ thenBranch.ReadFrom second
  | .alternative condition thenBranch elseBranch, node => ∃ first second third,
      node.Shows (.conditional (some first) (some second) (some third)) ∧
        condition.ReadFrom first ∧ thenBranch.ReadFrom second ∧ elseBranch.ReadFrom third
  | .inclusion path, node => ∃ inner, node.Shows (.inclusion (some inner)) ∧
      inner.Shows (.string path)
  | .letBlock items body, node => ∃ list inner, node.Shows (.letBlock list (some inner)) ∧
      List.Forall₂ LetItem.ReadFrom items list ∧ body.ReadFrom inner
  | .multiclass name args parents statements, node => ∃ nameNode list above inner nodes,
      node.Shows (.multiclass (some nameNode) list above (some inner)) ∧
        name.ReadFrom nameNode ∧ Option.Rel TemplateArgsReadFrom args list ∧
        ParentsReadFrom parents above ∧ inner.Shows (.multiclassBody nodes) ∧
        Statement.ReadFromAll statements nodes

def Block.ReadFrom : Block → Node → Prop
  | .single statement, node => ∃ inner, node.Shows (.block false [inner]) ∧
      statement.ReadFrom inner
  | .braced statements, node => ∃ inner, node.Shows (.block true inner) ∧
      Statement.ReadFromAll statements inner

def Statement.ReadFromAll : List Statement → List Node → Prop
  | [], nodes => nodes = []
  | first :: rest, nodes => ∃ node others, nodes = node :: others ∧ first.ReadFrom node ∧
      Statement.ReadFromAll rest others

end

end Term

end TdSyntax
